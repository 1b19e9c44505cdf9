import Mathlib.Data.List.Range
import LinuxSystemLearning.Logging.MsgQueue
import LinuxSystemLearning.Logging.Rotation

/-!
# From the clients to the archives

Clients type lines, the kernel keeps them in the message queue, and the server hands them to
the handlers.  Any number of clients and of servers come up and go.  The queue belongs to who
made it: a client makes one if there is none, a server ends if there is one.
-/

set_option autoImplicit false

namespace LinuxSystemLearning.MsgQueue

open LinuxSystemLearning.Cxx LinuxSystemLearning.Interleaving LinuxSystemLearning.Logging

/-! ## The system -/

def msgTypeClient : Int := 1

inductive Client where
  | absent
  | running (msgfd : Nat)
  | left
  /-- The line was copied beyond the array. -/
  | overran
deriving DecidableEq

structure System where
  /-- The queue of the key, by its number, with its messages. -/
  queue : Option (Nat × Queue)
  /-- How many queues were made. -/
  made : Nat
  clients : Nat → Client
  /-- The server programs by the numbers of the queues that they made. -/
  servers : Nat → Option Server
  /-- The files that all servers share. -/
  disk : World
  /-- The lines that the kernel took, for each queue. -/
  accepted : Nat → List Bytes
  /-- How many receives failed, for each queue. -/
  failed : Nat → Nat

inductive Event where
  | clientUp (who : Nat) (fails : Bool)
  /-- A line of a client, and whether the kernel takes the message. -/
  | input (who : Nat) (line : Bytes) (room : Bool)
  | serverUp (fails : Bool)
  /-- A round of the loop of a server: whether `msgrcv` fails, and what `Run` would meet. -/
  | receive (number : Nat) (fails : Bool) (call : Call)
  /-- The destructor of a server. -/
  | destroy (number : Nat)

def System.messages (sys : System) (number : Nat) : Option Queue :=
  match sys.queue with
  | some (current, messages) => if current = number then some messages else none
  | none => none

def System.makeQueue (sys : System) : System :=
  { sys with queue := some (sys.made, []), made := sys.made + 1 }

/-- `msgget` with `IPC_CREAT`: the number of the queue.  With `IPC_EXCL` it has to be new. -/
def msgget (excl : Bool) (sys : System) : Option (Nat × System) :=
  match sys.queue with
  | some (number, _) => if excl then none else some (number, sys)
  | none => some (sys.made, sys.makeQueue)

/-- `Create`: no queue is the end of the program.  `ftok` and `msgget` may fail otherwise. -/
def create (excl fails : Bool) (sys : System) : Option (Nat × System) :=
  if fails then none else msgget excl sys

def clientUp (who : Nat) (fails : Bool) (sys : System) : Option System :=
  if sys.clients who = .absent then
    match create false fails sys with
    | none => some { sys with clients := Function.update sys.clients who .left }
    | some (number, sys) =>
        some { sys with clients := Function.update sys.clients who (.running number) }
  else none

/-- `Send`: `msgsnd` fails where the queue is gone. -/
def sendTo (number : Nat) (line : Bytes) (room : Bool) (sys : System) : Except Fault System :=
  match sys.messages number with
  | none => (send msgTypeClient line false []).map fun _ => sys
  | some messages =>
      (send msgTypeClient line room messages).map fun messages =>
        { sys with
          queue := some (number, messages)
          accepted := if room then
            Function.update sys.accepted number (sys.accepted number ++ [line])
            else sys.accepted }

/-- `std::getline` stops in front of a line feed. -/
def input (who : Nat) (line : Bytes) (room : Bool) (sys : System) : Option System :=
  match sys.clients who with
  | .running number =>
      if 10 ∈ line then none
      else match sendTo number line room sys with
        | .error _ => some { sys with clients := Function.update sys.clients who .overran }
        | .ok sys =>
            if line = exitText then
              some { sys with clients := Function.update sys.clients who .left }
            else some sys
  | _ => none

def serverUp (fails : Bool) (sys : System) : System :=
  match create true fails sys with
  | none => sys
  | some (number, sys) =>
      { sys with servers := Function.update sys.servers number (some serverStart) }

/-- `msgrcv` fails, or takes the first message of the type out; it waits for one. -/
def take (fails : Bool) (messages : Queue) : Option (Option Message × Queue) :=
  if fails then some (none, messages)
  else (msgrcv msgTypeClient messages).map fun msg =>
    (some msg.message, messages.eraseP (·.mtype = msgTypeClient))

def onDisk (disk : World) (server : Server) : Server :=
  { server with world := { disk with ended := server.world.ended } }

def receive (number : Nat) (fails : Bool) (call : Call) (sys : System) : Option System := do
  let server ← sys.servers number
  let messages ← sys.messages number
  let (outcome, messages) ← take fails messages
  let server ← serve (onDisk sys.disk server) ⟨outcome, call⟩
  some
    { sys with
      queue := some (number, messages)
      servers := Function.update sys.servers number (some server)
      disk := server.world
      failed := if fails then Function.update sys.failed number (sys.failed number + 1)
        else sys.failed }

def destroy (number : Nat) (sys : System) : Option System := do
  let server ← sys.servers number
  let _ ← sys.messages number
  if server.status = .broken then some { sys with queue := none } else none

def step (sys : System) : Event → Option System
  | .clientUp who fails => clientUp who fails sys
  | .input who line room => input who line room sys
  | .serverUp fails => some (serverUp fails sys)
  | .receive number fails call => receive number fails call sys
  | .destroy number => destroy number sys

def start : System where
  queue := none
  made := 0
  clients := fun _ => .absent
  servers := fun _ => none
  disk := Logging.start
  accepted := fun _ => []
  failed := fun _ => 0

/-! ## What is to hold -/

def System.received (sys : System) (number : Nat) : List Bytes :=
  match sys.servers number with
  | none => []
  | some server => server.received

def System.runs (sys : System) (number : Nat) : List Bytes :=
  match sys.servers number with
  | none => []
  | some server => server.runs

/-- The texts that were handed to the handlers, one server after the other. -/
def System.handled (sys : System) : List Bytes := (List.range sys.made).flatMap sys.runs

/-- The lines fit into the array together with a NUL, the log can be opened, and nothing is
packed twice in one second. -/
def Fair (sys : System) : Event → Prop
  | .input _ line _ => line.length < defaultSize
  | .receive _ _ call => call.opens = true ∧ call.reads = true ∧ 0 ≤ call.now ∧
      0 ≤ call.pid ∧ Unpacked sys.disk.files call
  | _ => True

instance (sys : System) (event : Event) : Decidable (Fair sys event) :=
  match event with
  | .input _ line _ => inferInstanceAs (Decidable (line.length < defaultSize))
  | .receive _ _ call => inferInstanceAs (Decidable (call.opens = true ∧ call.reads = true ∧
      0 ≤ call.now ∧ 0 ≤ call.pid ∧ Unpacked sys.disk.files call))
  | .clientUp _ _ => inferInstanceAs (Decidable True)
  | .serverUp _ => inferInstanceAs (Decidable True)
  | .destroy _ => inferInstanceAs (Decidable True)

variable {sys after : System} {server next : Server} {number : Nat} {line : Bytes}
  {msg : MsgBuf} {messages rest : Queue} {back : List Bytes}

/-! ## A message -/

def Stored (line : Bytes) (msg : MsgBuf) : Prop := filled msgTypeClient line = some msg

theorem cString_append_nul (line rest : Bytes) :
    cString (line ++ 0 :: rest) = cString line := by
  induction line with
  | nil => rfl
  | cons byte line ih =>
      unfold cString at ih ⊢
      rw [List.cons_append, List.takeWhile_cons, List.takeWhile_cons]
      split
      · rw [ih]
      · rfl

/-- A short line arrives up to its first NUL. -/
theorem Stored.arrives (stored : Stored line msg) (short : line.length < defaultSize) :
    msg.mtype = msgTypeClient ∧ msg.message.text = cString line ∧ msg.message.Terminated := by
  obtain ⟨made, copied, mtype, mtext⟩ := filled_eq msgTypeClient (Nat.le_of_lt short)
  obtain rfl : made = msg := Option.some.inj (copied.symm.trans stored)
  obtain ⟨more, length⟩ : ∃ more, defaultSize - line.length = more + 1 :=
    ⟨defaultSize - line.length - 1, by omega⟩
  rw [length, List.replicate_succ] at mtext
  refine ⟨mtype, ?_, Or.inr ?_⟩
  · show cString made.mtext = _
    rw [mtext, cString_append_nul]
  · show 0 ∈ made.mtext
    rw [mtext]
    exact List.mem_append_right _ List.mem_cons_self

theorem take_cases {fails : Bool} {outcome : Option Message}
    (stored : List.Forall₂ Stored back messages)
    (short : ∀ line ∈ back, line.length < defaultSize)
    (taken : take fails messages = some (outcome, rest)) :
    (fails = true ∧ outcome = none ∧ rest = messages) ∨
      ∃ (line : Bytes) (back' : List Bytes) (message : Message), fails = false ∧
        back = line :: back' ∧ outcome = some message ∧ message.text = cString line ∧
        message.Terminated ∧ List.Forall₂ Stored back' rest := by
  unfold take at taken
  split at taken
  · rename_i failed
    cases taken
    exact Or.inl ⟨failed, rfl, rfl⟩
  · rename_i works
    right
    cases stored with
    | nil => cases taken
    | cons first others =>
        obtain ⟨mtype, text, terminated⟩ := first.arrives (short _ List.mem_cons_self)
        rw [msgrcv, List.find?_cons_of_pos (by simpa using mtype),
          List.eraseP_cons_of_pos (by simpa using mtype)] at taken
        cases taken
        exact ⟨_, _, _, by simpa using works, rfl, rfl, text, terminated, others⟩

/-! ## A round of a server -/

/-- What is in `text` behind the receive. -/
def heard (outcome : Option Message) (text : Bytes) : Bytes :=
  (outcome.map Message.text).getD text

/-- The loop of a server kept to its queue. -/
structure Served (server : Server) (failed : Nat) : Prop where
  going : Going server
  inside : server.status ≠ .overread
  ordered : (upToExit server.received).Sublist server.runs
  counted : server.runs.length = (upToExit server.received).length + failed
  known : ∀ text ∈ server.runs, text ∈ server.received ∨ text = []
  last : server.text ∈ server.received ∨ server.text = []
  ended : server.status = .broken →
    ∃ front, server.received = front ++ [exitText] ∧ exitText ∉ front

theorem served_start : Served serverStart 0 where
  going := going_start
  inside := by decide
  ordered := List.Sublist.refl []
  counted := rfl
  known := fun _ member => absurd member List.not_mem_nil
  last := Or.inr rfl
  ended := by
    intro broken
    cases broken

theorem Served.onDisk {failed : Nat} (served : Served server failed) (disk : World) :
    Served (onDisk disk server) failed :=
  ⟨⟨served.going.1, served.going.2, served.going.3⟩, served.inside, served.ordered,
    served.counted, served.known, served.last, served.ended⟩

/-- Behind a receive that stays within the array the server handles what it heard. -/
theorem serve_heard {round : Round} (moved : serve server round = some next)
    (terminated : ∀ message, round.outcome = some message → message.Terminated) :
    server.status = .looping ∧ server.world.ended = none ∧
      next = handle round.call (heard round.outcome server.text)
        (received round.outcome server) := by
  have running : server.world.ended = none := by
    unfold serve at moved
    split at moved
    · rename_i both
      exact both.2
    · cases moved
  obtain ⟨looping, cases⟩ := serve_cases moved
  refine ⟨looping, running, ?_⟩
  rcases cases with ⟨message, came, beyond, -⟩ | ⟨message, came, -, same⟩ | ⟨failed, same⟩
  · exact absurd (terminated message came) beyond
  · rw [came]
    exact same
  · rw [failed, received_none]
    exact same

theorem handle_cases (call : Call) (text : Bytes) (server : Server) :
    (text = exitText ∧ (handle call text server).status = .broken ∧
        (handle call text server).text = text ∧
        (handle call text server).runs = server.runs ∧
        (handle call text server).world = server.world) ∨
      (text ≠ exitText ∧ (handle call text server).status = server.status ∧
        (handle call text server).text = text ∧
        (handle call text server).runs = server.runs ++ [text] ∧
        (handle call text server).world =
          (enableHandler true true true).run { call with text := text } server.world) := by
  by_cases last : text = exitText
  · left
    simp [handle, last]
  · right
    simp [handle, last]

theorem Served.failing {failed : Nat} (served : Served server failed) {call : Call}
    (moved : serve server ⟨none, call⟩ = some next) : Served next (failed + 1) := by
  obtain ⟨looping, -, rfl⟩ := serve_heard moved (by
    intro message came
    cases came)
  have other := served.going.text_ne looping
  have going := served.going.serve moved
  rw [received_none]
  rw [received_none] at going
  obtain ⟨-, status, text, runs, -⟩ := (handle_cases call server.text server).resolve_left
    fun exits => other exits.1
  refine ⟨going, ?_, ?_, ?_, ?_, ?_, ?_⟩
  · show (handle call server.text server).status ≠ _
    rw [status]
    exact served.inside
  · show List.Sublist _ (handle call server.text server).runs
    rw [handle_received, runs]
    exact served.ordered.trans (List.sublist_append_left _ _)
  · show (handle call server.text server).runs.length = _
    rw [handle_received, runs, List.length_append, served.counted]
    rfl
  · intro text' member
    rw [handle_received]
    have member : text' ∈ (handle call server.text server).runs := member
    rw [runs] at member
    rcases List.mem_append.mp member with before | last
    · exact served.known text' before
    · rw [List.mem_singleton.mp last]
      exact served.last
  · show (handle call server.text server).text ∈ _ ∨ (handle call server.text server).text = _
    rw [handle_received, text]
    exact served.last
  · intro broken
    have broken : (handle call server.text server).status = .broken := broken
    rw [status, looping] at broken
    cases broken

theorem Served.hearing {failed : Nat} (served : Served server failed) {call : Call}
    {message : Message} (terminated : message.Terminated)
    (moved : serve server ⟨some message, call⟩ = some next) :
    Served next failed ∧ next.received = server.received ++ [message.text] := by
  obtain ⟨looping, -, same⟩ := serve_heard moved (by
    intro other came
    cases came
    exact terminated)
  have going := served.going.serve moved
  have noExit := served.going.noExit looping
  have took : next.received = server.received ++ [message.text] := by
    rw [same, handle_received]
    rfl
  refine ⟨?_, took⟩
  change next = handle call message.text (received (some message) server) at same
  rcases handle_cases call message.text (received (some message) server) with
    ⟨exits, status, text, runs, -⟩ | ⟨other, status, text, runs, -⟩
  · rw [← same] at status text runs
    rw [exits] at took text
    have upTo : upToExit next.received = upToExit server.received := by
      rw [took, upToExit_concat noExit, if_pos rfl, upToExit_eq noExit]
    refine ⟨going, by simp [status], ?_, ?_, ?_, Or.inl ?_, fun _ => ⟨_, took, noExit⟩⟩
    · rw [upTo, runs]
      exact served.ordered
    · rw [upTo, runs]
      exact served.counted
    · intro given member
      rw [runs] at member
      rw [took]
      exact (served.known given member).imp_left (List.mem_append_left _)
    · rw [text, took]
      exact List.mem_append_right _ (List.mem_singleton_self _)
  · rw [← same] at status text runs
    have upTo : upToExit next.received = upToExit server.received ++ [message.text] := by
      rw [took, upToExit_concat noExit, if_neg other, upToExit_eq noExit]
    have status : next.status = .looping := status.trans looping
    refine ⟨going, by simp [status], ?_, ?_, ?_, Or.inl ?_, by simp [status]⟩
    · rw [upTo, runs]
      exact served.ordered.append (List.Sublist.refl _)
    · rw [upTo, runs, List.length_append, List.length_append]
      have counted := served.counted
      simp only [received_runs, List.length_singleton]
      omega
    · intro given member
      rw [runs] at member
      rw [took]
      rcases List.mem_append.mp member with before | last
      · exact (served.known given before).imp_left (List.mem_append_left _)
      · exact Or.inl (List.mem_append_right _ last)
    · rw [text, took]
      exact List.mem_append_right _ (List.mem_singleton_self _)

theorem serve_handed {round : Round} (moved : serve server round = some next)
    (terminated : ∀ message, round.outcome = some message → message.Terminated) :
    (next.runs = server.runs ∧ next.world = server.world) ∨
      (next.runs = server.runs ++ [heard round.outcome server.text] ∧
        Logging.step (enableHandler true true true) server.world
          { round.call with text := heard round.outcome server.text } = some next.world) := by
  obtain ⟨-, running, rfl⟩ := serve_heard moved terminated
  rcases handle_cases round.call (heard round.outcome server.text)
      (received round.outcome server) with
    ⟨-, -, -, runs, world⟩ | ⟨-, -, -, runs, world⟩
  · exact Or.inl ⟨runs, world⟩
  · right
    refine ⟨runs, ?_⟩
    rw [Logging.step, if_pos running, world]
    rfl

/-! ## The invariant -/

/-- What was received of what was accepted, and what is still to be received. -/
def Split (accepted received back : List Bytes) : Prop :=
  ∃ front, accepted = front ++ back ∧ received = front.map cString

structure Inv (sys : System) : Prop where
  files : ∃ archives recent, Rotated sys.disk.files archives recent ∧
    allMessages archives recent = sys.handled
  current : ∀ number messages, sys.messages number = some messages → sys.made = number + 1
  lines : ∀ number, ∀ line ∈ sys.accepted number, 10 ∉ line ∧ line.length < defaultSize
  waiting : ∀ number messages, sys.messages number = some messages →
    ∃ back, Split (sys.accepted number) (sys.received number) back ∧
      List.Forall₂ Stored back messages
  gone : ∀ number, number < sys.made → sys.messages number = none →
    (∃ back, Split (sys.accepted number) (sys.received number) back) ∧
      ∃ front, sys.received number = front ++ [exitText] ∧ exitText ∉ front
  fresh : ∀ number, sys.made ≤ number →
    sys.accepted number = [] ∧ sys.servers number = none
  served : ∀ number server, sys.servers number = some server →
    Served server (sys.failed number) ∧ server.world.ended = none
  idle : ∀ number, sys.servers number = none → sys.failed number = 0

theorem messages_of_queue (queue : sys.queue = some (number, messages)) :
    sys.messages number = some messages := by
  rw [System.messages, queue]
  exact if_pos rfl

theorem queue_of_messages (there : sys.messages number = some messages) :
    sys.queue = some (number, messages) := by
  unfold System.messages at there
  split at there
  · rename_i queue
    split at there
    · rename_i same
      cases there
      rw [queue, same]
    · cases there
  · cases there

theorem messages_none (none : sys.queue = none) (number : Nat) :
    sys.messages number = .none := by
  rw [System.messages, none]

theorem messages_other {other : Nat} (queue : sys.queue = some (number, messages))
    (apart : other ≠ number) : sys.messages other = none := by
  rw [System.messages, queue]
  exact if_neg (Ne.symm apart)

theorem received_of_none (unserved : sys.servers number = none) : sys.received number = [] := by
  rw [System.received, unserved]

theorem runs_of_none (unserved : sys.servers number = none) : sys.runs number = [] := by
  rw [System.runs, unserved]

theorem received_of_some (there : sys.servers number = some server) :
    sys.received number = server.received := by
  rw [System.received, there]

theorem runs_of_some (there : sys.servers number = some server) :
    sys.runs number = server.runs := by
  rw [System.runs, there]

theorem handled_concat {texts : List Bytes} (current : sys.made = number + 1)
    (made : after.made = sys.made)
    (others : ∀ other, other ≠ number → after.runs other = sys.runs other)
    (more : after.runs number = sys.runs number ++ texts) :
    after.handled = sys.handled ++ texts := by
  have before : (List.range number).flatMap after.runs =
      (List.range number).flatMap sys.runs := by
    refine List.flatMap_congr ?_
    intro other member
    exact others other (Nat.ne_of_lt (List.mem_range.mp member))
  rw [System.handled, System.handled, made, current, List.range_succ, List.flatMap_append,
    List.flatMap_append, before, List.flatMap_singleton, List.flatMap_singleton, more,
    List.append_assoc]

/-! ## The steps -/

theorem inv_start : Inv start where
  files := by
    refine ⟨[], [], ⟨List.Forall₂.nil, by decide, List.nodup_nil, ?_, ?_, ?_, ?_⟩, rfl⟩
    · exact fun _ member => absurd member List.not_mem_nil
    · exact fun _ member => absurd member List.not_mem_nil
    · exact fun _ member => absurd member List.not_mem_nil
    · exact fun _ present => absurd rfl present
  current := by
    intro number messages there
    cases there
  lines := fun _ _ member => absurd member List.not_mem_nil
  waiting := by
    intro number messages there
    cases there
  gone := fun number below => absurd below (Nat.not_lt_zero number)
  fresh := fun _ _ => ⟨rfl, rfl⟩
  served := by
    intro number server there
    cases there
  idle := fun _ _ => rfl

theorem Inv.clients (inv : Inv sys) (clients : Nat → Client) :
    Inv { sys with clients := clients } :=
  ⟨inv.files, inv.current, inv.lines, inv.waiting, inv.gone, inv.fresh, inv.served, inv.idle⟩

theorem Inv.makeQueue (inv : Inv sys) (none : sys.queue = none) : Inv sys.makeQueue where
  files := by
    have handled : sys.makeQueue.handled = sys.handled := by
      have last : sys.runs sys.made = [] := runs_of_none (inv.fresh sys.made le_rfl).2
      show (List.range (sys.made + 1)).flatMap sys.runs = _
      rw [List.range_succ, List.flatMap_append, List.flatMap_singleton, last, List.append_nil]
      rfl
    rw [handled]
    exact inv.files
  current := by
    intro number messages there
    cases queue_of_messages there
    rfl
  lines := inv.lines
  waiting := by
    intro number messages there
    cases queue_of_messages there
    obtain ⟨accepted, unserved⟩ := inv.fresh sys.made le_rfl
    refine ⟨[], ⟨[], accepted, ?_⟩, List.Forall₂.nil⟩
    exact received_of_none unserved
  gone := by
    intro number below gone
    have other : number ≠ sys.made := by
      rintro rfl
      have there : sys.makeQueue.messages sys.made = some [] := messages_of_queue rfl
      rw [there] at gone
      cases gone
    have below : number < sys.made + 1 := below
    exact inv.gone number (by omega) (messages_none none number)
  fresh := by
    intro number above
    have above : sys.made + 1 ≤ number := above
    exact inv.fresh number (by omega)
  served := inv.served
  idle := inv.idle

/-- The queue there was, or a new one. -/
theorem create_cases {excl fails : Bool}
    (created : create excl fails sys = some (number, after)) :
    (excl = false ∧ after = sys) ∨
      (sys.queue = none ∧ number = sys.made ∧ after = sys.makeQueue) := by
  unfold create at created
  split at created
  · cases created
  · unfold msgget at created
    split at created
    · split at created
      · cases created
      · rename_i shared
        cases created
        exact Or.inl ⟨by simpa using shared, rfl⟩
    · rename_i none
      cases created
      exact Or.inr ⟨none, rfl, rfl⟩

theorem Inv.clientUp {who : Nat} {fails : Bool} (inv : Inv sys)
    (moved : MsgQueue.clientUp who fails sys = some after) : Inv after := by
  unfold MsgQueue.clientUp at moved
  split at moved
  · split at moved
    · cases moved
      exact inv.clients _
    · rename_i created
      cases moved
      rcases create_cases created with ⟨-, rfl⟩ | ⟨none, -, rfl⟩
      · exact inv.clients _
      · exact (inv.makeQueue none).clients _
  · cases moved

theorem Inv.begun (inv : Inv sys) (below : number < sys.made)
    (unserved : sys.servers number = none) :
    Inv { sys with servers := Function.update sys.servers number (some serverStart) } := by
  have idle := inv.idle number unserved
  let begun : System :=
    { sys with servers := Function.update sys.servers number (some serverStart) }
  have here : begun.servers number = some serverStart := Function.update_self ..
  have elsewhere : ∀ other, other ≠ number → begun.servers other = sys.servers other :=
    fun other apart => Function.update_of_ne apart ..
  have received : begun.received = sys.received := by
    funext other
    by_cases same : other = number
    · rw [same, received_of_none unserved]
      exact received_of_some here
    · rw [System.received, System.received, elsewhere other same]
  have runs : begun.runs = sys.runs := by
    funext other
    by_cases same : other = number
    · rw [same, runs_of_none unserved]
      exact runs_of_some here
    · rw [System.runs, System.runs, elsewhere other same]
  have handled : begun.handled = sys.handled := by
    rw [System.handled, System.handled, runs]
  show Inv begun
  refine ⟨?_, inv.current, inv.lines, ?_, ?_, ?_, ?_, ?_⟩
  · rw [handled]
    exact inv.files
  · rw [received]
    exact inv.waiting
  · rw [received]
    exact inv.gone
  · intro other above
    refine ⟨(inv.fresh other above).1, ?_⟩
    have apart : other ≠ number := Nat.ne_of_gt (Nat.lt_of_lt_of_le below above)
    exact (elsewhere other apart).trans (inv.fresh other above).2
  · intro other server there
    by_cases same : other = number
    · subst same
      rw [← Option.some.inj (here.symm.trans there)]
      show Served serverStart (sys.failed other) ∧ _
      rw [idle]
      exact ⟨served_start, rfl⟩
    · exact inv.served other server ((elsewhere other same).symm.trans there)
  · intro other there
    by_cases same : other = number
    · rw [same]
      exact idle
    · exact inv.idle other ((elsewhere other same).symm.trans there)

theorem Inv.serverUp (inv : Inv sys) (fails : Bool) : Inv (MsgQueue.serverUp fails sys) := by
  unfold MsgQueue.serverUp
  split
  · exact inv
  · rename_i created
    rcases create_cases created with ⟨⟨⟩, -⟩ | ⟨none, rfl, rfl⟩
    exact (inv.makeQueue none).begun (Nat.lt_succ_self _) (inv.fresh sys.made le_rfl).2

theorem Inv.took (inv : Inv sys) (there : sys.messages number = some messages)
    (stored : Stored line msg) (whole : 10 ∉ line) (short : line.length < defaultSize) :
    Inv
      { sys with
        queue := some (number, messages ++ [msg])
        accepted := Function.update sys.accepted number (sys.accepted number ++ [line]) } := by
  have queue := queue_of_messages there
  let took : System :=
    { sys with
      queue := some (number, messages ++ [msg])
      accepted := Function.update sys.accepted number (sys.accepted number ++ [line]) }
  have here : took.accepted number = sys.accepted number ++ [line] := Function.update_self ..
  have elsewhere : ∀ other, other ≠ number → took.accepted other = sys.accepted other :=
    fun other apart => Function.update_of_ne apart ..
  show Inv took
  refine ⟨inv.files, ?_, ?_, ?_, ?_, ?_, inv.served, inv.idle⟩
  · intro other others current
    cases queue_of_messages current
    exact inv.current number messages there
  · intro other line' member
    by_cases same : other = number
    · rw [same, here] at member
      rcases List.mem_append.mp member with before | last
      · exact inv.lines number line' before
      · rw [List.mem_singleton.mp last]
        exact ⟨whole, short⟩
    · rw [elsewhere other same] at member
      exact inv.lines other line' member
  · intro other others current
    cases queue_of_messages current
    obtain ⟨back, ⟨front, accepted, received⟩, all⟩ := inv.waiting number messages there
    refine ⟨back ++ [line], ⟨front, ?_, received⟩, forall₂_concat all stored⟩
    rw [here, accepted, List.append_assoc]
  · intro other below gone
    have apart : other ≠ number := by
      rintro rfl
      have there : took.messages other = some (messages ++ [msg]) := messages_of_queue rfl
      rw [there] at gone
      cases gone
    rw [elsewhere other apart]
    exact inv.gone other below (messages_other queue apart)
  · intro other above
    have current := inv.current number messages there
    have above : sys.made ≤ other := above
    rw [elsewhere other (by omega)]
    exact inv.fresh other above

theorem Inv.sendTo {room : Bool} (inv : Inv sys) (whole : 10 ∉ line)
    (short : line.length < defaultSize)
    (sent : MsgQueue.sendTo number line room sys = .ok after) : Inv after := by
  obtain ⟨msg, copied, mtype, -⟩ := filled_eq msgTypeClient (Nat.le_of_lt short)
  unfold MsgQueue.sendTo at sent
  split at sent
  · rw [send, copied] at sent
    cases sent
    exact inv
  · rename_i messages there
    rw [send, copied] at sent
    cases sent
    cases room with
    | true =>
        have positive : 0 < msg.mtype := by
          rw [mtype]
          decide
        have room : msgsnd true msg messages = messages ++ [msg] := if_pos ⟨rfl, positive⟩
        rw [room]
        exact inv.took there copied whole short
    | false =>
        have same : { sys with queue := some (number, messages) } = sys := by
          rw [← queue_of_messages there]
        have full : msgsnd false msg messages = messages := if_neg (by simp)
        rw [full]
        show Inv { sys with queue := some (number, messages) }
        rw [same]
        exact inv

theorem Inv.input {who : Nat} {room : Bool} (inv : Inv sys) (short : line.length < defaultSize)
    (moved : MsgQueue.input who line room sys = some after) : Inv after := by
  unfold MsgQueue.input at moved
  split at moved
  · split at moved
    · cases moved
    · rename_i whole
      split at moved
      · cases moved
        exact inv.clients _
      · rename_i sent
        have inv := inv.sendTo whole short sent
        split at moved
        · cases moved
          exact inv.clients _
        · cases moved
          exact inv
  · cases moved

/-- A receive that fails leaves the queue; another takes the next line of those accepted. -/
theorem Inv.takes {fails : Bool} {outcome : Option Message} (inv : Inv sys)
    (there : sys.servers number = some server) (current : sys.messages number = some messages)
    (taken : take fails messages = some (outcome, rest)) :
    (∀ message, outcome = some message → message.Terminated) ∧
      10 ∉ heard outcome server.text ∧
      ∃ back, Split (sys.accepted number)
          (server.received ++ (outcome.map Message.text).toList) back ∧
        List.Forall₂ Stored back rest := by
  obtain ⟨back, ⟨front, accepted, received⟩, stored⟩ := inv.waiting number messages current
  rw [received_of_some there] at received
  have short : ∀ line ∈ sys.accepted number, line.length < defaultSize :=
    fun line member => (inv.lines number line member).2
  have whole : ∀ text ∈ (sys.accepted number).map cString, 10 ∉ text := by
    intro text member
    obtain ⟨line, among, rfl⟩ := List.mem_map.mp member
    intro inside
    exact (inv.lines number line among).1 (List.takeWhile_subset _ inside)
  rw [accepted] at short whole
  rcases take_cases stored (fun line member => short line (List.mem_append_right _ member))
      taken with
    ⟨-, rfl, rfl⟩ | ⟨line, back, message, -, rfl, rfl, text, terminated, stored⟩
  · refine ⟨nofun, ?_, back, ⟨front, accepted, ?_⟩, stored⟩
    · show 10 ∉ server.text
      rcases (inv.served number server there).1.last with before | empty
      · refine whole server.text ?_
        rw [List.map_append, ← received]
        exact List.mem_append_left _ before
      · rw [empty]
        exact List.not_mem_nil
    · simpa using received
  · refine ⟨?_, ?_, back, ⟨front ++ [line], ?_, ?_⟩, stored⟩
    · intro other same
      cases same
      exact terminated
    · show 10 ∉ message.text
      refine whole message.text ?_
      rw [text]
      exact List.mem_map_of_mem (List.mem_append_right _ List.mem_cons_self)
    · rw [accepted, List.append_assoc]
      rfl
    · rw [received, List.map_append]
      show _ ++ [message.text] = _ ++ [cString line]
      rw [text]

theorem Inv.round {fails : Bool} {outcome : Option Message} {call : Call} (inv : Inv sys)
    (there : sys.servers number = some server) (current : sys.messages number = some messages)
    (taken : take fails messages = some (outcome, rest))
    (fair : Fair sys (.receive number fails call))
    (moved : serve (onDisk sys.disk server) ⟨outcome, call⟩ = some next) :
    next.world.ended = none ∧ ∃ texts, next.runs = server.runs ++ texts ∧
      ∃ archives recent, Rotated next.world.files archives recent ∧
        allMessages archives recent = sys.handled ++ texts := by
  obtain ⟨opens, reads, now, pid, unpacked⟩ := fair
  obtain ⟨terminated, oneLine, -⟩ := inv.takes there current taken
  obtain ⟨archives, recent, rotated, all⟩ := inv.files
  have running := (inv.served number server there).2
  rcases serve_handed moved terminated with ⟨runs, world⟩ | ⟨runs, stepped⟩
  · refine ⟨?_, [], runs.trans (List.append_nil _).symm, archives, recent, ?_, ?_⟩
    · rw [world]
      exact running
    · rw [world]
      exact rotated
    · rw [all, List.append_nil]
  · have plain : Plain { call with text := heard outcome server.text }
        (heard outcome server.text) := ⟨now, pid, oneLine⟩
    have rotated : Rotated (onDisk sys.disk server).world.files archives recent := rotated
    obtain ⟨goesOn, archives', recent', rotated, more⟩ :=
      rotated.step plain opens reads unpacked stepped
    refine ⟨goesOn, _, runs, archives', recent', rotated, ?_⟩
    rw [more, all]
    rfl

theorem Inv.round_served {fails : Bool} {outcome : Option Message} {call : Call}
    (inv : Inv sys) (there : sys.servers number = some server)
    (current : sys.messages number = some messages)
    (taken : take fails messages = some (outcome, rest))
    (moved : serve (onDisk sys.disk server) ⟨outcome, call⟩ = some next) :
    Served next (sys.failed number + if fails then 1 else 0) ∧
      next.received = server.received ++ (outcome.map Message.text).toList := by
  obtain ⟨terminated, -, -⟩ := inv.takes there current taken
  have served := (inv.served number server there).1.onDisk sys.disk
  unfold take at taken
  split at taken
  · rename_i failed
    cases taken
    obtain ⟨-, -, same⟩ := serve_heard moved terminated
    rw [if_pos failed]
    refine ⟨served.failing moved, ?_⟩
    rw [same, handle_received]
    rfl
  · rename_i works
    obtain ⟨msg, -, same⟩ := Option.map_eq_some_iff.mp taken
    cases same
    rw [if_neg works]
    exact served.hearing (terminated _ rfl) moved

theorem Inv.receive {fails : Bool} {call : Call} (inv : Inv sys)
    (fair : Fair sys (.receive number fails call))
    (moved : MsgQueue.receive number fails call sys = some after) : Inv after := by
  simp only [MsgQueue.receive, Option.bind_eq_bind, Option.bind_eq_some_iff] at moved
  obtain ⟨server, there, messages, current, ⟨outcome, rest⟩, taken, next, round, same⟩ := moved
  have made := inv.current number messages current
  have queue := queue_of_messages current
  obtain ⟨-, -, back, split, stored⟩ := inv.takes there current taken
  obtain ⟨goesOn, texts, runs, filed⟩ := inv.round there current taken fair round
  obtain ⟨served, received⟩ := inv.round_served there current taken round
  obtain rfl := Option.some.inj same
  let after : System :=
    { sys with
      queue := some (number, rest)
      servers := Function.update sys.servers number (some next)
      disk := next.world
      failed := if fails then Function.update sys.failed number (sys.failed number + 1)
        else sys.failed }
  have here : after.servers number = some next := Function.update_self ..
  have elsewhere : ∀ other, other ≠ number → after.servers other = sys.servers other :=
    fun other apart => Function.update_of_ne apart ..
  have failedHere : after.failed number = sys.failed number + if fails then 1 else 0 := by
    cases fails with
    | true => exact Function.update_self ..
    | false => rfl
  have failedElsewhere : ∀ other, other ≠ number → after.failed other = sys.failed other := by
    intro other apart
    cases fails with
    | true => exact Function.update_of_ne apart ..
    | false => rfl
  have receivedElsewhere : ∀ other, other ≠ number →
      after.received other = sys.received other := by
    intro other apart
    rw [System.received, System.received, elsewhere other apart]
  have handled : after.handled = sys.handled ++ texts := by
    refine handled_concat made rfl ?_ ?_
    · intro other apart
      rw [System.runs, System.runs, elsewhere other apart]
    · rw [runs_of_some here, runs_of_some there, runs]
  show Inv after
  refine ⟨?_, ?_, inv.lines, ?_, ?_, ?_, ?_, ?_⟩
  · rw [handled]
    exact filed
  · intro other others current
    cases queue_of_messages current
    exact made
  · intro other others current
    cases queue_of_messages current
    refine ⟨back, ?_, stored⟩
    rw [received_of_some here, received]
    exact split
  · intro other below gone
    have apart : other ≠ number := by
      rintro rfl
      have there : after.messages other = some rest := messages_of_queue rfl
      rw [there] at gone
      cases gone
    rw [receivedElsewhere other apart]
    exact inv.gone other below (messages_other queue apart)
  · intro other above
    have above : sys.made ≤ other := above
    rw [elsewhere other (by omega)]
    exact inv.fresh other above
  · intro other given same
    by_cases apart : other = number
    · subst apart
      obtain rfl := Option.some.inj (here.symm.trans same)
      rw [failedHere]
      exact ⟨served, goesOn⟩
    · rw [failedElsewhere other apart]
      exact inv.served other given ((elsewhere other apart).symm.trans same)
  · intro other none
    have apart : other ≠ number := by
      rintro rfl
      rw [here] at none
      cases none
    rw [failedElsewhere other apart]
    exact inv.idle other ((elsewhere other apart).symm.trans none)

/-- A server leaves its loop behind an `exit` only. -/
theorem Inv.destroy (inv : Inv sys) (moved : MsgQueue.destroy number sys = some after) :
    Inv after := by
  simp only [MsgQueue.destroy, Option.bind_eq_bind, Option.bind_eq_some_iff] at moved
  obtain ⟨server, there, messages, current, moved⟩ := moved
  split at moved
  · rename_i broken
    cases moved
    refine ⟨inv.files, ?_, inv.lines, ?_, ?_, inv.fresh, inv.served, inv.idle⟩
    · intro other others current
      cases current
    · intro other others current
      cases current
    · intro other below gone
      by_cases same : other = number
      · subst same
        obtain ⟨back, split, -⟩ := inv.waiting other messages current
        refine ⟨⟨back, split⟩, ?_⟩
        have exits := (inv.served other server there).1.ended broken
        rw [← received_of_some there] at exits
        exact exits
      · exact inv.gone other below (messages_other (queue_of_messages current) same)
  · cases moved

theorem Inv.step {event : Event} (inv : Inv sys) (fair : Fair sys event)
    (moved : MsgQueue.step sys event = some after) : Inv after := by
  cases event with
  | clientUp who fails => exact inv.clientUp moved
  | input who line room => exact inv.input fair moved
  | serverUp fails =>
      cases moved
      exact inv.serverUp fails
  | receive number fails call => exact inv.receive fair moved
  | destroy number => exact inv.destroy moved

/-! ## The lines and the files -/

def twoClients : List Event :=
  [.serverUp false, .clientUp 0 false, .clientUp 1 false, .input 0 (ascii "a") true,
    .input 1 (ascii "b") true, .receive 0 false runA, .receive 0 true runA,
    .receive 0 false runA, .input 1 exitText true, .input 0 (ascii "c") true,
    .receive 0 false runA, .destroy 0, .clientUp 2 false]

end LinuxSystemLearning.MsgQueue
