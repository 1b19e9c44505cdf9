import LinuxSystemLearning.Commands.Command
import LinuxSystemLearning.Library.FdTable
import LinuxSystemLearning.Library.Interleaving

/-!
# One thread for each connection

`Run` makes a detached thread for each connection it accepts, and the threads run `Service`
side by side in one process.  They share its descriptors, in which a number comes back as soon
as it is free: the sockets of clients that come and go, and the pipes from the commands that
run.
-/

set_option autoImplicit false

namespace LinuxSystemLearning.CommandServer

open LinuxSystemLearning.Cxx
open LinuxSystemLearning.Chat (InetAddr SockAddrIn)
open LinuxSystemLearning.FdTable LinuxSystemLearning.Interleaving

/-! ## The code -/

/-- What a descriptor stands for: a connection, or the pipe from the command of a thread. -/
inductive Desc where
  | file
  | connection (i : Nat)
  | pipe (i : Nat)
  deriving DecidableEq

/-- What the kernel knows of a connection: what `read` returned and what each `write` took. -/
structure Socket where
  peer : SockAddrIn
  received : List Bytes
  sent : List Bytes

inductive Phase where
  | reading
  | excuting (cmd : Bytes)
  /-- In the loop of `fgets`. -/
  | running (cmd : Bytes) (fp : Nat)
  | writing (echoString : Bytes)
  | closing
  | ended
  /-- `pthread_create` has failed, which `Run` does not look at. -/
  | unborn
  deriving DecidableEq

/-- A `ThreadData`, and where its thread stands. -/
structure Service where
  sockfd : Nat
  addr : InetAddr
  phase : Phase

/-- The thread `i` is that of the `i`-th connection; `shell` are the commands given to
`popen`, each with its thread. -/
structure State where
  services : List Service
  sockets : List Socket
  table : Table Desc
  shell : List (Nat × Bytes)
  alive : Bool

inductive Received where
  | data (bytes : Bytes)
  | endOfFile
  | error

inductive Event where
  /-- `accept` returns a descriptor that is not in use. -/
  | accept (sockfd : Nat) (peer : SockAddrIn) (created : Bool)
  | acceptError
  | read (i : Nat) (answer : Received)
  /-- Up to the answer of `popen`, which may be `NULL`. -/
  | popen (i : Nat) (fp : Option Nat)
  /-- The command has printed this. -/
  | pclose (i : Nat) (output : Bytes)
  /-- `write` takes so many bytes, and an error is not looked at. -/
  | write (i : Nat) (count : Nat)
  /-- `write` on a connection that the client has given up. -/
  | sigpipe (i : Nat)
  | close (i : Nat)

def bufferSize : Nat := 1024

def moved (i : Nat) (service : Service) (phase : Phase) (st : State) : State :=
  { st with services := st.services.set i { service with phase := phase } }

/-- `read` and `write` are on what the descriptor stands for. -/
def socketOf (service : Service) (st : State) : Option (Nat × Socket) :=
  match st.table.lookup service.sockfd with
  | some (.connection c) => (st.sockets[c]?).map fun socket => (c, socket)
  | _ => none

def accepted (sockfd : Nat) (peer : SockAddrIn) (created : Bool) (st : State) : State := { st with
  services := st.services ++
    [⟨sockfd, .ofSockAddr peer, if created then .reading else .unborn⟩]
  sockets := st.sockets ++ [⟨peer, [], []⟩]
  table := (sockfd, .connection st.services.length) :: st.table }

def read (i : Nat) (service : Service) (answer : Received) (st : State) : Option State :=
  match answer with
  | .data bytes =>
      match socketOf service st with
      | some (c, socket) =>
          if bytes ≠ [] ∧ bytes.length ≤ bufferSize - 1 then
            some (moved i service (.excuting (cString bytes)) { st with
              sockets := st.sockets.set c { socket with received := socket.received ++ [bytes] } })
          else none
      | none => none
  | .endOfFile => some (moved i service .closing st)
  | .error => some (moved i service .closing st)

/-- `Excute` up to the loop. -/
def excute (i : Nat) (service : Service) (cmd : Bytes) (fp : Option Nat) (st : State) :
    Option State :=
  if !isSafeCoammd cmd then some (moved i service (.writing refusal) st)
  else
    match fp with
    | none => some (moved i service (.writing (notThere cmd)) st)
    | some fp =>
        if fp ∈ st.table.fds then none
        else some (moved i service (.running cmd fp) { st with
          table := (fp, .pipe i) :: st.table
          shell := st.shell ++ [(i, cmd)] })

def write (i : Nat) (service : Service) (echoString : Bytes) (count : Nat) (st : State) :
    Option State :=
  match socketOf service st with
  | some (c, socket) => some (moved i service .reading { st with
      sockets := st.sockets.set c { socket with sent := socket.sent ++ [echoString.take count] } })
  | none => none

def act (st : State) : Event → Option State
  | .accept sockfd peer created =>
      if sockfd ∈ st.table.fds then none else some (accepted sockfd peer created st)
  | .acceptError => some st
  | .read i answer =>
      match st.services[i]? with
      | some ⟨sockfd, addr, .reading⟩ => read i ⟨sockfd, addr, .reading⟩ answer st
      | _ => none
  | .popen i fp =>
      match st.services[i]? with
      | some ⟨sockfd, addr, .excuting cmd⟩ => excute i ⟨sockfd, addr, .excuting cmd⟩ cmd fp st
      | _ => none
  | .pclose i output =>
      match st.services[i]? with
      | some ⟨sockfd, addr, .running cmd fp⟩ =>
          some (moved i ⟨sockfd, addr, .running cmd fp⟩ (.writing (result addr output))
            { st with table := st.table.close fp })
      | _ => none
  | .write i count =>
      match st.services[i]? with
      | some ⟨sockfd, addr, .writing echoString⟩ =>
          write i ⟨sockfd, addr, .writing echoString⟩ echoString count st
      | _ => none
  | .sigpipe i =>
      match st.services[i]? with
      | some ⟨_, _, .writing _⟩ => some { st with alive := false }
      | _ => none
  | .close i =>
      match st.services[i]? with
      | some ⟨sockfd, addr, .closing⟩ =>
          some (moved i ⟨sockfd, addr, .closing⟩ .ended
            { st with table := st.table.close sockfd })
      | _ => none

/-- Nothing happens any more in a process that was killed. -/
def step (st : State) (event : Event) : Option State :=
  if st.alive then act st event else none

def openedFiles : Table Desc := [(3, .file), (2, .file), (1, .file), (0, .file)]

def start : State := ⟨[], [], openedFiles, [], true⟩

/-! ## What ought to hold -/

def owned (i : Nat) (service : Service) : Table Desc :=
  match service.phase with
  | .running _ fp => [(fp, .pipe i), (service.sockfd, .connection i)]
  | .ended => []
  | _ => [(service.sockfd, .connection i)]

def held : Nat → List Service → Table Desc
  | _, [] => []
  | i, service :: services => owned i service ++ held (i + 1) services

/-- A `write` took the first part of what `Excute` can answer the piece with. -/
def Answered (peer : SockAddrIn) (piece taken : Bytes) : Prop :=
  ∃ reply, Answer (.ofSockAddr peer) (cString piece) reply ∧ taken <+: reply

/-- What clients can have run, what they get, and what the threads do to each other. -/
structure Contained (st : State) : Prop where
  whiteListed : ∀ i cmd, (i, cmd) ∈ st.shell → cmd ∈ whiteListCommands ∧
    ∃ socket, st.sockets[i]? = some socket ∧ cmd ∈ socket.received.map cString
  answered : ∀ (i : Nat) (socket : Socket), st.sockets[i]? = some socket →
    ∃ front last, socket.received = front ++ last ∧ last.length ≤ 1 ∧
      List.Forall₂ (Answered socket.peer) front socket.sent
  own : ∀ i service, st.services[i]? = some service → service.phase ≠ .ended →
    ∃ socket, st.sockets[i]? = some socket ∧ socketOf service st = some (i, socket)
  descriptors : st.table.Perm (held 0 st.services ++ openedFiles)

/-! ## What a step does -/

inductive Stepped (st : State) : State → Prop
  | accepted (sockfd : Nat) (peer : SockAddrIn) (created : Bool)
      (free : sockfd ∉ st.table.fds) : Stepped st (accepted sockfd peer created st)
  | stays : Stepped st st
  | received (i c : Nat) (service : Service) (socket : Socket) (bytes : Bytes)
      (here : st.services[i]? = some service) (phase : service.phase = .reading)
      (there : socketOf service st = some (c, socket)) :
      Stepped st (moved i service (.excuting (cString bytes)) { st with
        sockets := st.sockets.set c { socket with received := socket.received ++ [bytes] } })
  | ends (i : Nat) (service : Service) (here : st.services[i]? = some service)
      (phase : service.phase = .reading) : Stepped st (moved i service .closing st)
  | answers (i : Nat) (service : Service) (cmd reply : Bytes)
      (here : st.services[i]? = some service) (phase : service.phase = .excuting cmd)
      (answer : Answer service.addr cmd reply) : Stepped st (moved i service (.writing reply) st)
  | opens (i : Nat) (service : Service) (cmd : Bytes) (fp : Nat)
      (here : st.services[i]? = some service) (phase : service.phase = .excuting cmd)
      (safe : isSafeCoammd cmd = true) (free : fp ∉ st.table.fds) :
      Stepped st (moved i service (.running cmd fp) { st with
        table := (fp, .pipe i) :: st.table
        shell := st.shell ++ [(i, cmd)] })
  | finishes (i : Nat) (service : Service) (cmd : Bytes) (fp : Nat) (output : Bytes)
      (here : st.services[i]? = some service) (phase : service.phase = .running cmd fp) :
      Stepped st (moved i service (.writing (result service.addr output))
        { st with table := st.table.close fp })
  | wrote (i c : Nat) (service : Service) (socket : Socket) (reply : Bytes) (count : Nat)
      (here : st.services[i]? = some service) (phase : service.phase = .writing reply)
      (there : socketOf service st = some (c, socket)) :
      Stepped st (moved i service .reading { st with
        sockets := st.sockets.set c { socket with sent := socket.sent ++ [reply.take count] } })
  | killed : Stepped st { st with alive := false }
  | closed (i : Nat) (service : Service) (here : st.services[i]? = some service)
      (phase : service.phase = .closing) :
      Stepped st (moved i service .ended { st with table := st.table.close service.sockfd })

variable {st after : State}

theorem stepped_of_read {i : Nat} {service : Service} {answer : Received}
    (here : st.services[i]? = some service) (phase : service.phase = .reading)
    (ran : CommandServer.read i service answer st = some after) : Stepped st after := by
  cases answer with
  | data bytes =>
      rw [read] at ran
      split at ran
      · rename_i c socket there
        split at ran
        · cases ran
          exact .received i c service socket bytes here phase there
        · cases ran
      · cases ran
  | endOfFile =>
      cases ran
      exact .ends i service here phase
  | error =>
      cases ran
      exact .ends i service here phase

theorem stepped_of_excute {i : Nat} {service : Service} {cmd : Bytes} {fp : Option Nat}
    (here : st.services[i]? = some service) (phase : service.phase = .excuting cmd)
    (ran : excute i service cmd fp st = some after) : Stepped st after := by
  unfold excute at ran
  cases safe : isSafeCoammd cmd with
  | false =>
      rw [safe] at ran
      cases ran
      exact .answers i service cmd _ here phase (.refused safe)
  | true =>
      rw [safe] at ran
      cases fp with
      | none =>
          cases ran
          exact .answers i service cmd _ here phase (.absent safe)
      | some fp =>
          simp only [Bool.not_true, Bool.false_eq_true, if_false] at ran
          split at ran
          · cases ran
          · rename_i free
            cases ran
            exact .opens i service cmd fp here phase safe free

theorem stepped_of_act {event : Event} (ran : act st event = some after) : Stepped st after := by
  cases event with
  | accept sockfd peer created =>
      rw [act] at ran
      split at ran
      · cases ran
      · rename_i free
        cases ran
        exact .accepted sockfd peer created free
  | acceptError =>
      cases ran
      exact .stays
  | read i answer =>
      rw [act] at ran
      split at ran
      · rename_i here
        exact stepped_of_read here rfl ran
      · cases ran
  | popen i fp =>
      rw [act] at ran
      split at ran
      · rename_i here
        exact stepped_of_excute here rfl ran
      · cases ran
  | pclose i output =>
      rw [act] at ran
      split at ran
      · rename_i here
        cases ran
        exact .finishes i _ _ _ output here rfl
      · cases ran
  | write i count =>
      rw [act] at ran
      split at ran
      · rename_i here
        unfold write at ran
        split at ran
        · rename_i there
          cases ran
          exact .wrote i _ _ _ _ count here rfl there
        · cases ran
      · cases ran
  | sigpipe i =>
      rw [act] at ran
      split at ran
      · cases ran
        exact .killed
      · cases ran
  | close i =>
      rw [act] at ran
      split at ran
      · rename_i here
        cases ran
        exact .closed i _ here rfl
      · cases ran

theorem stepped_of_step {event : Event} (stepped : step st event = some after) :
    Stepped st after := by
  unfold step at stepped
  split at stepped
  · exact stepped_of_act stepped
  · cases stepped

/-! ## The descriptors of the threads -/

theorem held_append (i : Nat) (services more : List Service) :
    held i (services ++ more) = held i services ++ held (i + services.length) more := by
  induction services generalizing i with
  | nil => rfl
  | cons service services ih =>
      rw [List.cons_append, held, held, ih, List.length_cons, List.append_assoc]
      have shift : i + 1 + services.length = i + (services.length + 1) := by omega
      rw [shift]

/-- What a thread gives up and takes on. -/
theorem held_set {services : List Service} {j : Nat} {old : Service} (i : Nat)
    (here : services[j]? = some old) (new : Service) :
    (held i (services.set j new) ++ owned (i + j) old).Perm
      (held i services ++ owned (i + j) new) := by
  induction services generalizing i j with
  | nil => cases here
  | cons service services ih =>
      cases j with
      | zero =>
          cases here
          show (owned i new ++ held (i + 1) services ++ owned i old).Perm
            (owned i old ++ held (i + 1) services ++ owned i new)
          rw [List.append_assoc (owned i old)]
          exact List.perm_append_comm.trans (List.perm_append_comm.append_left _)
      | succ j =>
          have shift : i + 1 + j = i + (j + 1) := by omega
          have tail := ih (i + 1) here
          rw [shift] at tail
          rw [List.set_cons_succ, held, held, List.append_assoc, List.append_assoc]
          exact tail.append_left _

theorem append_swap (front one two : Table Desc) :
    (front ++ one ++ two).Perm (front ++ two ++ one) := by
  rw [List.append_assoc, List.append_assoc]
  exact List.perm_append_comm.append_left front

theorem exists_held {services : List Service} {j : Nat} {service : Service} (i : Nat)
    (here : services[j]? = some service) :
    ∃ rest, (held i services).Perm (owned (i + j) service ++ rest) := by
  induction services generalizing i j with
  | nil => cases here
  | cons first services ih =>
      cases j with
      | zero =>
          cases here
          exact ⟨_, List.Perm.refl _⟩
      | succ j =>
          have shift : i + 1 + j = i + (j + 1) := by omega
          obtain ⟨rest, split⟩ := ih (i + 1) here
          rw [shift] at split
          exact ⟨owned i first ++ rest, (split.append_left _).trans (by
            rw [← List.append_assoc, ← List.append_assoc]
            exact List.perm_append_comm.append_right _)⟩

theorem mem_owned {i : Nat} {service : Service} (running : service.phase ≠ .ended) :
    (service.sockfd, Desc.connection i) ∈ owned i service := by
  unfold owned
  split
  · exact List.mem_cons_of_mem _ (List.mem_singleton.mpr rfl)
  · rename_i ended
    exact absurd ended running
  · exact List.mem_singleton.mpr rfl

/-! ## Every run -/

/-- What a thread has in hand of what was received. -/
inductive Serves (addr : InetAddr) : Phase → List Bytes → Prop
  | reading : Serves addr .reading []
  | excuting (piece : Bytes) : Serves addr (.excuting (cString piece)) [piece]
  | running (piece : Bytes) (fp : Nat) (safe : isSafeCoammd (cString piece) = true) :
      Serves addr (.running (cString piece) fp) [piece]
  | writing (piece reply : Bytes) (answer : Answer addr (cString piece) reply) :
      Serves addr (.writing reply) [piece]
  | closing : Serves addr .closing []
  | ended : Serves addr .ended []
  | unborn : Serves addr .unborn []

theorem Serves.length_le {addr : InetAddr} {phase : Phase} {last : List Bytes}
    (serves : Serves addr phase last) : last.length ≤ 1 := by
  cases serves with
  | reading => exact Nat.zero_le 1
  | closing => exact Nat.zero_le 1
  | ended => exact Nat.zero_le 1
  | unborn => exact Nat.zero_le 1
  | _ => exact Nat.le_refl 1

structure Follows (service : Service) (socket : Socket) : Prop where
  addr : service.addr = .ofSockAddr socket.peer
  talk : ∃ front last, socket.received = front ++ last ∧
    List.Forall₂ (Answered socket.peer) front socket.sent ∧
    Serves service.addr service.phase last

structure Inv (st : State) : Prop where
  distinct : st.table.fds.Nodup
  descriptors : st.table.Perm (held 0 st.services ++ openedFiles)
  paired : st.sockets.length = st.services.length
  follows : ∀ (i : Nat) (service : Service) (socket : Socket), st.services[i]? = some service →
    st.sockets[i]? = some socket → Follows service socket
  whiteListed : ∀ i cmd, (i, cmd) ∈ st.shell → cmd ∈ whiteListCommands ∧
    ∃ socket, st.sockets[i]? = some socket ∧ cmd ∈ socket.received.map cString

theorem inv_start : Inv start where
  distinct := by decide
  descriptors := List.Perm.refl _
  paired := rfl
  follows := nofun
  whiteListed := nofun

variable {i c : Nat} {service : Service} {socket : Socket}

theorem Inv.exists_socket (inv : Inv st) (here : st.services[i]? = some service) :
    ∃ socket, st.sockets[i]? = some socket := by
  have below : i < st.sockets.length := inv.paired ▸ (List.getElem?_eq_some_iff.mp here).1
  exact ⟨_, List.getElem?_eq_getElem below⟩

/-- The descriptor of a thread stands for its own connection. -/
theorem Inv.socketOf_eq (inv : Inv st) (here : st.services[i]? = some service)
    (running : service.phase ≠ .ended) (there : st.sockets[i]? = some socket) :
    socketOf service st = some (i, socket) := by
  obtain ⟨rest, split⟩ := exists_held 0 here
  rw [Nat.zero_add] at split
  have member : (service.sockfd, Desc.connection i) ∈ st.table :=
    inv.descriptors.mem_iff.mpr (List.mem_append_left _
      (split.mem_iff.mpr (List.mem_append_left _ (mem_owned running))))
  have found := Table.lookup_of_mem (Table.functional_of_nodup inv.distinct) member
  rw [socketOf, found]
  simp only [there, Option.map_some]

theorem Inv.own (inv : Inv st) (here : st.services[i]? = some service)
    (running : service.phase ≠ .ended) (there : socketOf service st = some (c, socket)) :
    c = i ∧ st.sockets[i]? = some socket := by
  obtain ⟨socket', there'⟩ := inv.exists_socket here
  rw [inv.socketOf_eq here running there'] at there
  cases there
  exact ⟨rfl, there'⟩

/-- A step of one thread: its descriptors and its connection may change, and it may have
given a command to `popen`. -/
theorem Inv.update (inv : Inv st) (here : st.services[i]? = some service)
    (there : st.sockets[i]? = some socket) {phase : Phase} {socket' : Socket}
    {table : Table Desc} {shell : List (Nat × Bytes)} (distinct : table.fds.Nodup)
    (descriptors : (table ++ owned i service).Perm
      (st.table ++ owned i { service with phase := phase }))
    (follows : Follows { service with phase := phase } socket')
    (longer : socket.received <+: socket'.received)
    (whiteListed : ∀ j cmd, (j, cmd) ∈ shell → (j, cmd) ∈ st.shell ∨
      (j = i ∧ cmd ∈ whiteListCommands ∧ cmd ∈ socket.received.map cString)) :
    Inv (moved i service phase { st with
      sockets := st.sockets.set i socket', table := table, shell := shell }) := by
  have below := (List.getElem?_eq_some_iff.mp there).1
  refine ⟨distinct, ?_, ?_, ?_, ?_⟩
  · have swapped := held_set 0 here { service with phase := phase }
    rw [Nat.zero_add] at swapped
    have whole : (table ++ owned i service).Perm
        ((held 0 (st.services.set i { service with phase := phase }) ++ openedFiles) ++
          owned i service) := by
      refine (descriptors.trans (inv.descriptors.append_right _)).trans ?_
      refine (append_swap _ _ _).trans ?_
      exact (swapped.symm.append_right _).trans (append_swap _ _ _)
    exact (List.perm_append_right_iff _).mp whole
  · show (st.sockets.set i socket').length = (st.services.set i _).length
    rw [List.length_set, List.length_set]
    exact inv.paired
  · intro j service' socket'' found found'
    by_cases same : j = i
    · subst same
      rw [moved, List.getElem?_set_self (List.getElem?_eq_some_iff.mp here).1] at found
      rw [moved, List.getElem?_set_self below] at found'
      cases found
      cases found'
      exact follows
    · have other : i ≠ j := fun is_same => same is_same.symm
      rw [moved, List.getElem?_set_ne other] at found
      rw [moved, List.getElem?_set_ne other] at found'
      exact inv.follows j service' socket'' found found'
  · intro j cmd member
    show cmd ∈ whiteListCommands ∧ ∃ socket, (st.sockets.set i socket')[j]? = some socket ∧ _
    by_cases same : j = i
    · subst same
      rw [List.getElem?_set_self below]
      have known : cmd ∈ whiteListCommands ∧ cmd ∈ socket.received.map cString := by
        rcases whiteListed j cmd member with before | ⟨-, listed, came⟩
        · obtain ⟨listed, before, found, came⟩ := inv.whiteListed j cmd before
          cases there.symm.trans found
          exact ⟨listed, came⟩
        · exact ⟨listed, came⟩
      exact ⟨known.1, socket', rfl, (longer.map cString).subset known.2⟩
    · rw [List.getElem?_set_ne fun is_same => same is_same.symm]
      rcases whiteListed j cmd member with before | ⟨isSame, -⟩
      · exact inv.whiteListed j cmd before
      · exact absurd isSame same

theorem set_found {α : Type} {items : List α} {j : Nat} {item : α} (here : items[j]? = some item) :
    items.set j item = items := by
  obtain ⟨below, same⟩ := List.getElem?_eq_some_iff.mp here
  rw [← same]
  exact List.set_getElem_self below

theorem Inv.accepted (inv : Inv st) {sockfd : Nat} {peer : SockAddrIn} {created : Bool}
    (free : sockfd ∉ st.table.fds) : Inv (accepted sockfd peer created st) := by
  have fresh : st.services.length = st.sockets.length := inv.paired.symm
  have plain : owned st.services.length
      ⟨sockfd, .ofSockAddr peer, if created then .reading else .unborn⟩ =
        [(sockfd, Desc.connection st.services.length)] := by
    cases created with
    | true => rfl
    | false => rfl
  refine ⟨List.nodup_cons.mpr ⟨free, inv.distinct⟩, ?_, ?_, ?_, ?_⟩
  · show ((sockfd, Desc.connection st.services.length) :: st.table).Perm
      (held 0 (st.services ++ [_]) ++ openedFiles)
    rw [held_append, Nat.zero_add, held, held, plain, List.append_nil, List.append_assoc]
    exact (inv.descriptors.cons _).trans List.perm_middle.symm
  · show (st.sockets ++ [_]).length = (st.services ++ [_]).length
    rw [List.length_append, List.length_append, inv.paired]
    rfl
  · intro j service socket found found'
    rw [CommandServer.accepted, List.getElem?_append] at found found'
    rw [fresh] at found
    split at found
    · rename_i below
      rw [if_pos below] at found'
      exact inv.follows j service socket found found'
    · rename_i beyond
      rw [if_neg beyond] at found'
      rw [List.getElem?_singleton] at found found'
      split at found
      · rename_i first
        rw [if_pos first] at found'
        cases found
        cases found'
        refine ⟨rfl, [], [], rfl, List.Forall₂.nil, ?_⟩
        cases created with
        | true => exact .reading
        | false => exact .unborn
      · cases found
  · intro j cmd member
    obtain ⟨listed, socket, there, came⟩ := inv.whiteListed j cmd member
    refine ⟨listed, socket, ?_, came⟩
    exact (List.getElem?_append_left (List.getElem?_eq_some_iff.mp there).1).trans there

theorem Inv.follows_at (inv : Inv st) (here : st.services[i]? = some service)
    (there : st.sockets[i]? = some socket) {phase : Phase} (stands : service.phase = phase) :
    service.addr = .ofSockAddr socket.peer ∧ ∃ front last, socket.received = front ++ last ∧
      List.Forall₂ (Answered socket.peer) front socket.sent ∧ Serves service.addr phase last :=
  stands ▸ ⟨(inv.follows i service socket here there).addr,
    (inv.follows i service socket here there).talk⟩

theorem Inv.onward (inv : Inv st) (here : st.services[i]? = some service) {phase : Phase}
    (same : owned i { service with phase := phase } = owned i service)
    (serves : ∀ last, Serves service.addr service.phase last → Serves service.addr phase last) :
    Inv (moved i service phase st) := by
  obtain ⟨socket, there⟩ := inv.exists_socket here
  obtain ⟨addr, front, last, received, answered, served⟩ := inv.follows_at here there rfl
  have follows : Follows { service with phase := phase } socket :=
    ⟨addr, front, last, received, answered, serves last served⟩
  have updated : Inv (moved i service phase { st with sockets := st.sockets.set i socket }) :=
    inv.update here there inv.distinct (same ▸ List.Perm.refl _) follows (List.prefix_refl _)
      fun j cmd member => .inl member
  rw [set_found there] at updated
  exact updated

theorem Inv.closes (inv : Inv st) (here : st.services[i]? = some service) {fd : Nat} {desc : Desc}
    {kept : Table Desc} (split : owned i service = (fd, desc) :: kept) :
    (st.table.close fd).fds.Nodup ∧
      (st.table.close fd ++ owned i service).Perm (st.table ++ kept) := by
  obtain ⟨rest, among⟩ := exists_held 0 here
  rw [Nat.zero_add, split] at among
  have whole : st.table.Perm ((fd, desc) :: (kept ++ (rest ++ openedFiles))) := by
    refine (inv.descriptors.trans (among.append_right _)).trans ?_
    rw [List.append_assoc]
    exact List.Perm.refl _
  refine ⟨inv.distinct.sublist (List.filter_sublist.map Prod.fst), ?_⟩
  rw [split]
  have closed := Table.close_perm inv.distinct whole
  refine List.perm_middle.trans ?_
  exact (closed.cons (fd, desc) |>.trans whole.symm).append_right kept

theorem Inv.stepped (inv : Inv st) (stepped : Stepped st after) : Inv after := by
  cases stepped with
  | accepted sockfd peer created free => exact inv.accepted free
  | stays => exact inv
  | received i c service socket bytes here phase there =>
      obtain ⟨rfl, there⟩ := inv.own here (by rw [phase]; nofun) there
      obtain ⟨addr, front, last, received, answered, served⟩ := inv.follows_at here there phase
      cases served
      rw [List.append_nil] at received
      have follows : Follows { service with phase := .excuting (cString bytes) }
          { socket with received := socket.received ++ [bytes] } :=
        ⟨addr, front, [bytes], congrArg (· ++ [bytes]) received, answered, .excuting bytes⟩
      have same : owned c { service with phase := .excuting (cString bytes) } =
          owned c service := by
        obtain ⟨sockfd, addr, phase'⟩ := service
        cases phase
        rfl
      exact inv.update here there inv.distinct (same ▸ List.Perm.refl _) follows
        (List.prefix_append _ _) fun j cmd member => .inl member
  | ends i service here phase =>
      obtain ⟨sockfd, addr, phase'⟩ := service
      cases phase
      refine inv.onward here rfl ?_
      intro last served
      cases served
      exact .closing
  | answers i service cmd reply here phase answer =>
      obtain ⟨sockfd, addr, phase'⟩ := service
      cases phase
      refine inv.onward here rfl ?_
      intro last served
      cases served with
      | excuting piece => exact .writing piece reply answer
  | opens i service cmd fp here phase safe free =>
      obtain ⟨sockfd, addr, phase'⟩ := service
      cases phase
      obtain ⟨socket, there⟩ := inv.exists_socket here
      obtain ⟨isPeer, front, last, received, answered, served⟩ := inv.follows_at here there rfl
      cases served with
      | excuting piece =>
          have follows : Follows ⟨sockfd, addr, .running (cString piece) fp⟩ socket :=
            ⟨isPeer, front, [piece], received, answered, .running piece fp safe⟩
          have came : cString piece ∈ socket.received.map cString := by
            rw [received]
            exact List.mem_map_of_mem (List.mem_append_right _ (List.mem_singleton.mpr rfl))
          have updated : Inv (moved i ⟨sockfd, addr, .excuting (cString piece)⟩
              (.running (cString piece) fp) { st with
                sockets := st.sockets.set i socket
                table := (fp, .pipe i) :: st.table
                shell := st.shell ++ [(i, cString piece)] }) := by
            refine inv.update here there (List.nodup_cons.mpr ⟨free, inv.distinct⟩)
              List.perm_middle.symm follows (List.prefix_refl _) ?_
            intro j cmd member
            rcases List.mem_append.mp member with before | isNew
            · exact .inl before
            · cases List.mem_singleton.mp isNew
              exact .inr ⟨rfl, isSafeCoammd_iff.mp safe, came⟩
          rw [set_found there] at updated
          exact updated
  | finishes i service cmd fp output here phase =>
      obtain ⟨sockfd, addr, phase'⟩ := service
      cases phase
      obtain ⟨socket, there⟩ := inv.exists_socket here
      obtain ⟨isPeer, front, last, received, answered, served⟩ := inv.follows_at here there rfl
      obtain ⟨distinct, descriptors⟩ := inv.closes here rfl
      cases served with
      | running piece fp safe =>
          have follows : Follows ⟨sockfd, addr, .writing (result addr output)⟩ socket :=
            ⟨isPeer, front, [piece], received, answered,
              .writing piece _ (.done safe output)⟩
          have updated : Inv (moved i ⟨sockfd, addr, .running (cString piece) fp⟩
              (.writing (result addr output)) { st with
                sockets := st.sockets.set i socket
                table := st.table.close fp }) :=
            inv.update here there distinct descriptors follows (List.prefix_refl _)
              fun j cmd member => .inl member
          rw [set_found there] at updated
          exact updated
  | wrote i c service socket reply count here phase there =>
      obtain ⟨rfl, found⟩ := inv.own here (by rw [phase]; nofun) there
      obtain ⟨sockfd, addr, phase'⟩ := service
      cases phase
      obtain ⟨isPeer, front, last, received, answered, served⟩ := inv.follows_at here found rfl
      cases served with
      | writing piece reply answer =>
          have taken : Answered socket.peer piece (reply.take count) :=
            ⟨reply, isPeer ▸ answer, List.take_prefix count reply⟩
          have follows : Follows ⟨sockfd, addr, .reading⟩
              { socket with sent := socket.sent ++ [reply.take count] } :=
            ⟨isPeer, front ++ [piece], [], by rw [List.append_nil]; exact received,
              List.rel_append answered (.cons taken .nil), .reading⟩
          exact inv.update here found inv.distinct (List.Perm.refl _) follows
            (List.prefix_refl _) fun j cmd member => .inl member
  | killed => exact ⟨inv.distinct, inv.descriptors, inv.paired, inv.follows, inv.whiteListed⟩
  | closed i service here phase =>
      obtain ⟨sockfd, addr, phase'⟩ := service
      cases phase
      obtain ⟨socket, there⟩ := inv.exists_socket here
      obtain ⟨isPeer, front, last, received, answered, served⟩ := inv.follows_at here there rfl
      obtain ⟨distinct, descriptors⟩ := inv.closes here rfl
      cases served
      have follows : Follows ⟨sockfd, addr, .ended⟩ socket :=
        ⟨isPeer, front, [], received, answered, .ended⟩
      have updated : Inv (moved i ⟨sockfd, addr, .closing⟩ .ended { st with
          sockets := st.sockets.set i socket
          table := st.table.close sockfd }) :=
        inv.update here there distinct descriptors follows (List.prefix_refl _)
          fun j cmd member => .inl member
      rw [set_found there] at updated
      exact updated

theorem reachable_inv (reached : Reachable step start st) : Inv st :=
  reached.invariant Inv (fun _ _ _ inv stepped => inv.stepped (stepped_of_step stepped)) inv_start

def localPeer (low : UInt8) : SockAddrIn := ⟨(4, low), ⟨127, 0, 0, 1⟩⟩

end LinuxSystemLearning.CommandServer
