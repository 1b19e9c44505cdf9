import LinuxSystemLearning.Library.FdTable
import LinuxSystemLearning.Session.Login

/-!
# The connections of the session server

`Start` accepts connections and pushes a task for each of them; the threads of the pool
run the tasks side by side.  The destructor of `TcpSocket` closes nothing, so that a
descriptor is open until `CloseSocket` is called, and `ProcessConnection` calls it only
behind a `Recv` that returns true.
-/

set_option autoImplicit false

namespace LinuxSystemLearning.Connections

open LinuxSystemLearning.Cxx
open LinuxSystemLearning.FdTable LinuxSystemLearning.Interleaving

universe u

/-! ## The code -/

inductive Received where
  | data (bytes : Bytes)
  | endOfFile
  | error
  deriving DecidableEq

def recvSize : Nat := 4096

/-- `recv(_sockfd, inbuffer, size - 1, 0)` can answer this. -/
def Received.Possible : Received → Prop
  | .data bytes => bytes ≠ [] ∧ bytes.length ≤ recvSize - 1
  | _ => True

instance (received : Received) : Decidable received.Possible :=
  match received with
  | .data bytes => inferInstanceAs (Decidable (bytes ≠ [] ∧ bytes.length ≤ recvSize - 1))
  | .endOfFile => isTrue trivial
  | .error => isTrue trivial

def Received.isData : Received → Bool
  | .data _ => true
  | _ => false

/-- `Recv`: what it returns, and the text behind it. -/
def recv (buffer : Bytes) : Received → Bool × Bytes
  | .data bytes => (true, buffer ++ cString bytes)
  | .endOfFile => (false, buffer)
  | .error => (false, buffer)

inductive Phase where
  | recv
  | handle (requestStr : Bytes)
  | send (response : Bytes)
  | close
  | returned
  deriving DecidableEq

structure Task where
  sockfd : Int
  phase : Phase
  deriving DecidableEq

/-- A task has the number of its connection.  The table says which connection a
descriptor stands for, `none` for any other file, and `closed` are the connections
whose sockets the kernel has closed, the last one first. -/
structure State (Server : Type u) where
  tasks : List Task
  table : Table (Option Nat)
  closed : List Nat
  server : Server

variable {Server : Type u}

def defaultsockfd : Int := -1

/-- `close`; a number that stands for nothing is an error without effect. -/
def close (fd : Int) (st : State Server) : State Server :=
  match st.table.lookup fd.toNat with
  | none => st
  | some desc => { st with
      table := st.table.close fd.toNat
      closed := desc.toList ++ st.closed }

def closeSocket (sockfd : Int) (st : State Server) : State Server :=
  if sockfd > defaultsockfd then close sockfd st else st

/-- `AcceptConnection` succeeds, and the task is pushed. -/
def accepted (st : State Server) : State Server := { st with
  tasks := st.tasks ++ [⟨lowest st.table.fds, .recv⟩]
  table := st.table.insert (some st.tasks.length) }

def moved (i : Nat) (task : Task) (phase : Phase) (st : State Server) : State Server :=
  { st with tasks := st.tasks.set i { task with phase := phase } }

inductive Event where
  | accept (succeeds : Bool)
  | recv (i : Nat) (received : Received)
  | handle (i : Nat)
  | send (i : Nat)
  | close (i : Nat)
  deriving DecidableEq

/-- The condition of the `if`, and the first statement behind it. -/
def received (buffer : Bytes) (answer : Received) : Phase :=
  match recv buffer answer with
  | (true, requestStr) => .handle requestStr
  | (false, _) => .returned

variable (handler : Bytes → Server → Bytes × Server)

/-- What `send` answers is not looked at. -/
def step (st : State Server) : Event → Option (State Server)
  | .accept true => some (accepted st)
  | .accept false => some st
  | .recv i answer =>
      match st.tasks[i]? with
      | some ⟨sockfd, .recv⟩ =>
          if answer.Possible then
            some (moved i ⟨sockfd, .recv⟩ (received [] answer) st)
          else none
      | _ => none
  | .handle i =>
      match st.tasks[i]? with
      | some ⟨sockfd, .handle requestStr⟩ =>
          let (response, server) := handler requestStr st.server
          some (moved i ⟨sockfd, .handle requestStr⟩ (.send response) { st with server := server })
      | _ => none
  | .send i =>
      match st.tasks[i]? with
      | some ⟨sockfd, .send response⟩ => some (moved i ⟨sockfd, .send response⟩ .close st)
      | _ => none
  | .close i =>
      match st.tasks[i]? with
      | some ⟨sockfd, .close⟩ =>
          some (moved i ⟨sockfd, .close⟩ .returned (closeSocket sockfd st))
      | _ => none

/-- The standard descriptors and the listening socket are open. -/
def start (server : Server) : State Server :=
  ⟨[], [(3, none), (2, none), (1, none), (0, none)], [], server⟩

def ClosedOnce (st : State Server) : Prop :=
  ∀ i < st.tasks.length, st.closed.count i = 1

def Returned (st : State Server) : Prop := ∀ task ∈ st.tasks, task.phase = .returned

instance (st : State Server) : Decidable (Returned st) :=
  inferInstanceAs (Decidable (∀ task ∈ st.tasks, task.phase = .returned))

/-- If it is a `recv`, there is something to read. -/
def Event.HasData : Event → Prop
  | .recv _ answer => answer.isData = true
  | _ => True

instance (event : Event) : Decidable event.HasData :=
  match event with
  | .recv _ answer => inferInstanceAs (Decidable (answer.isData = true))
  | .accept _ => isTrue trivial
  | .handle _ => isTrue trivial
  | .send _ => isTrue trivial
  | .close _ => isTrue trivial

/-! ## What a step does -/

/-- A task goes on, returns without having closed its socket, or closes it and returns. -/
inductive Effect (st : State Server) (event : Event) : State Server → Prop
  | accepted (data : event.HasData) : Effect st event (accepted st)
  | failed (data : event.HasData) : Effect st event st
  | onward {i : Nat} {task : Task} {phase : Phase} (server : Server)
      (found : st.tasks[i]? = some task) (running : task.phase ≠ .returned)
      (further : phase ≠ .returned) (data : event.HasData) :
      Effect st event (moved i task phase { st with server := server })
  | left {i : Nat} {task : Task} (found : st.tasks[i]? = some task)
      (running : task.phase ≠ .returned) (nothing : ¬ event.HasData) :
      Effect st event (moved i task .returned st)
  | closed {i : Nat} {task : Task} (found : st.tasks[i]? = some task)
      (running : task.phase ≠ .returned) (data : event.HasData) :
      Effect st event (moved i task .returned (closeSocket task.sockfd st))

variable {handler} {st after : State Server} {event : Event}

theorem effect_of_step (stepped : step handler st event = some after) :
    Effect st event after := by
  cases event with
  | accept succeeds =>
      cases succeeds with
      | true =>
          cases stepped
          exact .accepted trivial
      | false =>
          cases stepped
          exact .failed trivial
  | recv i answer =>
      simp only [step] at stepped
      split at stepped
      · rename_i sockfd found
        split at stepped
        · cases stepped
          cases answer with
          | data bytes => exact .onward st.server found nofun nofun rfl
          | endOfFile => exact .left found nofun nofun
          | error => exact .left found nofun nofun
        · cases stepped
      · cases stepped
  | handle i =>
      simp only [step] at stepped
      split at stepped
      · rename_i sockfd requestStr found
        cases stepped
        exact .onward _ found nofun nofun trivial
      · cases stepped
  | send i =>
      simp only [step] at stepped
      split at stepped
      · rename_i sockfd response found
        cases stepped
        exact .onward st.server found nofun nofun trivial
      · cases stepped
  | close i =>
      simp only [step] at stepped
      split at stepped
      · rename_i sockfd found
        cases stepped
        exact .closed found nofun trivial
      · cases stepped

/-! ## The descriptors of the tasks -/

/-- A task that has not returned has its socket open, under its own number. -/
structure Inv (st : State Server) : Prop where
  functional : st.table.Functional
  running : ∀ (i : Nat) (task : Task), st.tasks[i]? = some task → task.phase ≠ .returned →
    ∃ fd : Nat, task.sockfd = fd ∧ (fd, some i) ∈ st.table ∧ i ∉ st.closed
  bound : ∀ i ∈ st.closed, i < st.tasks.length
  nodup : st.closed.Nodup

theorem inv_start (server : Server) : Inv (start server) where
  functional := by
    have other : ∀ entry ∈ (start server).table, entry.2 = none := by simp [start]
    intro fd one two first second
    exact (other _ first).trans (other _ second).symm
  running := nofun
  bound := nofun
  nodup := List.nodup_nil

theorem Inv.closeSocket (inv : Inv st) {i : Nat} {task : Task} (found : st.tasks[i]? = some task)
    (running : task.phase ≠ .returned) :
    ∃ fd : Nat, (fd, some i) ∈ st.table ∧ closeSocket task.sockfd st =
      { st with table := st.table.close fd, closed := i :: st.closed } := by
  obtain ⟨fd, number, inTable, -⟩ := inv.running i task found running
  refine ⟨fd, inTable, ?_⟩
  have above : (fd : Int) > defaultsockfd := by
    unfold defaultsockfd
    omega
  rw [Connections.closeSocket, number, if_pos above, close, Int.toNat_natCast,
    Table.lookup_of_mem inv.functional inTable]
  rfl

theorem tasks_of_moved {i j : Nat} {task other : Task} {phase : Phase}
    (found : (moved i task phase st).tasks[j]? = some other) :
    (j = i ∧ other = { task with phase := phase }) ∨ (j ≠ i ∧ st.tasks[j]? = some other) := by
  rw [moved, List.getElem?_set] at found
  split at found
  · rename_i same
    split at found
    · exact Or.inl ⟨same.symm, (Option.some.inj found).symm⟩
    · cases found
  · rename_i different
    exact Or.inr ⟨fun same => different same.symm, found⟩

theorem length_moved (i : Nat) (task : Task) (phase : Phase) (st : State Server) :
    (moved i task phase st).tasks.length = st.tasks.length := List.length_set

theorem tasks_of_accepted {i : Nat} {task : Task} (found : (accepted st).tasks[i]? = some task) :
    st.tasks[i]? = some task ∨
      (i = st.tasks.length ∧ task = ⟨lowest st.table.fds, .recv⟩) := by
  rw [accepted, List.getElem?_append] at found
  split at found
  · exact Or.inl found
  · rename_i beyond
    rw [List.getElem?_singleton] at found
    split at found
    · exact Or.inr ⟨by omega, (Option.some.inj found).symm⟩
    · cases found

theorem Inv.accepted (inv : Inv st) : Inv (accepted st) where
  functional := inv.functional.insert _
  running := by
    intro i task found running
    rcases tasks_of_accepted found with before | ⟨rfl, rfl⟩
    · obtain ⟨fd, number, inTable, still⟩ := inv.running i task before running
      exact ⟨fd, number, Table.mem_insert.mpr (Or.inr inTable), still⟩
    · refine ⟨_, rfl, Table.mem_insert.mpr (Or.inl ⟨rfl, rfl⟩), ?_⟩
      exact fun member => Nat.lt_irrefl _ (inv.bound _ member)
  bound := by
    intro i member
    have below := inv.bound i member
    rw [Connections.accepted, List.length_append]
    omega
  nodup := inv.nodup

theorem Inv.moved (inv : Inv st) {i : Nat} {task : Task} (phase : Phase)
    (found : st.tasks[i]? = some task) (running : task.phase ≠ .returned) :
    Inv (moved i task phase st) where
  functional := inv.functional
  running := by
    intro j other found' running'
    rcases tasks_of_moved found' with ⟨rfl, rfl⟩ | ⟨-, before⟩
    · exact inv.running j task found running
    · exact inv.running j other before running'
  bound := by
    intro j member
    rw [length_moved]
    exact inv.bound j member
  nodup := inv.nodup

theorem Inv.closed (inv : Inv st) {i : Nat} {task : Task} (found : st.tasks[i]? = some task)
    (running : task.phase ≠ .returned) :
    Inv (Connections.moved i task .returned (Connections.closeSocket task.sockfd st)) := by
  obtain ⟨fd, inTable, shut⟩ := inv.closeSocket found running
  obtain ⟨-, -, -, still⟩ := inv.running i task found running
  rw [shut]
  refine ⟨inv.functional.close fd, ?_, ?_, List.nodup_cons.mpr ⟨still, inv.nodup⟩⟩
  · intro j other found' running'
    rcases tasks_of_moved found' with ⟨rfl, rfl⟩ | ⟨different, before⟩
    · exact absurd rfl running'
    · obtain ⟨fd', number, inTable', still'⟩ := inv.running j other before running'
      have apart : fd' ≠ fd := by
        intro same
        have owner := inv.functional fd (some i) (some j) inTable (same ▸ inTable')
        exact different (Option.some.inj owner).symm
      refine ⟨fd', number, Table.mem_close.mpr ⟨inTable', apart⟩, ?_⟩
      exact List.not_mem_cons_of_ne_of_not_mem different still'
  · intro j member
    rw [length_moved]
    rcases List.mem_cons.mp member with rfl | before
    · exact (List.getElem?_eq_some_iff.mp found).1
    · exact inv.bound j before

theorem Inv.step (inv : Inv st) (stepped : step handler st event = some after) : Inv after := by
  cases effect_of_step stepped with
  | accepted => exact inv.accepted
  | failed => exact inv
  | onward server found running further =>
      have same : Inv { st with server := server } := ⟨inv.1, inv.2, inv.3, inv.4⟩
      exact same.moved _ found running
  | left found running => exact inv.moved .returned found running
  | closed found running => exact inv.closed found running

/-! ## Sockets that stay open -/

def Closed (st : State Server) : Prop :=
  ∀ (i : Nat) (task : Task), st.tasks[i]? = some task → task.phase = .returned → i ∈ st.closed

def Leaked (st : State Server) : Prop :=
  ∃ (i : Nat) (task : Task), st.tasks[i]? = some task ∧ task.phase = .returned ∧ i ∉ st.closed

theorem Closed.step (inv : Inv st) (closed : Closed st) (data : event.HasData)
    (stepped : step handler st event = some after) : Closed after := by
  cases effect_of_step stepped with
  | accepted =>
      intro i task found returned
      rcases tasks_of_accepted found with before | ⟨-, rfl⟩
      · exact closed i task before returned
      · cases returned
  | failed => exact closed
  | onward server found running further =>
      intro j other found' returned
      rcases tasks_of_moved found' with ⟨rfl, rfl⟩ | ⟨-, before⟩
      · exact absurd returned further
      · exact closed j other before returned
  | left found running nothing => exact absurd data nothing
  | closed found running =>
      obtain ⟨fd, -, shut⟩ := inv.closeSocket found running
      rw [shut]
      intro j other found' returned
      rcases tasks_of_moved found' with ⟨rfl, -⟩ | ⟨-, before⟩
      · exact List.mem_cons_self
      · exact List.mem_cons_of_mem _ (closed j other before returned)

theorem Inv.leaked (inv : Inv st) (nothing : ¬ event.HasData)
    (stepped : Connections.step handler st event = some after) : Leaked after := by
  cases effect_of_step stepped with
  | left found running nothing =>
      rename_i i task
      obtain ⟨-, -, -, still⟩ := inv.running i task found running
      have inside := (List.getElem?_eq_some_iff.mp found).1
      exact ⟨i, { task with phase := .returned }, List.getElem?_set_self inside, rfl, still⟩
  | accepted data => exact absurd data nothing
  | failed data => exact absurd data nothing
  | onward _ _ _ _ data => exact absurd data nothing
  | closed _ _ data => exact absurd data nothing

/-- A task that has returned does nothing more. -/
theorem Leaked.step (inv : Inv st) (leaked : Leaked st)
    (stepped : step handler st event = some after) : Leaked after := by
  obtain ⟨i, task, found, returned, still⟩ := leaked
  have inside := (List.getElem?_eq_some_iff.mp found).1
  have other : ∀ {j : Nat} {moving : Task}, st.tasks[j]? = some moving →
      moving.phase ≠ .returned → j ≠ i := by
    rintro j moving found' running rfl
    rw [found] at found'
    cases found'
    exact running returned
  have kept : ∀ (j : Nat) (moving : Task) (phase : Phase), j ≠ i →
      (st.tasks.set j { moving with phase := phase })[i]? = some task := by
    intro j moving phase different
    rw [List.getElem?_set_ne different, found]
  cases effect_of_step stepped with
  | accepted =>
      refine ⟨i, task, ?_, returned, still⟩
      rw [accepted, List.getElem?_append_left inside, found]
  | failed => exact ⟨i, task, found, returned, still⟩
  | onward server found' running further =>
      exact ⟨i, task, kept _ _ _ (other found' running), returned, still⟩
  | left found' running => exact ⟨i, task, kept _ _ _ (other found' running), returned, still⟩
  | closed found' running =>
      obtain ⟨fd, -, shut⟩ := inv.closeSocket found' running
      have different := other found' running
      rw [shut]
      exact ⟨i, task, kept _ _ _ different, returned,
        List.not_mem_cons_of_ne_of_not_mem different.symm still⟩

/-! ## Runs -/

variable {server : Server} {events : List Event} {last : State Server}

theorem inv_of_play (ran : play (step handler) (start server) events = some last) : Inv last :=
  Reachable.invariant Inv (fun _ _ _ inv stepped => inv.step stepped) (inv_start server)
    ⟨events, ran⟩

/-- However the tasks take turns, no socket is closed twice. -/
theorem count_closed_le_one (ran : play (step handler) (start server) events = some last)
    (i : Nat) : last.closed.count i ≤ 1 :=
  List.nodup_iff_count_le_one.mp (inv_of_play ran).nodup i

theorem closedOnce_iff_closed (inv : Inv last) (returned : Returned last) :
    ClosedOnce last ↔ Closed last := by
  constructor
  · intro once i task found _
    have inside := (List.getElem?_eq_some_iff.mp found).1
    apply List.count_pos_iff.mp
    rw [once i inside]
    exact Nat.one_pos
  · intro closed i inside
    have member := closed i _ (List.getElem?_eq_getElem inside)
      (returned _ (List.getElem_mem inside))
    exact List.count_eq_one_of_mem inv.nodup member

/-- In a run behind which all tasks have returned, every socket has been closed exactly once,
exactly if every `recv` had something to read. -/
theorem closedOnce_iff_data (ran : play (step handler) (start server) events = some last)
    (returned : Returned last) :
    ClosedOnce last ↔ ∀ event ∈ events, event.HasData := by
  rw [closedOnce_iff_closed (inv_of_play ran) returned, ← throughout_iff_forall_mem ran]
  constructor
  · intro closed
    by_contra breach
    obtain ⟨-, leaked⟩ := bad_of_not_throughout Inv (fun st => Inv st ∧ Leaked st)
      (fun _ _ _ inv stepped => inv.step stepped)
      (fun _ _ _ inv nothing stepped => ⟨inv.step stepped, inv.leaked nothing stepped⟩)
      (fun _ _ _ both stepped => ⟨both.1.step stepped, both.2.step both.1 stepped⟩)
      (inv_start server) ran breach
    obtain ⟨i, task, found, gone, still⟩ := leaked
    exact still (closed i task found gone)
  · intro data
    exact (invariant_throughout (fun st => Inv st ∧ Closed st)
      (fun _ _ _ both data stepped => ⟨both.1.step stepped, both.2.step both.1 data stepped⟩)
      ⟨inv_start server, nofun⟩ ran data).2

/-! ## The handler of the server -/

def sessionHandler (request : Bytes) (server : Sessions.Server) : Bytes × Sessions.Server :=
  Sessions.handlerHttp ⟨7, 1⟩ request server

def twoClients : List Event :=
  [.accept true, .accept false, .accept true, .recv 1 (.data (ascii "GET /")),
    .recv 0 (.data (ascii "GET /login")), .handle 0, .handle 1, .send 1, .close 1, .send 0,
    .accept true, .close 0, .recv 2 (.data [0]), .handle 2, .send 2, .close 2]

theorem closedOnce_twoClients :
    ∃ last, play (step sessionHandler) (start .fresh) twoClients = some last ∧
      Returned last ∧ ClosedOnce last := by
  have all : ∀ last ∈ play (step sessionHandler) (start .fresh) twoClients, Returned last := by
    decide
  obtain ⟨last, ran⟩ : ∃ last, play (step sessionHandler) (start .fresh) twoClients = some last :=
    ⟨_, rfl⟩
  have data : ∀ event ∈ twoClients, event.HasData := by decide
  exact ⟨last, ran, all last ran, (closedOnce_iff_data ran (all last ran)).mpr data⟩

def silentClient : List Event := [.accept true, .recv 0 .endOfFile]

theorem silentClient_leaks :
    ∃ last, play (step sessionHandler) (start .fresh) silentClient = some last ∧
      Returned last ∧ ¬ ClosedOnce last := by
  refine ⟨_, rfl, by decide, ?_⟩
  intro once
  exact absurd (once 0 (by decide)) (by decide)

end LinuxSystemLearning.Connections
