import LinuxSystemLearning.Library.FdTable
import LinuxSystemLearning.Library.Interleaving
import LinuxSystemLearning.Library.Waiting

/-!
# The double fork of the server

For each connection `Start` forks a child and waits for it; the child forks once more and
ends, so that the service runs in a process nobody waits for.  If the second fork fails the
child goes on in the place of the grandchild.
-/

set_option autoImplicit false

namespace LinuxSystemLearning.TcpServer

open LinuxSystemLearning.FdTable
open LinuxSystemLearning.Interleaving
open LinuxSystemLearning.Waiting (countP_set countP_concat)

/-! ## The processes -/

/-- The connections are numbered as their processes are made. -/
inductive Desc where
  | other
  | listener
  | connection (n : Nat)
  deriving DecidableEq

/-- In front of the second fork, ended behind it, in the service, ended behind the service. -/
inductive ProcStage where
  | forked
  | parted
  | serving
  | served
  deriving DecidableEq

structure Proc where
  connection : Nat
  sockfd : Nat
  table : Table Desc
  /-- The process is a child of the accept loop, which waits for it. -/
  byLoop : Bool
  stage : ProcStage
  deriving DecidableEq

inductive Stage where
  | accepting
  | accepted (sockfd : Nat)
  | father (id sockfd : Nat)
  | waiting (id : Nat)
  | exited
  deriving DecidableEq

/-- A process is known by its place in `procs`. -/
structure State where
  stage : Stage
  listenfd : Nat
  table : Table Desc
  forks : Nat
  procs : List Proc
  /-- The connections for which both forks succeeded. -/
  doubly : List Nat

def closeSock (sockfd : Nat) (table : Table Desc) : Table Desc :=
  if 0 < sockfd then table.close sockfd else table

/-- Without a connection the loop goes on at once. -/
def accept (connected : Bool) (st : State) : State :=
  if connected then
    { st with
      stage := .accepted (lowest st.table.fds)
      table := st.table.insert (.connection st.forks) }
  else st

def childOf (sockfd : Nat) (st : State) : Proc := ⟨st.forks, sockfd, st.table, true, .forked⟩

/-- `exit` closes what the process has open. -/
def fork (success : Bool) (sockfd : Nat) (st : State) : State :=
  if success then
    { st with
      stage := .father st.procs.length sockfd
      forks := st.forks + 1
      procs := st.procs ++ [childOf sockfd st] }
  else { st with stage := .exited, table := [] }

def fatherClose (id sockfd : Nat) (st : State) : State :=
  { st with stage := .waiting id, table := closeSock sockfd st.table }

def Proc.ended (proc : Proc) (stage : ProcStage) : Proc := { proc with stage := stage, table := [] }

/-- What the child does: it closes the listening socket and forks. -/
def childMain (id : Nat) (proc : Proc) (success : Bool) (st : State) : State :=
  let proc := { proc with table := closeSock st.listenfd proc.table }
  if success then
    { st with
      procs := st.procs.set id (proc.ended .parted) ++
        [{ proc with byLoop := false, stage := .serving }]
      doubly := st.doubly ++ [proc.connection] }
  else { st with procs := st.procs.set id { proc with stage := .serving } }

def serviceDone (id : Nat) (proc : Proc) (st : State) : State :=
  { st with procs := st.procs.set id (proc.ended .served) }

def hasEnded (id : Nat) (st : State) : Bool :=
  match st.procs[id]? with
  | some proc => proc.stage = .parted || proc.stage = .served
  | none => false

inductive Event where
  | accept (connected : Bool)
  | fork (success : Bool)
  | close
  | waitpid
  | child (id : Nat) (success : Bool)
  | done (id : Nat)

def step (st : State) : Event → Option State
  | .accept connected =>
      match st.stage with
      | .accepting => some (accept connected st)
      | _ => none
  | .fork success =>
      match st.stage with
      | .accepted sockfd => some (fork success sockfd st)
      | _ => none
  | .close =>
      match st.stage with
      | .father id sockfd => some (fatherClose id sockfd st)
      | _ => none
  | .waitpid =>
      match st.stage with
      | .waiting id => if hasEnded id st then some { st with stage := .accepting } else none
      | _ => none
  | .child id success =>
      match st.procs[id]? with
      | some proc => if proc.stage = .forked then some (childMain id proc success st) else none
      | none => none
  | .done id =>
      match st.procs[id]? with
      | some proc => if proc.stage = .serving then some (serviceDone id proc st) else none
      | none => none

/-! ## What should hold -/

def Proc.runs (proc : Proc) : Bool := proc.stage == .serving || proc.stage == .served

def Proc.runsFor (n : Nat) (proc : Proc) : Bool := proc.connection == n && proc.runs

def Proc.forksFor (n : Nat) (proc : Proc) : Bool :=
  proc.connection == n && proc.stage == .forked

def services (n : Nat) (procs : List Proc) : Nat := procs.countP (Proc.runsFor n)

def pending (n : Nat) (procs : List Proc) : Nat := procs.countP (Proc.forksFor n)

def NoConnection (table : Table Desc) : Prop := ∀ n fd, (fd, .connection n) ∉ table

/-- The accept loop waits for no process that runs the service, the service of a connection
runs once if both forks succeeded, and behind `Close` the loop holds no connection. -/
structure Unblocked (st : State) : Prop where
  apart : ∀ proc ∈ st.procs, proc.byLoop = true → proc.runs = false
  once : ∀ n ∈ st.doubly, services n st.procs = 1
  clean : (st.stage = .accepting ∨ ∃ id, st.stage = .waiting id) → NoConnection st.table

/-- The second fork succeeds, and the descriptor that is closed is not 0. -/
def Parts (st : State) : Event → Prop
  | .child _ success => success = true
  | .close => ∀ id sockfd, st.stage = .father id sockfd → sockfd ≠ 0
  | _ => True

structure Start where
  table : Table Desc
  listenfd : Nat
  noConnection : NoConnection table

def Start.state (start : Start) : State := ⟨.accepting, start.listenfd, start.table, 0, [], []⟩

structure Serving where
  start : Start
  events : List Event
  last : State
  ran : play step start.state events = some last

/-! ## Steps -/

variable {st after : State} {event : Event}

inductive Moved (st : State) : Event → State → Prop where
  | accept (connected : Bool) (loop : st.stage = .accepting) :
      Moved st (.accept connected) (accept connected st)
  | fork (success : Bool) (sockfd : Nat) (loop : st.stage = .accepted sockfd) :
      Moved st (.fork success) (fork success sockfd st)
  | close (id sockfd : Nat) (loop : st.stage = .father id sockfd) :
      Moved st .close (fatherClose id sockfd st)
  | waitpid (id : Nat) (loop : st.stage = .waiting id) (ended : hasEnded id st = true) :
      Moved st .waitpid { st with stage := .accepting }
  | child (id : Nat) (success : Bool) (proc : Proc) (there : st.procs[id]? = some proc)
      (forked : proc.stage = .forked) : Moved st (.child id success) (childMain id proc success st)
  | done (id : Nat) (proc : Proc) (there : st.procs[id]? = some proc)
      (serving : proc.stage = .serving) : Moved st (.done id) (serviceDone id proc st)

theorem moved_of_step (stepped : step st event = some after) : Moved st event after := by
  cases event with
  | accept connected =>
      simp only [step] at stepped
      split at stepped
      · cases stepped
        exact .accept connected (by assumption)
      · cases stepped
  | fork success =>
      simp only [step] at stepped
      split at stepped
      · cases stepped
        exact .fork success _ (by assumption)
      · cases stepped
  | close =>
      simp only [step] at stepped
      split at stepped
      · cases stepped
        exact .close _ _ (by assumption)
      · cases stepped
  | waitpid =>
      simp only [step] at stepped
      split at stepped
      · split at stepped
        · cases stepped
          exact .waitpid _ (by assumption) (by assumption)
        · cases stepped
      · cases stepped
  | child id success =>
      simp only [step] at stepped
      split at stepped
      · split at stepped
        · cases stepped
          exact .child id success _ (by assumption) (by assumption)
        · cases stepped
      · cases stepped
  | done id =>
      simp only [step] at stepped
      split at stepped
      · split at stepped
        · cases stepped
          exact .done id _ (by assumption) (by assumption)
        · cases stepped
      · cases stepped

/-! ## One step -/

/-- The table has one connection, at the descriptor of the socket. -/
def Holding (sockfd : Nat) (table : Table Desc) : Prop :=
  ∃ n rest, table = (sockfd, .connection n) :: rest ∧ NoConnection rest

def Held (st : State) : Prop :=
  match st.stage with
  | .accepted sockfd => Holding sockfd st.table
  | .father _ sockfd => Holding sockfd st.table
  | _ => NoConnection st.table

/-- What holds as long as no second fork fails and the loop closes its sockets. -/
structure Inv (st : State) : Prop where
  apart : ∀ proc ∈ st.procs, proc.byLoop = true → proc.runs = false
  born : ∀ proc ∈ st.procs, proc.stage = .forked → proc.byLoop = true
  counts : ∀ n, pending n st.procs + services n st.procs = if n < st.forks then 1 else 0
  parted : ∀ n ∈ st.doubly, n < st.forks ∧ pending n st.procs = 0
  held : Held st

variable {id sockfd : Nat} {proc new : Proc} {procs : List Proc}

theorem Inv.unblocked (inv : Inv st) : Unblocked st where
  apart := inv.apart
  once := by
    intro n member
    obtain ⟨born, none⟩ := inv.parted n member
    have count := inv.counts n
    rw [none, if_pos born, Nat.zero_add] at count
    exact count
  clean := by
    have held := inv.held
    rintro (loop | ⟨id, loop⟩)
    · rw [Held, loop] at held
      exact held
    · rw [Held, loop] at held
      exact held

theorem inv_start (start : Start) : Inv start.state where
  apart := nofun
  born := nofun
  counts := fun n => (if_neg (Nat.not_lt_zero n)).symm
  parted := nofun
  held := start.noConnection

theorem pending_set (there : procs[id]? = some proc) (n : Nat) (new : Proc) :
    pending n (procs.set id new) + (proc.forksFor n).toNat =
      pending n procs + (new.forksFor n).toNat := countP_set (Proc.forksFor n) there new

theorem services_set (there : procs[id]? = some proc) (n : Nat) (new : Proc) :
    services n (procs.set id new) + (proc.runsFor n).toNat =
      services n procs + (new.runsFor n).toNat := countP_set (Proc.runsFor n) there new

theorem pending_concat (n : Nat) (procs : List Proc) (new : Proc) :
    pending n (procs ++ [new]) = pending n procs + (new.forksFor n).toNat := countP_concat _ _ _

theorem services_concat (n : Nat) (procs : List Proc) (new : Proc) :
    services n (procs ++ [new]) = services n procs + (new.runsFor n).toNat := countP_concat _ _ _

theorem Holding.closeSock {table : Table Desc} (holding : Holding sockfd table)
    (positive : sockfd ≠ 0) : NoConnection (closeSock sockfd table) := by
  obtain ⟨m, rest, rfl, clean⟩ := holding
  intro n fd member
  rw [TcpServer.closeSock, if_pos (Nat.pos_of_ne_zero positive), Table.mem_close] at member
  rcases List.mem_cons.mp member.1 with same | old
  · cases same
    exact member.2 rfl
  · exact clean n fd old

theorem Holding.kept {table : Table Desc} (holding : Holding 0 table) :
    ¬ NoConnection (TcpServer.closeSock 0 table) := by
  obtain ⟨m, rest, rfl, -⟩ := holding
  intro clean
  exact clean m 0 List.mem_cons_self

theorem inv_accept (inv : Inv st) (loop : st.stage = .accepting) (connected : Bool) :
    Inv (accept connected st) := by
  have held := inv.held
  rw [Held, loop] at held
  cases connected with
  | false => exact inv
  | true => exact ⟨inv.apart, inv.born, inv.counts, inv.parted, _, _, rfl, held⟩

theorem forall_mem_concat {Good : Proc → Prop} (all : ∀ proc ∈ procs, Good proc)
    (good : Good new) : ∀ proc ∈ procs ++ [new], Good proc := by
  rw [List.forall_mem_append, List.forall_mem_singleton]
  exact ⟨all, good⟩

theorem childOf_for (sockfd n : Nat) (st : State) :
    (childOf sockfd st).runsFor n = false ∧
      (childOf sockfd st).forksFor n = (st.forks == n) := by
  constructor
  · simp [Proc.runsFor, Proc.runs, childOf]
  · simp [Proc.forksFor, childOf]

theorem inv_fork (inv : Inv st) (loop : st.stage = .accepted sockfd) (success : Bool) :
    Inv (fork success sockfd st) := by
  have held := inv.held
  rw [Held, loop] at held
  cases success with
  | false => exact ⟨inv.apart, inv.born, inv.counts, inv.parted, nofun⟩
  | true =>
      refine ⟨?_, ?_, ?_, ?_, held⟩
      · exact forall_mem_concat inv.apart fun _ => rfl
      · exact forall_mem_concat inv.born fun _ => rfl
      · intro n
        have count := inv.counts n
        show pending n (st.procs ++ [childOf sockfd st]) +
          services n (st.procs ++ [childOf sockfd st]) = if n < st.forks + 1 then 1 else 0
        rw [pending_concat, services_concat]
        obtain ⟨runs, forks⟩ := childOf_for sockfd n st
        rw [runs, forks]
        by_cases last : st.forks = n
        · rw [last, if_neg (Nat.lt_irrefl n)] at count
          rw [last, if_pos (Nat.lt_succ_self n), beq_self_eq_true, Bool.toNat_true,
            Bool.toNat_false]
          omega
        · have same : n < st.forks + 1 ↔ n < st.forks := by omega
          rw [beq_false_of_ne last, Bool.toNat_false, if_congr same rfl rfl]
          exact count
      · intro n member
        obtain ⟨born, none⟩ := inv.parted n member
        refine ⟨Nat.lt_succ_of_lt born, ?_⟩
        show pending n (st.procs ++ [childOf sockfd st]) = 0
        have differs : st.forks ≠ n := Nat.ne_of_gt born
        rw [pending_concat, none, (childOf_for sockfd n st).2, beq_false_of_ne differs]
        rfl

/-- What is in the list behind a process has changed its place or is the new one. -/
theorem forall_mem_set {Good : Proc → Prop} (all : ∀ proc ∈ procs, Good proc) (good : Good new) :
    ∀ proc ∈ procs.set id new, Good proc := by
  intro proc member
  rcases List.mem_or_eq_of_mem_set member with old | rfl
  · exact all proc old
  · exact good

def grandchildOf (proc : Proc) (st : State) : Proc := { proc with
  table := closeSock st.listenfd proc.table
  byLoop := false
  stage := .serving }

theorem counts_child (there : st.procs[id]? = some proc) (forked : proc.stage = .forked)
    (n : Nat) :
    pending n (childMain id proc true st).procs + (proc.connection == n).toNat =
        pending n st.procs ∧
      services n (childMain id proc true st).procs =
        services n st.procs + (proc.connection == n).toNat := by
  have procs : (childMain id proc true st).procs =
      st.procs.set id (proc.ended .parted) ++ [grandchildOf proc st] := rfl
  have forksBefore : proc.forksFor n = (proc.connection == n) := by
    simp [Proc.forksFor, forked]
  have runsBefore : proc.runsFor n = false := by
    simp [Proc.runsFor, Proc.runs, forked]
  have ended : (proc.ended .parted).forksFor n = false ∧
      (proc.ended .parted).runsFor n = false := by
    simp [Proc.forksFor, Proc.runsFor, Proc.runs, Proc.ended]
  have grand : (grandchildOf proc st).forksFor n = false ∧
      (grandchildOf proc st).runsFor n = (proc.connection == n) := by
    simp [Proc.forksFor, Proc.runsFor, Proc.runs, grandchildOf]
  constructor
  · have count := pending_set there n (proc.ended .parted)
    rw [forksBefore, ended.1, Bool.toNat_false, Nat.add_zero] at count
    rw [procs, pending_concat, grand.1, Bool.toNat_false, Nat.add_zero, count]
  · have count := services_set there n (proc.ended .parted)
    rw [runsBefore, ended.2, Bool.toNat_false, Nat.add_zero, Nat.add_zero] at count
    rw [procs, services_concat, grand.2, count]

/-- The child ends and the grandchild runs the service. -/
theorem inv_child (inv : Inv st) (there : st.procs[id]? = some proc)
    (forked : proc.stage = .forked) : Inv (childMain id proc true st) := by
  constructor
  · exact forall_mem_concat (forall_mem_set inv.apart fun _ => rfl) nofun
  · exact forall_mem_concat (forall_mem_set inv.born nofun) nofun
  · intro n
    have count := inv.counts n
    obtain ⟨less, more⟩ := counts_child there forked n
    rw [more]
    show _ = if n < st.forks then 1 else 0
    omega
  · intro n member
    have less := (counts_child there forked n).1
    have count := inv.counts n
    rcases List.mem_append.mp member with old | new
    · obtain ⟨born, none⟩ := inv.parted n old
      exact ⟨born, by omega⟩
    · rw [← List.mem_singleton.mp new, beq_self_eq_true, Bool.toNat_true] at less
      split at count
      · rename_i born
        exact ⟨born, by omega⟩
      · omega
  · exact inv.held

theorem inv_done (inv : Inv st) (there : st.procs[id]? = some proc)
    (serving : proc.stage = .serving) : Inv (serviceDone id proc st) := by
  have before : ∀ n, proc.forksFor n = false ∧ proc.runsFor n = (proc.connection == n) := by
    intro n
    simp [Proc.forksFor, Proc.runsFor, Proc.runs, serving]
  have ended : ∀ n, (proc.ended .served).forksFor n = false ∧
      (proc.ended .served).runsFor n = (proc.connection == n) := by
    intro n
    simp [Proc.forksFor, Proc.runsFor, Proc.runs, Proc.ended]
  have pendingAfter : ∀ n, pending n (serviceDone id proc st).procs = pending n st.procs := by
    intro n
    have count := pending_set there n (proc.ended .served)
    rw [(before n).1, (ended n).1] at count
    exact Nat.add_right_cancel count
  have servicesAfter : ∀ n, services n (serviceDone id proc st).procs = services n st.procs := by
    intro n
    have count := services_set there n (proc.ended .served)
    rw [(before n).2, (ended n).2] at count
    exact Nat.add_right_cancel count
  have runs : proc.runs = true := by simp [Proc.runs, serving]
  constructor
  · refine forall_mem_set inv.apart ?_
    intro byLoop
    have apart := inv.apart proc (List.mem_of_getElem? there) byLoop
    rw [runs] at apart
    cases apart
  · exact forall_mem_set inv.born nofun
  · intro n
    rw [pendingAfter, servicesAfter]
    exact inv.counts n
  · intro n member
    rw [pendingAfter]
    exact inv.parted n member
  · exact inv.held

theorem Inv.step (inv : Inv st) (met : Parts st event)
    (stepped : TcpServer.step st event = some after) : Inv after := by
  cases moved_of_step stepped with
  | accept connected loop => exact inv_accept inv loop connected
  | fork success sockfd loop => exact inv_fork inv loop success
  | close id sockfd loop =>
      have held := inv.held
      rw [Held, loop] at held
      exact ⟨inv.apart, inv.born, inv.counts, inv.parted, held.closeSock (met id sockfd loop)⟩
  | waitpid id loop ended =>
      have held := inv.held
      rw [Held, loop] at held
      exact ⟨inv.apart, inv.born, inv.counts, inv.parted, held⟩
  | child id success proc there forked =>
      cases met
      exact inv_child inv there forked
  | done id proc there serving => exact inv_done inv there serving

/-- A second fork that fails leaves the service to the process the loop waits for, and
descriptor 0 is not closed. -/
theorem Inv.broken (inv : Inv st) (unmet : ¬ Parts st event)
    (stepped : TcpServer.step st event = some after) : ¬ Unblocked after := by
  intro unblocked
  cases moved_of_step stepped with
  | close id sockfd loop =>
      have held := inv.held
      rw [Held, loop] at held
      have zero : sockfd = 0 := by
        by_contra positive
        apply unmet
        intro id' sockfd' loop'
        cases loop.symm.trans loop'
        exact positive
      subst zero
      exact held.kept (unblocked.clean (Or.inr ⟨id, rfl⟩))
  | child id success proc there forked =>
      cases success with
      | true => exact unmet rfl
      | false =>
          have byLoop := inv.born proc (List.mem_of_getElem? there) forked
          have inside : id < st.procs.length := (List.getElem?_eq_some_iff.mp there).1
          have member : ({ proc with
              table := closeSock st.listenfd proc.table
              stage := .serving } : Proc) ∈ (childMain id proc false st).procs :=
            List.mem_iff_getElem?.mpr ⟨id, by simp [childMain, inside]⟩
          cases unblocked.apart _ member byLoop
  | _ => exact unmet trivial

/-- No client blocks the loop exactly as long as the second fork succeeds and the socket is
not descriptor 0. -/
theorem unblocked_iff (serving : Serving) :
    Always step Unblocked serving.start.state serving.events ↔
      Throughout step Parts serving.start.state serving.events :=
  always_iff_throughout Inv (fun _ => Inv.unblocked) (fun _ _ _ inv => inv.step)
    (fun _ _ _ inv => inv.broken) (inv_start serving.start) serving.ran

def usual : Start where
  table := [(3, .listener), (2, .other), (1, .other), (0, .other)]
  listenfd := 3
  noConnection := by
    intro n fd member
    simp at member

def secondForkFails : Serving where
  start := usual
  events := [.accept true, .fork true, .close, .child 0 false]
  last :=
    { stage := .waiting 0
      listenfd := 3
      table := usual.table
      forks := 1
      procs := [⟨0, 4, [(4, .connection 0), (2, .other), (1, .other), (0, .other)], true,
        .serving⟩]
      doubly := [] }
  ran := rfl

theorem secondForkFails_blocks :
    ¬ Always step Unblocked secondForkFails.start.state secondForkFails.events := by
  intro always
  have unblocked := always.last secondForkFails.ran
  cases unblocked.apart _ List.mem_cons_self rfl

end LinuxSystemLearning.TcpServer
