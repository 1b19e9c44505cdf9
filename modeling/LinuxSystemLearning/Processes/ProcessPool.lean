import LinuxSystemLearning.Library.FdTable
import LinuxSystemLearning.Library.Interleaving

/-!
# The process pool

`Start` makes a pipe and a child for each channel; a child inherits the write ends of the
channels made before it and closes them in its own time.  `CloseAndWait` closes one
channel after another and waits for each child, which ends when it reads the end of its
pipe: that comes only if nobody else has the write end.
-/

set_option autoImplicit false

namespace LinuxSystemLearning.ProcessPool

open LinuxSystemLearning.FdTable LinuxSystemLearning.Interleaving

/-! ## The processes -/

/-- What a descriptor stands for; the pipes are numbered as they are made. -/
inductive Desc where
  | other
  | readEnd (pipe : Nat)
  | writeEnd (pipe : Nat)
deriving DecidableEq, Repr

/-- `subid` is the place of the child among the children. -/
structure Channel where
  wfd : Nat
  subid : Nat
deriving DecidableEq, Repr

/-- A child has descriptors to close, those of `CloseAll` and then `pipefd[1]`, works, or
has ended, because of the end of the file or because of an error. -/
inductive ChildStage where
  | closing (todo : List Nat)
  | working
  | exited (eof : Bool)
deriving DecidableEq, Repr

structure Child where
  table : Table Desc
  rfd : Nat
  stage : ChildStage
deriving DecidableEq, Repr

/-- Where the parent is: at the head of the loop of `Start`, behind `pipe`, behind `fork`,
behind `Start`; and in `CloseAndWait` before `Close`, in `Wait`, behind the loop. -/
inductive Stage where
  | loop (i : Nat)
  | piped (i rfd wfd : Nat)
  | forked (i rfd wfd subid : Nat)
  | running
  | closing (i : Nat)
  | waiting (i : Nat)
  | stopped
deriving DecidableEq, Repr

/-- `pipes` are the task codes in each pipe that nobody has read yet. -/
structure State where
  stage : Stage
  table : Table Desc
  channels : List Channel
  children : List Child
  pipes : List Nat
deriving DecidableEq, Repr

/-- The files open before `Start`, such as the three standard ones. -/
def start (opened : List Nat) : State where
  stage := .loop 0
  table := opened.map fun fd => (fd, .other)
  channels := []
  children := []
  pipes := []

/-! ## The parent -/

/-- The reading end gets the lowest free number, and then the writing end. -/
def pipe (i : Nat) (st : State) : State :=
  let table := st.table.insert (.readEnd st.pipes.length)
  { st with
    stage := .piped i (lowest st.table.fds) (lowest table.fds)
    table := table.insert (.writeEnd st.pipes.length)
    pipes := st.pipes ++ [0] }

/-- The child has the table of the parent and its channels. -/
def fork (i rfd wfd : Nat) (st : State) : State :=
  let child : Child :=
    { table := st.table
      rfd := rfd
      stage := .closing (st.channels.map Channel.wfd ++ [wfd]) }
  { st with
    stage := .forked i rfd wfd st.children.length
    children := st.children ++ [child] }

def insertChannel (i rfd wfd subid : Nat) (st : State) : State :=
  { st with
    stage := .loop (i + 1)
    table := st.table.close rfd
    channels := st.channels ++ [⟨wfd, subid⟩] }

def returned (st : State) : State := { st with stage := .running }

def hasExited (st : State) (subid : Nat) : Bool :=
  match st.children[subid]? with
  | some child =>
      match child.stage with
      | .exited _ => true
      | _ => false
  | none => false

/-- `fails` is what `pipe` or `fork` answers. -/
def stepParent (processNum : Int) (fails : Bool) (st : State) : Option State :=
  match st.stage with
  | .loop i =>
      if (i : Int) < processNum then
        if fails then some (returned st) else some (pipe i st)
      else some (returned st)
  | .piped i rfd wfd => if fails then some (returned st) else some (fork i rfd wfd st)
  | .forked i rfd wfd subid => some (insertChannel i rfd wfd subid st)
  | .running => some { st with stage := .closing 0 }
  | .closing i =>
      match st.channels[i]? with
      | some channel =>
          some { st with stage := .waiting i, table := st.table.close channel.wfd }
      | none => some { st with stage := .stopped }
  | .waiting i =>
      match st.channels[i]? with
      | some channel =>
          if hasExited st channel.subid then some { st with stage := .closing (i + 1) }
          else none
      | none => none
  | .stopped => none

/-- `Run` writes a code to the channel it selects. -/
def send (i : Nat) (st : State) : Option State :=
  match st.stage, st.channels[i]? with
  | .running, some channel =>
      match st.table.lookup channel.wfd with
      | some (.writeEnd p) => some { st with pipes := st.pipes.set p (st.pipes.getD p 0 + 1) }
      | _ => some st
  | _, _ => none

/-! ## The children -/

def isOpen (desc : Desc) (st : State) : Bool :=
  decide (desc ∈ st.table.descs) || st.children.any fun child => decide (desc ∈ child.table.descs)

def put (j : Nat) (child : Child) (st : State) : State :=
  { st with children := st.children.set j child }

def closeOne (fd : Nat) (todo : List Nat) (child : Child) : Child :=
  { child with table := child.table.close fd, stage := .closing todo }

def exit (eof : Bool) (child : Child) : Child :=
  { child with table := [], stage := .exited eof }

/-- A round of `Work`: `read` takes a code, or finds the end of the file when nobody has
the pipe open for writing, or fails, or waits. -/
def work (j : Nat) (child : Child) (st : State) : Option State :=
  match child.table.lookup child.rfd with
  | some (.readEnd p) =>
      if 0 < st.pipes.getD p 0 then
        some { st with pipes := st.pipes.set p (st.pipes.getD p 0 - 1) }
      else if isOpen (.writeEnd p) st then none
      else some (put j (exit true child) st)
  | _ => some (put j (exit false child) st)

def stepChild (j : Nat) (st : State) : Option State :=
  match st.children[j]? with
  | none => none
  | some child =>
      match child.stage with
      | .closing (fd :: todo) => some (put j (closeOne fd todo child) st)
      | .closing [] => some (put j { child with stage := .working } st)
      | .working => work j child st
      | .exited _ => none

inductive Event where
  | parent (fails : Bool)
  | send (i : Nat)
  | child (j : Nat)
deriving DecidableEq, Repr

def step (processNum : Int) (st : State) : Event → Option State
  | .parent fails => stepParent processNum fails st
  | .send i => send i st
  | .child j => stepChild j st

/-! ## What one move does -/

/-- The moves of the parent, one for each place it can be in and each answer it gets. -/
inductive ParentMove (processNum : Int) (st : State) : State → Prop where
  | pipe {i : Nat} (stage : st.stage = .loop i) (more : (i : Int) < processNum) :
      ParentMove processNum st (pipe i st)
  | fork {i rfd wfd : Nat} (stage : st.stage = .piped i rfd wfd) :
      ParentMove processNum st (fork i rfd wfd st)
  | insert {i rfd wfd subid : Nat} (stage : st.stage = .forked i rfd wfd subid) :
      ParentMove processNum st (insertChannel i rfd wfd subid st)
  | loopEnds {i : Nat} (stage : st.stage = .loop i) : ParentMove processNum st (returned st)
  | forkFails {i rfd wfd : Nat} (stage : st.stage = .piped i rfd wfd) :
      ParentMove processNum st (returned st)
  | stop (stage : st.stage = .running) :
      ParentMove processNum st { st with stage := .closing 0 }
  | close {i : Nat} {channel : Channel} (stage : st.stage = .closing i)
      (found : st.channels[i]? = some channel) :
      ParentMove processNum st
        { st with stage := .waiting i, table := st.table.close channel.wfd }
  | done {i : Nat} (stage : st.stage = .closing i) (past : st.channels.length ≤ i) :
      ParentMove processNum st { st with stage := .stopped }
  | waited {i : Nat} {channel : Channel} (stage : st.stage = .waiting i)
      (found : st.channels[i]? = some channel) (ended : hasExited st channel.subid = true) :
      ParentMove processNum st { st with stage := .closing (i + 1) }

theorem parentMove {processNum : Int} {fails : Bool} {st after : State}
    (stepped : stepParent processNum fails st = some after) : ParentMove processNum st after := by
  unfold stepParent at stepped
  cases stage : st.stage with
  | loop i =>
      rw [stage] at stepped
      dsimp only at stepped
      split at stepped
      · rename_i more
        split at stepped
        · cases stepped
          exact .loopEnds stage
        · cases stepped
          exact .pipe stage more
      · cases stepped
        exact .loopEnds stage
  | piped i rfd wfd =>
      rw [stage] at stepped
      dsimp only at stepped
      split at stepped
      · cases stepped
        exact .forkFails stage
      · cases stepped
        exact .fork stage
  | forked i rfd wfd subid =>
      rw [stage] at stepped
      cases stepped
      exact .insert stage
  | running =>
      rw [stage] at stepped
      cases stepped
      exact .stop stage
  | closing i =>
      rw [stage] at stepped
      dsimp only at stepped
      split at stepped
      · rename_i channel found
        cases stepped
        exact .close stage found
      · rename_i none
        cases stepped
        exact .done stage (List.getElem?_eq_none_iff.mp none)
  | waiting i =>
      rw [stage] at stepped
      dsimp only at stepped
      split at stepped
      · rename_i channel found
        split at stepped
        · rename_i ended
          cases stepped
          exact .waited stage found ended
        · cases stepped
      · cases stepped
  | stopped =>
      rw [stage] at stepped
      cases stepped

inductive ChildMove (j : Nat) (st : State) : State → Prop where
  | close {child : Child} {fd : Nat} {todo : List Nat} (found : st.children[j]? = some child)
      (stage : child.stage = .closing (fd :: todo)) :
      ChildMove j st (put j (closeOne fd todo child) st)
  | begin {child : Child} (found : st.children[j]? = some child)
      (stage : child.stage = .closing []) :
      ChildMove j st (put j { child with stage := .working } st)
  | take {child : Child} {p : Nat} (found : st.children[j]? = some child)
      (stage : child.stage = .working) (own : child.table.lookup child.rfd = some (.readEnd p))
      (codes : 0 < st.pipes.getD p 0) :
      ChildMove j st { st with pipes := st.pipes.set p (st.pipes.getD p 0 - 1) }
  | eof {child : Child} {p : Nat} (found : st.children[j]? = some child)
      (stage : child.stage = .working) (own : child.table.lookup child.rfd = some (.readEnd p))
      (empty : ¬ 0 < st.pipes.getD p 0) (closed : ¬ isOpen (.writeEnd p) st = true) :
      ChildMove j st (put j (exit true child) st)
  | fail {child : Child} (found : st.children[j]? = some child)
      (stage : child.stage = .working)
      (other : ∀ p, child.table.lookup child.rfd ≠ some (.readEnd p)) :
      ChildMove j st (put j (exit false child) st)

theorem childMove {j : Nat} {st after : State} (stepped : stepChild j st = some after) :
    ChildMove j st after := by
  unfold stepChild at stepped
  split at stepped
  · cases stepped
  · rename_i child found
    split at stepped
    · rename_i fd todo stage
      cases stepped
      exact .close found stage
    · rename_i stage
      cases stepped
      exact .begin found stage
    · rename_i stage
      unfold work at stepped
      split at stepped
      · rename_i p own
        split at stepped
        · rename_i codes
          cases stepped
          exact .take found stage own codes
        · rename_i empty
          split at stepped
          · cases stepped
          · rename_i closed
            cases stepped
            exact .eof found stage own empty closed
      · rename_i other
        cases stepped
        exact .fail found stage other
    · cases stepped

theorem send_eq_some {i : Nat} {st after : State} (sent : send i st = some after) :
    st.stage = .running ∧
      ∃ pipes, pipes.length = st.pipes.length ∧ after = { st with pipes := pipes } := by
  unfold send at sent
  split at sent
  · rename_i running _
    refine ⟨running, ?_⟩
    split at sent
    · cases sent
      exact ⟨_, List.length_set, rfl⟩
    · cases sent
      exact ⟨_, rfl, rfl⟩
  · cases sent

/-! ## What `Start` is to reach -/

def ChildStage.settled : ChildStage → Bool
  | .closing _ => false
  | _ => true

/-- When `Start` has returned, the parent has the write end of each channel's pipe, under
the number that the channel keeps; and a child that has come to `Work` has no end of a
pipe but the read end of its own. -/
structure Wired (st : State) : Prop where
  parent : st.stage = .running → ∀ (i : Nat) (channel : Channel),
    st.channels[i]? = some channel →
      channel.subid = i ∧ (channel.wfd, Desc.writeEnd i) ∈ st.table
  child : ∀ (j : Nat) (child : Child), st.children[j]? = some child →
    child.stage.settled = true →
      ∀ desc ∈ child.table.descs, desc = .other ∨ desc = .readEnd j

theorem getElem?_concat_cases {α : Type} {xs : List α} {new x : α} {i : Nat}
    (found : (xs ++ [new])[i]? = some x) :
    xs[i]? = some x ∨ (i = xs.length ∧ x = new) := by
  rw [List.getElem?_append] at found
  split at found
  · exact Or.inl found
  · rename_i notBefore
    have here : i - xs.length = 0 := by
      have below := (List.getElem?_eq_some_iff.mp found).1
      simpa using below
    rw [here] at found
    exact Or.inr ⟨by omega, (Option.some.inj found).symm⟩

/-! ## The tables of the children -/

def ChildStage.todo : ChildStage → List Nat
  | .closing todo => todo
  | _ => []

/-- The write ends a child has are those it is about to close; of read ends it has its own
only. -/
structure ChildInv (j : Nat) (child : Child) : Prop where
  functional : child.table.Functional
  writes : ∀ fd p, (fd, Desc.writeEnd p) ∈ child.table → fd ∈ child.stage.todo
  reads : ∀ fd p, (fd, Desc.readEnd p) ∈ child.table → p = j
  own : (∀ eof, child.stage ≠ .exited eof) → (child.rfd, Desc.readEnd j) ∈ child.table
  apart : child.rfd ∉ child.stage.todo
  ended : ∀ eof, child.stage = .exited eof → eof = true

variable {j : Nat} {child : Child}

theorem ChildInv.closeOne {fd : Nat} {todo : List Nat} (inv : ChildInv j child)
    (stage : child.stage = .closing (fd :: todo)) :
    ChildInv j (ProcessPool.closeOne fd todo child) := by
  have apart : child.rfd ∉ fd :: todo := by
    have apart := inv.apart
    rwa [stage] at apart
  refine ⟨inv.functional.close fd, ?_, ?_, ?_, ?_, fun _ ended => nomatch ended⟩
  · intro other p member
    obtain ⟨before, differs⟩ := Table.mem_close.mp member
    have listed := inv.writes other p before
    rw [stage] at listed
    exact (List.mem_cons.mp listed).resolve_left differs
  · intro other p member
    exact inv.reads other p (Table.mem_close.mp member).1
  · intro _
    refine Table.mem_close.mpr ⟨inv.own (by simp [stage]), ?_⟩
    intro same
    exact apart (List.mem_cons.mpr (Or.inl same))
  · intro member
    exact apart (List.mem_cons_of_mem _ member)

theorem ChildInv.work (inv : ChildInv j child) (stage : child.stage = .closing []) :
    ChildInv j { child with stage := .working } := by
  refine ⟨inv.functional, ?_, inv.reads, fun _ => inv.own (by simp [stage]),
    List.not_mem_nil, fun _ ended => nomatch ended⟩
  intro fd p member
  have listed := inv.writes fd p member
  rw [stage] at listed
  exact listed

theorem childInv_exit (j : Nat) (child : Child) : ChildInv j (exit true child) := by
  refine ⟨fun _ _ _ member => absurd member List.not_mem_nil,
    fun _ _ member => absurd member List.not_mem_nil,
    fun _ _ member => absurd member List.not_mem_nil,
    fun going => absurd rfl (going true), List.not_mem_nil, ?_⟩
  intro eof ended
  cases ended
  rfl

/-- A child past its closing has no write end, and its read end is its own. -/
theorem ChildInv.descs (inv : ChildInv j child) (settled : child.stage.settled = true) :
    ∀ desc ∈ child.table.descs, desc = .other ∨ desc = .readEnd j := by
  intro desc member
  obtain ⟨fd, member⟩ := Table.mem_descs.mp member
  cases desc with
  | other => exact Or.inl rfl
  | readEnd p => exact Or.inr (by rw [inv.reads fd p member])
  | writeEnd p =>
      have listed := inv.writes fd p member
      cases stage : child.stage with
      | closing todo =>
          rw [stage] at settled
          cases settled
      | working =>
          rw [stage] at listed
          exact absurd listed List.not_mem_nil
      | exited eof =>
          rw [stage] at listed
          exact absurd listed List.not_mem_nil

/-! ## The table of the parent -/

def Stage.closed (channels : Nat) : Stage → Nat
  | .closing i => i
  | .waiting i => i + 1
  | .stopped => channels
  | _ => 0

def Stage.reaped (channels : Nat) : Stage → Nat
  | .closing i => i
  | .waiting i => i
  | .stopped => channels
  | _ => 0

structure Made (rfd wfd : Nat) (table : Table Desc) (channels pipes : Nat) : Prop where
  pipes : pipes = channels + 1
  read : (rfd, Desc.readEnd channels) ∈ table
  write : (wfd, Desc.writeEnd channels) ∈ table
  readOnly : ∀ fd, (fd, Desc.readEnd channels) ∈ table → fd = rfd
  writeOnly : ∀ fd, (fd, Desc.writeEnd channels) ∈ table → fd = wfd

def Placed (stage : Stage) (table : Table Desc) (channels children pipes : Nat) : Prop :=
  match stage with
  | .loop _ => children = channels ∧ pipes = channels
  | .piped _ rfd wfd => children = channels ∧ Made rfd wfd table channels pipes
  | .forked _ rfd wfd subid =>
      subid = channels ∧ children = channels + 1 ∧ Made rfd wfd table channels pipes
  | .waiting i => children = channels ∧ i < channels
  | _ => children = channels

/-- The parent has the write ends of the channels it has not closed, under the numbers the
channels keep, and the read end of none. -/
structure ParentInv (stage : Stage) (table : Table Desc) (channels : List Channel)
    (children pipes : Nat) : Prop where
  functional : table.Functional
  subids : ∀ (i : Nat) (channel : Channel), channels[i]? = some channel → channel.subid = i
  bounded : ∀ fd p, (fd, Desc.writeEnd p) ∈ table ∨ (fd, Desc.readEnd p) ∈ table → p < pipes
  writes : ∀ fd p, (fd, Desc.writeEnd p) ∈ table → p < channels.length →
    stage.closed channels.length ≤ p ∧ ∃ subid, channels[p]? = some ⟨fd, subid⟩
  reads : ∀ fd p, (fd, Desc.readEnd p) ∈ table → channels.length ≤ p
  has : ∀ (p : Nat) (channel : Channel), channels[p]? = some channel →
    stage.closed channels.length ≤ p → (channel.wfd, Desc.writeEnd p) ∈ table
  placed : Placed stage table channels.length children pipes

theorem ParentInv.pipe {i pipes children : Nat} {table : Table Desc} {channels : List Channel}
    (inv : ParentInv (.loop i) table channels children pipes) :
    ParentInv (.piped i (lowest table.fds) (lowest (table.insert (.readEnd pipes)).fds))
      ((table.insert (.readEnd pipes)).insert (.writeEnd pipes)) channels children
      (pipes + 1) := by
  obtain ⟨sameChildren, samePipes⟩ := inv.placed
  have write : ∀ fd p,
      (fd, Desc.writeEnd p) ∈ (table.insert (.readEnd pipes)).insert (.writeEnd pipes) →
        (fd = lowest (table.insert (Desc.readEnd pipes)).fds ∧ p = pipes) ∨
          (fd, Desc.writeEnd p) ∈ table := by
    intro fd p member
    rcases Table.mem_insert.mp member with ⟨same, new⟩ | member
    · exact Or.inl ⟨same, Desc.writeEnd.inj new⟩
    · rcases Table.mem_insert.mp member with ⟨-, new⟩ | member
      · cases new
      · exact Or.inr member
  have read : ∀ fd p,
      (fd, Desc.readEnd p) ∈ (table.insert (.readEnd pipes)).insert (.writeEnd pipes) →
        (fd = lowest table.fds ∧ p = pipes) ∨ (fd, Desc.readEnd p) ∈ table := by
    intro fd p member
    rcases Table.mem_insert.mp member with ⟨-, new⟩ | member
    · cases new
    · rcases Table.mem_insert.mp member with ⟨same, new⟩ | member
      · exact Or.inl ⟨same, Desc.readEnd.inj new⟩
      · exact Or.inr member
  refine ⟨(inv.functional.insert _).insert _, inv.subids, ?_, ?_, ?_, ?_, sameChildren, ?_⟩
  · intro fd p member
    rcases member with member | member
    · rcases write fd p member with ⟨-, rfl⟩ | before
      · exact Nat.lt_succ_self _
      · exact Nat.lt_succ_of_lt (inv.bounded fd p (Or.inl before))
    · rcases read fd p member with ⟨-, rfl⟩ | before
      · exact Nat.lt_succ_self _
      · exact Nat.lt_succ_of_lt (inv.bounded fd p (Or.inr before))
  · intro fd p member small
    rcases write fd p member with ⟨-, rfl⟩ | before
    · omega
    · exact inv.writes fd p before small
  · intro fd p member
    rcases read fd p member with ⟨-, rfl⟩ | before
    · exact Nat.le_of_eq samePipes.symm
    · exact inv.reads fd p before
  · intro p channel found opened
    exact Table.mem_insert.mpr (Or.inr (Table.mem_insert.mpr
      (Or.inr (inv.has p channel found opened))))
  · rw [← samePipes]
    refine ⟨rfl, ?_, ?_, ?_, ?_⟩
    · exact Table.mem_insert.mpr (Or.inr (Table.mem_insert.mpr (Or.inl ⟨rfl, rfl⟩)))
    · exact Table.mem_insert.mpr (Or.inl ⟨rfl, rfl⟩)
    · intro fd member
      rcases read fd pipes member with ⟨same, -⟩ | before
      · exact same
      · exact absurd (inv.bounded fd pipes (Or.inr before)) (Nat.lt_irrefl _)
    · intro fd member
      rcases write fd pipes member with ⟨same, -⟩ | before
      · exact same
      · exact absurd (inv.bounded fd pipes (Or.inl before)) (Nat.lt_irrefl _)

section

variable {i rfd wfd subid children pipes : Nat} {table : Table Desc} {channels : List Channel}

/-- No channel keeps the number of the new read end. -/
theorem ParentInv.rfd_not_mem {stage : Stage}
    (inv : ParentInv stage table channels children pipes)
    (opened : stage.closed channels.length = 0)
    (made : Made rfd wfd table channels.length pipes) :
    rfd ∉ channels.map Channel.wfd ++ [wfd] := by
  intro member
  rcases List.mem_append.mp member with member | member
  · obtain ⟨channel, inChannels, same⟩ := List.mem_map.mp member
    obtain ⟨p, found⟩ := List.mem_iff_getElem?.mp inChannels
    have writing := inv.has p channel found (opened ▸ Nat.zero_le p)
    rw [same] at writing
    cases inv.functional rfd _ _ writing made.read
  · have writing := made.write
    rw [← List.mem_singleton.mp member] at writing
    cases inv.functional rfd _ _ writing made.read

/-- The new child is to close what it has of write ends: those of the channels and that of
its own pipe. -/
theorem ParentInv.fork (inv : ParentInv (.piped i rfd wfd) table channels children pipes) :
    ChildInv channels.length
      { table := table
        rfd := rfd
        stage := .closing (channels.map Channel.wfd ++ [wfd]) } := by
  obtain ⟨-, made⟩ := inv.placed
  refine ⟨inv.functional, ?_, ?_, fun _ => made.read, inv.rfd_not_mem rfl made,
    fun _ ended => nomatch ended⟩
  · intro fd p member
    have below := inv.bounded fd p (Or.inl member)
    rw [made.pipes] at below
    rcases Nat.lt_succ_iff_lt_or_eq.mp below with earlier | rfl
    · obtain ⟨-, subid, found⟩ := inv.writes fd p member earlier
      have listed : fd ∈ channels.map Channel.wfd :=
        List.mem_map.mpr ⟨_, List.mem_of_getElem? found, rfl⟩
      exact List.mem_append_left _ listed
    · exact List.mem_append_right _ (List.mem_singleton.mpr (made.writeOnly fd member))
  · intro fd p member
    have below := inv.bounded fd p (Or.inr member)
    have above := inv.reads fd p member
    rw [made.pipes] at below
    omega

theorem ParentInv.forked (inv : ParentInv (.piped i rfd wfd) table channels children pipes) :
    ParentInv (.forked i rfd wfd children) table channels (children + 1) pipes := by
  obtain ⟨same, made⟩ := inv.placed
  exact ⟨inv.functional, inv.subids, inv.bounded, inv.writes, inv.reads, inv.has, same,
    congrArg (· + 1) same, made⟩

theorem ParentInv.insertChannel
    (inv : ParentInv (.forked i rfd wfd subid) table channels children pipes) :
    ParentInv (.loop (i + 1)) (table.close rfd) (channels ++ [⟨wfd, subid⟩]) children pipes := by
  obtain ⟨own, sameChildren, made⟩ := inv.placed
  have apart := inv.rfd_not_mem rfl made
  have length : (channels ++ [Channel.mk wfd subid]).length = channels.length + 1 :=
    List.length_append
  refine ⟨inv.functional.close rfd, ?_, ?_, ?_, ?_, ?_, ?_⟩
  · intro p channel found
    rcases getElem?_concat_cases found with before | ⟨rfl, rfl⟩
    · exact inv.subids p channel before
    · exact own
  · intro fd p member
    rcases member with member | member
    · exact inv.bounded fd p (Or.inl (Table.mem_close.mp member).1)
    · exact inv.bounded fd p (Or.inr (Table.mem_close.mp member).1)
  · intro fd p member below
    have before := (Table.mem_close.mp member).1
    refine ⟨Nat.zero_le p, ?_⟩
    rw [length] at below
    rcases Nat.lt_succ_iff_lt_or_eq.mp below with earlier | rfl
    · obtain ⟨-, subid', found⟩ := inv.writes fd p before earlier
      exact ⟨subid', by rw [List.getElem?_append_left earlier, found]⟩
    · rw [made.writeOnly fd before]
      exact ⟨subid, List.getElem?_concat_length⟩
  · intro fd p member
    obtain ⟨before, differs⟩ := Table.mem_close.mp member
    have below := inv.bounded fd p (Or.inr before)
    have above := inv.reads fd p before
    rw [made.pipes] at below
    rw [length]
    rcases Nat.lt_succ_iff_lt_or_eq.mp below with earlier | rfl
    · omega
    · exact absurd (made.readOnly fd before) differs
  · intro p channel found _
    rcases getElem?_concat_cases found with before | ⟨rfl, rfl⟩
    · refine Table.mem_close.mpr ⟨inv.has p channel before (Nat.zero_le p), ?_⟩
      rintro rfl
      exact apart (List.mem_append_left _
        (List.mem_map.mpr ⟨channel, List.mem_of_getElem? before, rfl⟩))
    · refine Table.mem_close.mpr ⟨made.write, ?_⟩
      rintro rfl
      exact apart (List.mem_append_right _ (List.mem_singleton_self _))
  · exact ⟨sameChildren.trans length.symm, made.pipes.trans length.symm⟩

/-- `Start` returns: the loop is over, or `pipe` or `fork` failed. -/
theorem ParentInv.returned {stage : Stage}
    (inv : ParentInv stage table channels children pipes)
    (opened : stage.closed channels.length = 0) (same : children = channels.length) :
    ParentInv .running table channels children pipes := by
  refine ⟨inv.functional, inv.subids, inv.bounded, ?_, inv.reads, ?_, same⟩
  · intro fd p member below
    exact ⟨Nat.zero_le p, (inv.writes fd p member below).2⟩
  · intro p channel found _
    exact inv.has p channel found (opened ▸ Nat.zero_le p)

theorem ParentInv.stop (inv : ParentInv .running table channels children pipes) :
    ParentInv (.closing 0) table channels children pipes :=
  ⟨inv.functional, inv.subids, inv.bounded, inv.writes, inv.reads, inv.has, inv.placed⟩

/-- Closing a channel leaves the write ends of the channels behind it. -/
theorem ParentInv.close {channel : Channel}
    (inv : ParentInv (.closing i) table channels children pipes)
    (found : channels[i]? = some channel) :
    ParentInv (.waiting i) (table.close channel.wfd) channels children pipes := by
  have below : i < channels.length := (List.getElem?_eq_some_iff.mp found).1
  have here := inv.has i channel found (Nat.le_refl i)
  refine ⟨inv.functional.close _, inv.subids, ?_, ?_, ?_, ?_, inv.placed, below⟩
  · intro fd p member
    rcases member with member | member
    · exact inv.bounded fd p (Or.inl (Table.mem_close.mp member).1)
    · exact inv.bounded fd p (Or.inr (Table.mem_close.mp member).1)
  · intro fd p member small
    obtain ⟨before, differs⟩ := Table.mem_close.mp member
    obtain ⟨late, subid', there⟩ := inv.writes fd p before small
    refine ⟨Nat.lt_of_le_of_ne late ?_, subid', there⟩
    intro same
    have here : p = i := same.symm
    rw [here, found] at there
    cases there
    exact differs rfl
  · intro fd p member
    exact inv.reads fd p (Table.mem_close.mp member).1
  · intro p other there late
    have before := inv.has p other there (Nat.le_of_succ_le late)
    refine Table.mem_close.mpr ⟨before, ?_⟩
    intro same
    rw [same] at before
    have same' : p = i := Desc.writeEnd.inj (inv.functional _ _ _ before here)
    rw [Stage.closed, same'] at late
    exact Nat.lt_irrefl i late

theorem ParentInv.stopped (inv : ParentInv (.closing i) table channels children pipes)
    (past : channels.length ≤ i) :
    ParentInv .stopped table channels children pipes := by
  refine ⟨inv.functional, inv.subids, inv.bounded, ?_, inv.reads, ?_, inv.placed⟩
  · intro fd p member small
    exact absurd (Nat.lt_of_le_of_lt (inv.writes fd p member small).1 small)
      (Nat.not_lt.mpr past)
  · intro p channel found late
    exact absurd (List.getElem?_eq_some_iff.mp found).1 (Nat.not_lt.mpr late)

theorem ParentInv.waited (inv : ParentInv (.waiting i) table channels children pipes) :
    ParentInv (.closing (i + 1)) table channels children pipes :=
  ⟨inv.functional, inv.subids, inv.bounded, inv.writes, inv.reads, inv.has, inv.placed.1⟩

end

/-! ## Every interleaving -/

structure Inv (st : State) : Prop where
  parent : ParentInv st.stage st.table st.channels st.children.length st.pipes.length
  children : ∀ (j : Nat) (child : Child), st.children[j]? = some child → ChildInv j child
  reaped : ∀ j < st.stage.reaped st.channels.length,
    ∃ child, st.children[j]? = some child ∧ child.stage = .exited true

theorem inv_start (opened : List Nat) : Inv (start opened) where
  parent := by
    have other : ∀ fd desc, (fd, desc) ∈ (start opened).table → desc = .other := by
      intro fd desc member
      obtain ⟨_, _, same⟩ := List.mem_map.mp member
      exact (Prod.mk.inj same).2.symm
    refine ⟨?_, ?_, ?_, ?_, ?_, ?_, rfl, rfl⟩
    · intro fd one two first second
      exact (other fd one first).trans (other fd two second).symm
    · intro i channel found
      cases found
    · intro fd p member
      rcases member with member | member
      · cases other fd _ member
      · cases other fd _ member
    · intro fd p member
      cases other fd _ member
    · intro fd p member
      cases other fd _ member
    · intro p channel found
      cases found
  children := by
    intro j child found
    cases found
  reaped := by
    intro j below
    cases below

theorem Inv.put {st : State} {old : Child} (inv : Inv st)
    (found : st.children[j]? = some old) (going : ∀ eof, old.stage ≠ .exited eof)
    (new : ChildInv j child) : Inv (ProcessPool.put j child st) := by
  refine ⟨?_, ?_, ?_⟩
  · have length : (ProcessPool.put j child st).children.length = st.children.length :=
      List.length_set
    rw [length]
    exact inv.parent
  · intro k other there
    have below : j < st.children.length := (List.getElem?_eq_some_iff.mp found).1
    by_cases same : j = k
    · rw [ProcessPool.put, ← same, List.getElem?_set_self below] at there
      cases there
      exact same ▸ new
    · rw [ProcessPool.put, List.getElem?_set_ne same] at there
      exact inv.children k other there
  · intro k early
    obtain ⟨other, there, ended⟩ := inv.reaped k early
    have apart : j ≠ k := by
      rintro rfl
      rw [found] at there
      cases there
      exact going true ended
    exact ⟨other, by rw [ProcessPool.put, List.getElem?_set_ne apart, there], ended⟩

theorem Inv.stepChild {st after : State} (inv : Inv st)
    (stepped : ProcessPool.stepChild j st = some after) : Inv after := by
  cases childMove stepped with
  | close found stage =>
      have own := inv.children j _ found
      exact inv.put found (by simp [stage]) (own.closeOne stage)
  | begin found stage =>
      have own := inv.children j _ found
      exact inv.put found (by simp [stage]) (own.work stage)
  | take found stage _ _ =>
      refine ⟨?_, inv.children, inv.reaped⟩
      dsimp only
      rw [List.length_set]
      exact inv.parent
  | @eof child _ found stage _ _ _ =>
      exact inv.put found (by simp [stage]) (childInv_exit j child)
  | fail found stage other =>
      have own := inv.children j _ found
      exact absurd (Table.lookup_of_mem own.functional (own.own (by simp [stage]))) (other j)

theorem Inv.send {st after : State} {i : Nat} (inv : Inv st)
    (sent : ProcessPool.send i st = some after) : Inv after := by
  obtain ⟨-, pipes, length, rfl⟩ := send_eq_some sent
  refine ⟨?_, inv.children, inv.reaped⟩
  dsimp only
  rw [length]
  exact inv.parent

theorem hasExited_iff {st : State} {subid : Nat} :
    hasExited st subid = true ↔
      ∃ child eof, st.children[subid]? = some child ∧ child.stage = .exited eof := by
  unfold hasExited
  cases found : st.children[subid]? with
  | none => simp
  | some child =>
      cases stage : child.stage with
      | closing todo => simp [stage]
      | working => simp [stage]
      | exited eof => simp [stage]

theorem Inv.stepParent {processNum : Int} {fails : Bool} {st after : State} (inv : Inv st)
    (stepped : ProcessPool.stepParent processNum fails st = some after) : Inv after := by
  obtain ⟨parent, children, reaped⟩ := inv
  cases parentMove stepped with
  | pipe stage more =>
      rw [stage] at parent reaped
      refine ⟨?_, children, reaped⟩
      have made := parent.pipe
      simpa [ProcessPool.pipe] using made
  | fork stage =>
      rw [stage] at parent reaped
      refine ⟨?_, ?_, ?_⟩
      · simpa [ProcessPool.fork] using parent.forked
      · intro k child found
        rcases getElem?_concat_cases found with before | ⟨rfl, rfl⟩
        · exact children k child before
        · rw [parent.placed.1]
          exact parent.fork
      · intro k below
        cases below
  | insert stage =>
      rw [stage] at parent reaped
      exact ⟨parent.insertChannel, children, fun k below => by cases below⟩
  | loopEnds stage =>
      rw [stage] at parent reaped
      exact ⟨parent.returned rfl parent.placed.1, children, reaped⟩
  | forkFails stage =>
      rw [stage] at parent reaped
      exact ⟨parent.returned rfl parent.placed.1, children, reaped⟩
  | stop stage =>
      rw [stage] at parent reaped
      exact ⟨parent.stop, children, fun k below => by cases below⟩
  | close stage found =>
      rw [stage] at parent reaped
      exact ⟨parent.close found, children, reaped⟩
  | done stage past =>
      rw [stage] at parent reaped
      refine ⟨parent.stopped past, children, ?_⟩
      intro k below
      exact reaped k (Nat.lt_of_lt_of_le below past)
  | @waited i channel stage found ended =>
      rw [stage] at parent reaped
      refine ⟨parent.waited, children, ?_⟩
      intro k below
      rcases Nat.lt_succ_iff_lt_or_eq.mp below with before | rfl
      · exact reaped k before
      · rw [parent.subids k channel found, hasExited_iff] at ended
        obtain ⟨child, eof, there, exited⟩ := ended
        refine ⟨child, there, ?_⟩
        rw [exited, (children k child there).ended eof exited]

theorem Inv.step {processNum : Int} {st after : State} {event : Event} (inv : Inv st)
    (stepped : ProcessPool.step processNum st event = some after) : Inv after := by
  cases event with
  | parent fails => exact inv.stepParent stepped
  | send i => exact inv.send stepped
  | child j => exact inv.stepChild stepped

theorem Inv.wired {st : State} (inv : Inv st) : Wired st where
  parent := by
    intro running i channel found
    refine ⟨inv.parent.subids i channel found, inv.parent.has i channel found ?_⟩
    rw [running]
    exact Nat.zero_le i
  child := fun j child found settled => (inv.children j child found).descs settled

end LinuxSystemLearning.ProcessPool
