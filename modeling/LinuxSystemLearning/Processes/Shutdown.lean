import LinuxSystemLearning.Library.Progress
import LinuxSystemLearning.Processes.ProcessPool

/-!
# The shutdown of the process pool

From the first `Close` on each step leaves less to be done, and as long as the parent
waits somebody can move: a child that is still closing, the child that is waited for,
which reads what is left in its pipe and then its end, or the parent.
-/

set_option autoImplicit false

namespace LinuxSystemLearning.ProcessPool

open LinuxSystemLearning.FdTable LinuxSystemLearning.Interleaving

variable {j : Nat}

/-! ## Before and behind -/

def Stage.stopping : Stage → Bool
  | .closing _ => true
  | .waiting _ => true
  | .stopped => true
  | _ => false

/-- `CloseAndWait` is over, and the child of each channel has read the end of its pipe. -/
def Reaped (st : State) : Prop :=
  st.stage = .stopped ∧ ∀ i < st.channels.length,
    ∃ child, st.children[i]? = some child ∧ child.stage = .exited true

/-! ## What is left to be done -/

def ChildStage.work : ChildStage → Nat
  | .closing todo => todo.length + 2
  | .working => 1
  | .exited _ => 0

def Stage.work (channels : Nat) : Stage → Nat
  | .closing i => 2 * (channels - i) + 1
  | .waiting i => 2 * (channels - i)
  | _ => 0

/-- The steps that are left to the parent and to the children, and the codes to be read. -/
def workLeft (st : State) : Nat :=
  st.stage.work st.channels.length + (st.children.map fun child => child.stage.work).sum +
    st.pipes.sum

theorem workLeft_put {st : State} {old new : Child} (found : st.children[j]? = some old)
    (less : new.stage.work < old.stage.work) : workLeft (put j new st) < workLeft st := by
  have sum := @sum_map_set_add _ (fun child => child.stage.work) st.children j _ new found
  simp only [workLeft, put]
  omega

/-- A code that is taken out of a pipe is not left to be read. -/
theorem sum_take_lt {pipes : List Nat} {p : Nat} (codes : 0 < pipes.getD p 0) :
    (pipes.set p (pipes.getD p 0 - 1)).sum < pipes.sum := by
  have below : p < pipes.length := by
    by_contra past
    rw [List.getD_eq_getElem?_getD, List.getElem?_eq_none (Nat.not_lt.mp past)] at codes
    exact Nat.lt_irrefl 0 codes
  have here : pipes[p]? = some (pipes.getD p 0) := by
    simp [below]
  have sum := @sum_map_set_add _ id pipes p _ (pipes.getD p 0 - 1) here
  rw [List.map_id, List.map_id, id, id] at sum
  omega

theorem workLeft_stepChild {st after : State} (stepped : stepChild j st = some after) :
    workLeft after < workLeft st ∧ after.stage = st.stage := by
  cases childMove stepped with
  | close found stage =>
      exact ⟨workLeft_put found (by simp [stage, closeOne, ChildStage.work]), rfl⟩
  | begin found stage => exact ⟨workLeft_put found (by simp [stage, ChildStage.work]), rfl⟩
  | take found stage _ codes =>
      refine ⟨?_, rfl⟩
      have less := sum_take_lt codes
      simp only [workLeft]
      omega
  | eof found stage _ _ _ =>
      exact ⟨workLeft_put found (by simp [stage, exit, ChildStage.work]), rfl⟩
  | fail found stage _ =>
      exact ⟨workLeft_put found (by simp [stage, exit, ChildStage.work]), rfl⟩

theorem workLeft_stepParent {processNum : Int} {fails : Bool} {st after : State}
    (stopping : st.stage.stopping = true)
    (stepped : stepParent processNum fails st = some after) :
    workLeft after < workLeft st ∧ after.stage.stopping = true := by
  cases parentMove stepped with
  | close stage found =>
      exact ⟨by simp [workLeft, stage, Stage.work], rfl⟩
  | done stage past =>
      refine ⟨?_, rfl⟩
      simp only [workLeft, stage, Stage.work]
      omega
  | waited stage found ended =>
      have below := (List.getElem?_eq_some_iff.mp found).1
      refine ⟨?_, rfl⟩
      simp only [workLeft, stage, Stage.work]
      omega
  -- all others are moves in front of the first `Close`
  | pipe stage _ | fork stage | insert stage | loopEnds stage | forkFails stage | stop stage =>
      rw [stage] at stopping
      cases stopping

/-- From the first `Close` on, each step leaves less to be done. -/
theorem workLeft_step {processNum : Int} {st after : State} {event : Event}
    (stopping : st.stage.stopping = true) (stepped : step processNum st event = some after) :
    workLeft after < workLeft st ∧ after.stage.stopping = true := by
  cases event with
  | parent fails => exact workLeft_stepParent stopping stepped
  | send i =>
      obtain ⟨running, -⟩ := send_eq_some stepped
      rw [running] at stopping
      cases stopping
  | child j =>
      obtain ⟨less, same⟩ := workLeft_stepChild stepped
      exact ⟨less, same ▸ stopping⟩

/-! ## Somebody can move -/

/-- Where the parent has closed a channel, and every child is past its closing, nobody can
write to the pipe of the channel. -/
theorem Inv.closed {st : State} {i : Nat} (inv : Inv st) (stage : st.stage = .waiting i)
    (settled : ∀ child ∈ st.children, child.stage.settled = true) :
    isOpen (.writeEnd i) st = false := by
  have parent := inv.parent
  rw [stage] at parent
  rw [isOpen, Bool.or_eq_false_iff, decide_eq_false_iff_not, List.any_eq_false]
  constructor
  · intro member
    obtain ⟨fd, member⟩ := Table.mem_descs.mp member
    exact absurd (parent.writes fd i member parent.placed.2).1 (Nat.lt_irrefl i)
  · intro child member has
    obtain ⟨j, found⟩ := List.mem_iff_getElem?.mp member
    rcases (inv.children j child found).descs (settled child member) _
      (of_decide_eq_true has) with other | read
    · cases other
    · cases read

theorem closing_moves {st : State} {child : Child} (found : st.children[j]? = some child)
    (closing : child.stage.settled ≠ true) : ∃ after, stepChild j st = some after := by
  unfold stepChild
  rw [found]
  cases stage : child.stage with
  | closing todo =>
      cases todo with
      | nil => exact ⟨_, by simp only [stage]; rfl⟩
      | cons fd todo => exact ⟨_, by simp only [stage]; rfl⟩
  | working => exact absurd (by rw [stage]; rfl) closing
  | exited eof => exact absurd (by rw [stage]; rfl) closing

/-- Some child can move while the parent waits, or the child it waits for has ended. -/
theorem Inv.waiting_moves (processNum : Int) {st : State} {i : Nat} (inv : Inv st)
    (stage : st.stage = .waiting i) :
    ∃ event after, ProcessPool.step processNum st event = some after := by
  have parent := inv.parent
  rw [stage] at parent
  obtain ⟨length, below⟩ := parent.placed
  by_cases settled : ∀ child ∈ st.children, child.stage.settled = true
  · obtain ⟨channel, channelHere⟩ : ∃ channel, st.channels[i]? = some channel :=
      ⟨_, List.getElem?_eq_getElem below⟩
    obtain ⟨child, found⟩ : ∃ child, st.children[i]? = some child :=
      ⟨_, List.getElem?_eq_getElem (length ▸ below)⟩
    have own := inv.children i child found
    cases childStage : child.stage with
    | closing todo =>
        have past := settled child (List.mem_of_getElem? found)
        rw [childStage] at past
        cases past
    | working =>
        have lookup := Table.lookup_of_mem own.functional (own.own (by simp [childStage]))
        have ended := inv.closed stage settled
        refine ⟨.child i, ?_⟩
        simp only [ProcessPool.step, ProcessPool.stepChild, found, childStage, work, lookup, ended]
        split
        · exact ⟨_, rfl⟩
        · exact ⟨_, rfl⟩
    | exited eof =>
        have ended : hasExited st channel.subid = true := by
          rw [parent.subids i channel channelHere, hasExited_iff]
          exact ⟨child, eof, found, childStage⟩
        refine ⟨.parent false, { st with stage := .closing (i + 1) }, ?_⟩
        simp only [ProcessPool.step, ProcessPool.stepParent, stage, channelHere, ended, if_true]
  · obtain ⟨child, closing⟩ := not_forall.mp settled
    obtain ⟨member, closing⟩ := not_forall.mp closing
    obtain ⟨j, found⟩ := List.mem_iff_getElem?.mp member
    exact ⟨.child j, closing_moves found closing⟩

theorem Inv.reaped_of_stuck {processNum : Int} {st : State} (inv : Inv st)
    (stopping : st.stage.stopping = true)
    (stuck : ∀ event, ProcessPool.step processNum st event = none) : Reaped st := by
  cases stage : st.stage with
  | stopped =>
      refine ⟨stage, ?_⟩
      have reaped := inv.reaped
      rw [stage] at reaped
      exact reaped
  | closing i =>
      have none := stuck (.parent false)
      simp only [ProcessPool.step, ProcessPool.stepParent, stage] at none
      split at none
      · cases none
      · cases none
  | waiting i =>
      obtain ⟨event, after, stepped⟩ := inv.waiting_moves processNum stage
      rw [stuck event] at stepped
      cases stepped
  | _ =>
      rw [stage] at stopping
      cases stopping

/-- For every number of processes and every failure of `pipe` or `fork`: `Start` leaves
the write ends with the parent alone, and `CloseAndWait` comes to its end, each child
having read the end of its pipe. -/
theorem shutdown_completes {processNum : Int} {opened : List Nat} {st : State}
    (reached : Reachable (step processNum) (start opened) st) :
    Wired st ∧ (st.stage.stopping = true → Completes (step processNum) Reaped st) := by
  have inv := reached.invariant Inv (fun _ _ _ inv stepped => inv.step stepped)
    (inv_start opened)
  refine ⟨inv.wired, ?_⟩
  intro stopping
  refine completes_of_work (fun st => Inv st ∧ st.stage.stopping = true) workLeft ?_ ?_ ?_
    ⟨inv, stopping⟩
  · intro st event after both stepped
    exact ⟨both.1.step stepped, (workLeft_step both.2 stepped).2⟩
  · intro st event after both stepped
    exact (workLeft_step both.2 stepped).1
  · intro st both stuck
    exact both.1.reaped_of_stuck both.2 stuck

/-- Two channels, and a third whose `fork` fails; the second child has not begun to close
what it inherited when the parent closes the first channel. -/
def thirdForkFails : List Event :=
  [.parent false, .parent false, .parent false, .parent false, .parent false, .child 0,
    .child 0, .parent false, .parent false, .parent true, .send 0, .parent false]

theorem shutdown_completes_third_fork_fails :
    ∃ st, play (step 3) (start [0, 1, 2]) thirdForkFails = some st ∧
      Wired st ∧ Completes (step 3) Reaped st := by
  have ran : (play (step 3) (start [0, 1, 2]) thirdForkFails).map State.stage =
      some (.closing 0) := by decide
  obtain ⟨st, ran, stage⟩ := Option.map_eq_some_iff.mp ran
  obtain ⟨wired, completes⟩ := shutdown_completes ⟨thirdForkFails, ran⟩
  exact ⟨st, ran, wired, completes (by rw [stage]; rfl)⟩

end LinuxSystemLearning.ProcessPool
