import LinuxSystemLearning.Library.Loop
import Mathlib.Data.List.Count

/-!
# The handler of `SIGCHLD`

`WaitAll` calls `waitpid` until it answers 0.  That means that there are children, and that
none of those that are left has exited; without any child the answer is -1, and the loop
goes on.
-/

set_option autoImplicit false

namespace LinuxSystemLearning.ChildSignal

open LinuxSystemLearning.Loop

/-! ## The code -/

/-- A child of the process.  `exitsAt` counts the calls of `waitpid` in the handler that are
made before the child exits; it is 0 for one that exited before, and `none` for one that
goes on running. -/
structure Child where
  pid : Int
  positive : 0 < pid
  exitsAt : Option Nat
  deriving DecidableEq

def Child.exitedBy (calls : Nat) (child : Child) : Bool :=
  child.exitsAt.any fun before => decide (before ≤ calls)

/-- Which of the children that have exited `waitpid` takes. -/
structure Kernel where
  pick : List Child → Option Child
  mem : ∀ {exited : List Child} {child : Child}, pick exited = some child → child ∈ exited
  finds : ∀ {exited : List Child}, exited ≠ [] → pick exited ≠ none

structure Handler where
  calls : Nat
  left : List Child
  reaped : List Child

/-- `waitpid(-1, nullptr, WNOHANG)` -/
def waitpid (kernel : Kernel) (st : Handler) : Int × Handler :=
  match kernel.pick (st.left.filter (·.exitedBy st.calls)) with
  | some child =>
      (child.pid, { st with left := st.left.erase child, reaped := st.reaped ++ [child] })
  | none => (if st.left = [] then -1 else 0, st)

/-- A round of the loop; with -1 it only prints that it failed. -/
def waitAllBody (kernel : Kernel) (st : Handler) : Step Handler Handler :=
  let (n, st) := waitpid kernel st
  if n = 0 then .stop st
  else if n < 0 then .next { st with calls := st.calls + 1 }
  else .next { st with calls := st.calls + 1 }

/-! ## What the handler is for -/

/-- Those that have exited were reaped, and no others. -/
structure ReapedExited (children : List Child) (last : Handler) : Prop where
  all : (last.reaped ++ last.left).Perm children
  exited : ∀ child ∈ last.reaped, child.exitedBy last.calls = true
  running : ∀ child ∈ last.left, child.exitedBy last.calls = false

def Returns (kernel : Kernel) (children : List Child) : Prop :=
  ∃ last, Ends (waitAllBody kernel) ⟨0, children, []⟩ last ∧ ReapedExited children last

/-- In front of some call all that have exited are reaped, and another child is left. -/
def Spared (children : List Child) : Prop :=
  ∃ calls < children.length, children.countP (·.exitedBy calls) ≤ calls

/-! ## One round -/

variable {kernel : Kernel} {st after : Handler} {children : List Child} {calls : Nat}

theorem Child.exitedBy_succ {child : Child} (exited : child.exitedBy calls = true) :
    child.exitedBy (calls + 1) = true := by
  unfold Child.exitedBy at *
  cases time : child.exitsAt with
  | none =>
      rw [time] at exited
      cases exited
  | some before =>
      rw [time] at exited
      have bound : before ≤ calls := of_decide_eq_true exited
      exact decide_eq_true (Nat.le_succ_of_le bound)

/-- A child is reaped, or there is none and nothing happens, or none has exited. -/
inductive Round (st : Handler) : Step Handler Handler → Prop where
  | reap (child : Child) (there : child ∈ st.left) (exited : child.exitedBy st.calls = true) :
      Round st (.next ⟨st.calls + 1, st.left.erase child, st.reaped ++ [child]⟩)
  | fail (none : st.left = []) : Round st (.next { st with calls := st.calls + 1 })
  | stop (some : st.left ≠ []) (running : ∀ child ∈ st.left, child.exitedBy st.calls = false) :
      Round st (.stop st)

theorem round (kernel : Kernel) (st : Handler) : Round st (waitAllBody kernel st) := by
  unfold waitAllBody waitpid
  cases picked : kernel.pick (st.left.filter (·.exitedBy st.calls)) with
  | some child =>
      obtain ⟨there, exited⟩ := List.mem_filter.mp (kernel.mem picked)
      have positive := child.positive
      have nonzero : ¬ child.pid = 0 := by omega
      have nonneg : ¬ child.pid < 0 := by omega
      simp only [if_neg nonzero, if_neg nonneg]
      exact .reap child there exited
  | none =>
      by_cases none : st.left = []
      · simp only [if_pos none]
        exact .fail none
      · simp only [if_neg none, if_true]
        refine .stop none ?_
        intro child there
        refine Bool.eq_false_iff.mpr fun exited => ?_
        exact kernel.finds (List.ne_nil_of_mem (List.mem_filter.mpr ⟨there, exited⟩)) picked

structure Good (children : List Child) (st : Handler) : Prop where
  all : (st.reaped ++ st.left).Perm children
  exited : ∀ child ∈ st.reaped, child.exitedBy st.calls = true
  count : st.reaped.length = st.calls

theorem good_start (children : List Child) : Good children ⟨0, children, []⟩ where
  all := List.Perm.refl children
  exited := nofun
  count := rfl

theorem Good.length (good : Good children st) :
    children.length = st.calls + st.left.length := by
  rw [← good.all.length_eq, List.length_append, good.count]

theorem Good.countP (good : Good children st) : children.countP (·.exitedBy st.calls) =
    st.calls + st.left.countP (·.exitedBy st.calls) := by
  rw [← good.all.countP_eq, List.countP_append, List.countP_eq_length.mpr good.exited, good.count]

theorem Good.reap {child : Child} (good : Good children st) (there : child ∈ st.left)
    (exited : child.exitedBy st.calls = true) :
    Good children ⟨st.calls + 1, st.left.erase child, st.reaped ++ [child]⟩ where
  all := by
    rw [List.append_assoc]
    exact ((List.perm_cons_erase there).symm.append_left st.reaped).trans good.all
  exited := by
    intro other member
    rcases List.mem_append.mp member with before | new
    · exact Child.exitedBy_succ (good.exited other before)
    · rw [List.mem_singleton.mp new]
      exact Child.exitedBy_succ exited
  count := by
    rw [List.length_append, good.count]
    rfl

/-! ## All rounds -/

theorem not_ends_empty (none : st.left = []) (last : Handler) :
    ¬ Ends (waitAllBody kernel) st last := by
  refine not_ends_of_invariant (fun st => st.left = []) ?_ none last
  intro st none
  have taken := round kernel st
  generalize waitAllBody kernel st = step at taken
  cases taken with
  | reap child there exited =>
      rw [none] at there
      cases there
  | fail none => exact ⟨_, rfl, none⟩
  | stop some running => exact absurd none some

theorem Good.last {last : Handler} (good : Good children st)
    (ends : Ends (waitAllBody kernel) st last) :
    Good children last ∧ last.left ≠ [] ∧
      ∀ child ∈ last.left, child.exitedBy last.calls = false := by
  induction ends with
  | @stop st last left =>
      have taken := round kernel st
      rw [left] at taken
      cases taken with
      | stop some running => exact ⟨good, some, running⟩
  | @next st middle last again rest ih =>
      have taken := round kernel st
      rw [again] at taken
      cases taken with
      | reap child there exited => exact ih (good.reap there exited)
      | fail none =>
          have again_none : ({ st with calls := st.calls + 1 } : Handler).left = [] := none
          exact absurd rest (not_ends_empty again_none last)

/-- Until the children that have exited are reaped there is one to reap, and then there is
another one. -/
theorem Good.exists_ends (good : Good children st) {last : Nat} (before : st.calls ≤ last)
    (some : last < children.length) (enough : children.countP (·.exitedBy last) ≤ last) :
    ∃ result, Ends (waitAllBody kernel) st result := by
  refine ends_of_measure (fun st => Good children st ∧ st.calls ≤ last)
    (fun st => st.left.length) ?_ st ⟨good, before⟩
  rintro st after ⟨good, before⟩ again
  have taken := round kernel st
  rw [again] at taken
  cases taken with
  | reap child there exited =>
      have shorter : (st.left.erase child).length < st.left.length := by
        have positive := List.length_pos_of_mem there
        rw [List.length_erase_of_mem there]
        omega
      refine ⟨⟨good.reap there exited, ?_⟩, shorter⟩
      rcases Nat.lt_or_eq_of_le before with earlier | rfl
      · exact earlier
      · have count := good.countP
        have one : 0 < st.left.countP (·.exitedBy st.calls) :=
          List.countP_pos_iff.mpr ⟨child, there, exited⟩
        omega
  | fail none =>
      have length := good.length
      rw [none, List.length_nil] at length
      omega

/-- The handler returns exactly if in front of some call the children that have exited are
reaped and another one is left, and then it has reaped those that have exited. -/
theorem returns_iff (kernel : Kernel) (children : List Child) :
    Returns kernel children ↔ Spared children := by
  constructor
  · rintro ⟨last, ends, -⟩
    obtain ⟨good, some, running⟩ := (good_start children).last ends
    have length := good.length
    have positive := List.length_pos_iff.mpr some
    have none : last.left.countP (·.exitedBy last.calls) = 0 := by
      refine List.countP_eq_zero.mpr fun child there => ?_
      rw [running child there]
      exact Bool.false_ne_true
    refine ⟨last.calls, by omega, ?_⟩
    rw [good.countP, none]
    exact Nat.le_refl _
  · rintro ⟨calls, some, enough⟩
    obtain ⟨last, ends⟩ := (good_start children).exists_ends (Nat.zero_le calls) some enough
    obtain ⟨good, -, running⟩ := (good_start children).last ends
    exact ⟨last, ends, good.all, good.exited, running⟩

/-- If no child exits while the handler runs, one of them has to go on running. -/
theorem spared_iff_of_settled
    (settled : ∀ child ∈ children, child.exitsAt = none ∨ child.exitsAt = some 0) :
    Spared children ↔ ∃ child ∈ children, child.exitsAt = none := by
  have same : ∀ calls, children.countP (·.exitedBy calls) =
      children.countP (·.exitsAt.isSome) := by
    intro calls
    apply List.countP_congr
    intro child member
    rcases settled child member with running | exited
    · simp [Child.exitedBy, running]
    · simp [Child.exitedBy, exited]
  have fewer : Spared children ↔ children.countP (·.exitsAt.isSome) < children.length := by
    constructor
    · rintro ⟨calls, some, enough⟩
      rw [same] at enough
      exact Nat.lt_of_le_of_lt enough some
    · intro less
      exact ⟨_, less, Nat.le_of_eq (same _)⟩
  rw [fewer, List.countP_lt_length_iff]
  simp

def firstExited : Kernel where
  pick := List.head?
  mem := List.mem_of_head?
  finds := fun nonempty none => nonempty (List.head?_eq_none_iff.mp none)

/-- The only child exits, which is what the program does. -/
def onlyChild : Child := ⟨100, by decide, some 0⟩

theorem onlyChild_hangs : ¬ Returns firstExited [onlyChild] := by
  rintro ⟨last, ends, -⟩
  obtain ⟨good, some, running⟩ := (good_start [onlyChild]).last ends
  obtain ⟨child, there⟩ := List.exists_mem_of_ne_nil _ some
  have only := good.all.mem_iff.mp (List.mem_append_right last.reaped there)
  have quiet := running child there
  rw [List.mem_singleton.mp only] at quiet
  cases quiet

end LinuxSystemLearning.ChildSignal
