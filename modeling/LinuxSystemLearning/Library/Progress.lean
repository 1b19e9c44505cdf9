import Mathlib.Algebra.GroupWithZero.Nat
import LinuxSystemLearning.Library.Interleaving

/-!
# Progress

A step that gains nothing uses up some of what is left to do before the next gain, so that a
long run gains something.  Where several parties have work to do, theirs adds up.
-/

set_option autoImplicit false

namespace LinuxSystemLearning.Interleaving

universe u v

variable {State : Type u} {Event : Type v} {step : State → Event → Option State}
  {cond : State → Event → Prop}

/-- The work of several parties, one of which moves. -/
theorem sum_map_set_add {β : Type u} (f : β → Nat) {values : List β} {k : Nat} {old new : β}
    (found : values[k]? = some old) :
    ((values.set k new).map f).sum + f old = (values.map f).sum + f new := by
  induction values generalizing k with
  | nil => cases found
  | cons value values ih =>
      cases k with
      | zero =>
          cases found
          simp only [List.set_cons_zero, List.map_cons, List.sum_cons]
          omega
      | succ k =>
          have rest := ih (k := k) found
          simp only [List.set_cons_succ, List.map_cons, List.sum_cons]
          omega

end LinuxSystemLearning.Interleaving
