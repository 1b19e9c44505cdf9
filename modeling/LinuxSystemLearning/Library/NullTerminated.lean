import Mathlib.Data.List.Basic

/-!
# Arrays that end with `NULL`

An array of pointers whose entries are followed by a `NULL`; `none` stands for it.  Who
reads the array stops there, and if there is none in the array leaves it.
-/

set_option autoImplicit false

namespace LinuxSystemLearning.NullTerminated

universe u

variable {α : Type u}

/-- The entries in front of the first `NULL`, one read behind the other. -/
def entries : List (Option α) → Option (List α)
  | [] => none
  | none :: _ => some []
  | some entry :: slots => (entries slots).map (entry :: ·)

theorem entries_terminated (items : List α) (behind : List (Option α)) :
    entries (items.map some ++ none :: behind) = some items := by
  induction items with
  | nil => rfl
  | cons item items ih =>
      rw [List.map_cons, List.cons_append, entries, ih]
      rfl

theorem findIdx_terminated (items : List α) (behind : List (Option α)) :
    (items.map some ++ none :: behind).findIdx Option.isNone = items.length := by
  induction items with
  | nil => rfl
  | cons item items ih =>
      rw [List.map_cons, List.cons_append, List.findIdx_cons, ih]
      rfl

theorem set_behind (items : List α) (old new : Option α) (behind : List (Option α)) :
    (items.map some ++ old :: behind).set items.length new =
      items.map some ++ new :: behind := by
  induction items with
  | nil => rfl
  | cons item items ih => exact congrArg (some item :: ·) ih

end LinuxSystemLearning.NullTerminated
