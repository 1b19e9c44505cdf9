import Mathlib.Data.List.Induction

/-!
# Properties of each item of a history

A sequence of calls is a list, and what one call does depends on the calls in front of
it.  `Each` says that every call does well behind those; it is proved with the calls
taken one after the other.
-/

set_option autoImplicit false

namespace LinuxSystemLearning.History

universe u

variable {Item : Type u}

def Each (P : List Item → Item → Prop) (history : List Item) : Prop :=
  ∀ front item back, history = front ++ item :: back → P front item

variable {P Q : List Item → Item → Prop}

theorem each_nil : Each P [] := by
  intro front item back split
  exact absurd split.symm (List.append_ne_nil_of_right_ne_nil _ (List.cons_ne_nil _ _))

theorem each_concat {history : List Item} {last : Item} :
    Each P (history ++ [last]) ↔ Each P history ∧ P history last := by
  constructor
  · intro all
    refine ⟨?_, all history last [] rfl⟩
    intro front item back split
    apply all front item (back ++ [last])
    rw [split, List.append_assoc, List.cons_append]
  · intro both front item back split
    rcases List.eq_nil_or_concat back with rfl | ⟨back, other, rfl⟩
    · obtain ⟨rfl, same⟩ := List.append_inj' split rfl
      cases same
      exact both.2
    · rw [List.concat_eq_append, ← List.cons_append, ← List.append_assoc] at split
      exact both.1 front item back (List.append_inj' split rfl).1

theorem each_and {history : List Item} :
    Each (fun front item => P front item ∧ Q front item) history ↔
      Each P history ∧ Each Q history := by
  constructor
  · intro both
    exact ⟨fun front item back split => (both front item back split).1,
      fun front item back split => (both front item back split).2⟩
  · intro both front item back split
    exact ⟨both.1 front item back split, both.2 front item back split⟩

theorem each_of_forall_mem {good : Item → Prop} {history : List Item}
    (all : ∀ item ∈ history, good item) : Each (fun _ item => good item) history := by
  intro front item back split
  exact all item (split ▸ List.mem_append_right _ List.mem_cons_self)

/-- What holds at the start and is kept by each good item holds behind good items. -/
theorem Each.invariant (Inv : List Item → Prop) (start : Inv [])
    (keeps : ∀ history item, Inv history → Q history item → Inv (history ++ [item]))
    {history : List Item} (all : Each Q history) : Inv history := by
  induction history using List.reverseRecOn with
  | nil => exact start
  | append_singleton history last ih =>
      obtain ⟨before, good⟩ := each_concat.mp all
      exact keeps history last (ih before) good

/-- Where the one property is the other as long as all went well, all items have the one
exactly if all have the other. -/
theorem each_iff (Inv : List Item → Prop) (start : Inv [])
    (keeps : ∀ history item, Inv history → Q history item → Inv (history ++ [item]))
    (same : ∀ history item, Inv history → (P history item ↔ Q history item))
    (history : List Item) : Each P history ↔ Each Q history := by
  induction history using List.reverseRecOn with
  | nil => exact ⟨fun _ => each_nil, fun _ => each_nil⟩
  | append_singleton history last ih =>
      rw [each_concat, each_concat, ih]
      exact and_congr_right fun before => same history last (before.invariant Inv start keeps)

end LinuxSystemLearning.History
