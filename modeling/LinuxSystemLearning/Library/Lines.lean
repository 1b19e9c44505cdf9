import Mathlib.Data.List.Basic

/-!
# The lines of a text

A line ends in a mark, the last one may end with the text.
-/

set_option autoImplicit false

namespace LinuxSystemLearning.Lines

universe u

variable {α : Type u} [DecidableEq α]

def consLine (element : α) : List (List α) → List (List α)
  | [] => [[element]]
  | line :: rest => (element :: line) :: rest

def lines (mark : α) : List α → List (List α)
  | [] => []
  | element :: text =>
      if element = mark then [] :: lines mark text else consLine element (lines mark text)

variable {mark : α} {line : List α}

@[simp] theorem lines_nil : lines mark [] = [] := rfl

theorem lines_append_mark (whole : mark ∉ line) (text : List α) :
    lines mark (line ++ mark :: text) = line :: lines mark text := by
  induction line with
  | nil => simp [lines]
  | cons element line ih =>
      rw [List.mem_cons, not_or] at whole
      rw [List.cons_append, lines, if_neg (Ne.symm whole.1), ih whole.2]
      rfl

omit [DecidableEq α] in
theorem length_flatten_consLine (element : α) (lines : List (List α)) :
    (consLine element lines).flatten.length = lines.flatten.length + 1 := by
  cases lines with
  | nil => rfl
  | cons line lines =>
      simp only [consLine, List.flatten_cons, List.length_append, List.length_cons]
      omega

theorem length_flatten_lines (mark : α) (text : List α) :
    (lines mark text).flatten.length + text.count mark = text.length := by
  induction text with
  | nil => rfl
  | cons element text ih =>
      rw [lines, List.count_cons, List.length_cons]
      by_cases ends : element = mark
      · rw [if_pos ends, List.flatten_cons, List.nil_append, ends, beq_self_eq_true, if_pos rfl]
        omega
      · rw [if_neg ends, length_flatten_consLine, beq_false_of_ne ends, if_neg Bool.false_ne_true]
        omega

omit [DecidableEq α] in
theorem cut_injective {line' rest rest' : List α} (whole : mark ∉ line) (whole' : mark ∉ line')
    (same : line ++ mark :: rest = line' ++ mark :: rest') : line = line' ∧ rest = rest' := by
  induction line generalizing line' with
  | nil =>
      cases line' with
      | nil =>
          cases same
          exact ⟨rfl, rfl⟩
      | cons element line' =>
          cases same
          exact absurd List.mem_cons_self whole'
  | cons element line ih =>
      cases line' with
      | nil =>
          cases same
          exact absurd List.mem_cons_self whole
      | cons element' line' =>
          obtain ⟨first, later⟩ := List.cons.inj same
          obtain ⟨equal, rest⟩ := ih (fun member => whole (List.mem_cons_of_mem _ member))
            (fun member => whole' (List.mem_cons_of_mem _ member)) later
          exact ⟨by rw [first, equal], rest⟩

end LinuxSystemLearning.Lines
