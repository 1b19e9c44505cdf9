import Mathlib.Data.List.Basic

/-!
# The words of a text

A word is a longest part of a text without a separator.
-/

set_option autoImplicit false

namespace LinuxSystemLearning.Words

universe u

variable {α : Type u} {sep : α → Bool}

def words (sep : α → Bool) (text : List α) : List (List α) :=
  (text.splitOnP sep).filter fun part => !part.isEmpty

@[simp] theorem words_nil : words sep [] = [] := by simp [words]

theorem words_append_sep {mark : α} (separates : sep mark = true) (front back : List α) :
    words sep (front ++ mark :: back) = words sep front ++ words sep back := by
  rw [words, List.splitOnP_append_cons front back separates, List.filter_append]
  rfl

@[simp] theorem words_cons_sep {mark : α} (separates : sep mark = true) (text : List α) :
    words sep (mark :: text) = words sep text := by
  simpa using words_append_sep separates [] text

theorem words_gap_append {gap : List α} (separates : ∀ mark ∈ gap, sep mark = true)
    (text : List α) : words sep (gap ++ text) = words sep text := by
  induction gap with
  | nil => rfl
  | cons mark gap ih =>
      rw [List.cons_append, words_cons_sep (separates mark List.mem_cons_self)]
      exact ih fun other member => separates other (List.mem_cons_of_mem _ member)

theorem words_gap {gap : List α} (separates : ∀ mark ∈ gap, sep mark = true) :
    words sep gap = [] := by
  simpa using words_gap_append separates []

theorem words_word {word : List α} (nonempty : word ≠ [])
    (whole : ∀ element ∈ word, sep element = false) : words sep word = [word] := by
  rw [words, List.splitOnP_eq_singleton whole]
  simp [nonempty]

theorem words_word_cons {word : List α} {mark : α} (nonempty : word ≠ [])
    (whole : ∀ element ∈ word, sep element = false) (separates : sep mark = true)
    (text : List α) : words sep (word ++ mark :: text) = word :: words sep text := by
  rw [words_append_sep separates, words_word nonempty whole]
  rfl

/-- The first element that fails a test, if there is one. -/
theorem exists_cut (test : α → Bool) (text : List α) :
    (∀ element ∈ text, test element = true) ∨
      ∃ front stop back, text = front ++ stop :: back ∧
        (∀ element ∈ front, test element = true) ∧ test stop = false := by
  induction text with
  | nil => exact Or.inl nofun
  | cons element text ih =>
      cases passes : test element with
      | false => exact Or.inr ⟨[], element, text, rfl, nofun, passes⟩
      | true =>
          rcases ih with all | ⟨front, stop, back, rfl, before, fails⟩
          · exact Or.inl (List.forall_mem_cons.mpr ⟨passes, all⟩)
          · exact Or.inr ⟨element :: front, stop, back, rfl,
              List.forall_mem_cons.mpr ⟨passes, before⟩, fails⟩

/-- A text is taken apart word by word: it is a gap, a gap and its last word, or a gap, a
word, a separator and another text. -/
@[elab_as_elim]
theorem wordsInduction (sep : α → Bool) {motive : List α → Prop}
    (blank : ∀ gap : List α, (∀ mark ∈ gap, sep mark = true) → motive gap)
    (last : ∀ gap word : List α, (∀ mark ∈ gap, sep mark = true) → word ≠ [] →
      (∀ element ∈ word, sep element = false) → motive (gap ++ word))
    (more : ∀ (gap word : List α) (mark : α) (text : List α), (∀ mark ∈ gap, sep mark = true) →
      word ≠ [] → (∀ element ∈ word, sep element = false) → sep mark = true → motive text →
        motive (gap ++ (word ++ mark :: text)))
    (text : List α) : motive text := by
  induction length : text.length using Nat.strongRecOn generalizing text with
  | ind bound ih =>
      rcases exists_cut sep text with all | ⟨gap, first, rest, rfl, separates, letter⟩
      · exact blank text all
      · rcases exists_cut (fun element => !sep element) rest with
          all | ⟨front, mark, back, rfl, whole, separator⟩
        · refine last gap (first :: rest) separates (List.cons_ne_nil _ _) ?_
          refine List.forall_mem_cons.mpr ⟨letter, ?_⟩
          exact fun element member => by simpa using all element member
        · have shorter : back.length < bound := by
            simp only [List.length_append, List.length_cons] at length
            omega
          refine more gap (first :: front) mark back separates (List.cons_ne_nil _ _) ?_
            (by simpa using separator) (ih back.length shorter back rfl)
          refine List.forall_mem_cons.mpr ⟨letter, ?_⟩
          exact fun element member => by simpa using whole element member

theorem words_eq_nil_iff {text : List α} :
    words sep text = [] ↔ ∀ element ∈ text, sep element = true := by
  constructor
  · intro none
    induction text using wordsInduction sep with
    | blank gap separates => exact separates
    | last gap word separates nonempty whole =>
        rw [words_gap_append separates, words_word nonempty whole] at none
        cases none
    | more gap word mark text separates nonempty whole separator =>
        rw [words_gap_append separates, words_word_cons nonempty whole separator] at none
        cases none
  · exact words_gap

/-- The words together are the text without the separators. -/
theorem flatten_words (text : List α) :
    (words sep text).flatten = text.filter fun element => !sep element := by
  have noGap : ∀ gap : List α, (∀ mark ∈ gap, sep mark = true) →
      gap.filter (fun element => !sep element) = [] := by
    intro gap separates
    rw [List.filter_eq_nil_iff]
    intro mark member
    simp [separates mark member]
  have allWord : ∀ word : List α, (∀ element ∈ word, sep element = false) →
      word.filter (fun element => !sep element) = word := by
    intro word whole
    rw [List.filter_eq_self]
    intro element member
    simp [whole element member]
  induction text using wordsInduction sep with
  | blank gap separates => rw [words_gap separates, noGap gap separates, List.flatten_nil]
  | last gap word separates nonempty whole =>
      rw [words_gap_append separates, words_word nonempty whole, List.filter_append,
        noGap gap separates, allWord word whole, List.flatten_singleton, List.nil_append]
  | more gap word mark text separates nonempty whole separator ih =>
      rw [words_gap_append separates, words_word_cons nonempty whole separator, List.flatten_cons,
        ih, List.filter_append, List.filter_append, noGap gap separates, allWord word whole,
        List.nil_append, List.filter_cons_of_neg (by simp [separator])]

theorem exists_mem_words_iff {element : α} {text : List α} :
    (∃ word ∈ words sep text, element ∈ word) ↔ element ∈ text ∧ sep element = false := by
  rw [← List.mem_flatten, flatten_words, List.mem_filter, Bool.not_eq_true']

end LinuxSystemLearning.Words
