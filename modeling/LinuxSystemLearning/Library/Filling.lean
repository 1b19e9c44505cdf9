import Mathlib.Data.List.Basic
import Mathlib.Data.List.Infix
import Mathlib.Data.List.TakeDrop

/-!
# An array that is filled from the front

Several writers put one text into an array, each of them element by element from the front.
The array then always has a front of the text and blanks behind it, whoever wrote how much.
A reader that goes through the array element by element and stops at the first blank reads
what the array has at the moment it stops: nothing behind its position was there earlier.
-/

set_option autoImplicit false

namespace LinuxSystemLearning.Filling

universe u

variable {α : Type u} {text : List α} {blank : α} {size count : Nat}

/-- The first `count` elements of the text, and blanks. -/
def filled (text : List α) (blank : α) (size count : Nat) : List α :=
  text.take count ++ List.replicate (size - count) blank

theorem length_take_text (within : count ≤ text.length) : (text.take count).length = count := by
  rw [List.length_take, Nat.min_eq_left within]

theorem length_filled (within : count ≤ text.length) (fits : text.length ≤ size) :
    (filled text blank size count).length = size := by
  rw [filled, List.length_append, length_take_text within, List.length_replicate]
  omega

theorem filled_zero : filled text blank size 0 = List.replicate size blank := by
  simp [filled]

theorem getElem?_filled_of_lt {k : Nat} (within : count ≤ text.length) (written : k < count) :
    (filled text blank size count)[k]? = text[k]? := by
  rw [filled, List.getElem?_append_left (by rw [length_take_text within]; exact written),
    List.getElem?_take_of_lt written]

theorem getElem?_filled_of_le {k : Nat} (within : count ≤ text.length) (behind : count ≤ k)
    (inside : k < size) : (filled text blank size count)[k]? = some blank := by
  have taken := length_take_text within
  rw [filled, List.getElem?_append_right (by rw [taken]; exact behind), taken,
    List.getElem?_replicate_of_lt (by omega)]

/-- To write what is there changes nothing. -/
theorem set_filled_of_lt {k : Nat} {element : α} (within : count ≤ text.length)
    (written : k < count) (here : text[k]? = some element) :
    (filled text blank size count).set k element = filled text blank size count := by
  apply List.ext_getElem?
  intro j
  by_cases same : k = j
  · subst same
    have found : (filled text blank size count)[k]? = some element :=
      (getElem?_filled_of_lt within written).trans here
    rw [List.getElem?_set_self (List.getElem?_eq_some_iff.mp found).1, found]
  · rw [List.getElem?_set_ne same]

/-- The writer in front fills one more. -/
theorem set_filled_next {element : α} (fits : text.length ≤ size)
    (here : text[count]? = some element) :
    (filled text blank size count).set count element =
      filled text blank size (count + 1) := by
  obtain ⟨more, value⟩ := List.getElem?_eq_some_iff.mp here
  have taken := length_take_text (Nat.le_of_lt more)
  have room : size - count = (size - (count + 1)) + 1 := by omega
  rw [filled, filled, List.set_append_right _ _ (by rw [taken]), taken, Nat.sub_self, room,
    List.replicate_succ, List.set_cons_zero, List.take_succ_eq_append_getElem more, value,
    List.append_assoc, List.singleton_append]

/-- Who is at or behind the front writes its next element. -/
theorem exists_set_filled {k : Nat} {element : α} (fits : text.length ≤ size)
    (within : count ≤ text.length) (reached : k ≤ count) (here : text[k]? = some element) :
    ∃ more, (filled text blank size count).set k element = filled text blank size more ∧
      count ≤ more ∧ more ≤ text.length ∧ k < more := by
  rcases Nat.lt_or_eq_of_le reached with older | front
  · exact ⟨count, set_filled_of_lt within older here, Nat.le_refl _, within, older⟩
  · subst front
    have more := (List.getElem?_eq_some_iff.mp here).1
    exact ⟨k + 1, set_filled_next fits here, Nat.le_succ _, more, Nat.lt_succ_self _⟩

/-! ## Reading -/

/-- What a reader has gone through is a front of the text and nothing else. -/
structure Scanned (text : List α) (count : Nat) (line : List α) : Prop where
  isFront : line = text.take line.length
  behind : line.length ≤ count

theorem Scanned.nil : Scanned text count [] := ⟨rfl, Nat.zero_le _⟩

theorem Scanned.mono {line : List α} {more : Nat} (scanned : Scanned text count line)
    (grown : count ≤ more) : Scanned text more line :=
  ⟨scanned.isFront, Nat.le_trans scanned.behind grown⟩

variable {line : List α}

/-- The reader finds an element of the text, or it is through and has all that is there. -/
theorem Scanned.next (scanned : Scanned text count line) (fits : text.length < size)
    (within : count ≤ text.length) (nowhere : blank ∉ text) :
    ∃ element, (filled text blank size count)[line.length]? = some element ∧
      ((element = blank ∧ line = text.take count) ∨
        (element ≠ blank ∧ Scanned text count (line ++ [element]))) := by
  rcases Nat.lt_or_eq_of_le scanned.behind with older | front
  · have inside : line.length < text.length := Nat.lt_of_lt_of_le older within
    refine ⟨text[line.length], ?_, .inr ⟨?_, ?_, ?_⟩⟩
    · rw [getElem?_filled_of_lt within older, List.getElem?_eq_getElem inside]
    · exact fun same => nowhere (same ▸ List.getElem_mem inside)
    · rw [List.length_append, List.length_singleton, List.take_succ_eq_append_getElem inside,
        ← scanned.isFront]
    · rw [List.length_append, List.length_singleton]
      exact older
  · refine ⟨blank, getElem?_filled_of_le within (Nat.le_of_eq front.symm) (by omega), .inl ⟨rfl, ?_⟩⟩
    rw [← front]
    exact scanned.isFront

end LinuxSystemLearning.Filling
