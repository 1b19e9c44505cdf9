import LinuxSystemLearning.Cxx.Text

/-!
# Strings in character arrays

A position stands for a pointer into the array.  What reads or writes outside the array is
undefined and has no result.
-/

set_option autoImplicit false

namespace LinuxSystemLearning.Cxx

/-! ## Reading -/

/-- How many characters in front pass the test, if the array has one that does not. -/
def scan (test : UInt8 → Bool) : Bytes → Option Nat
  | [] => none
  | byte :: rest => if test byte then (scan test rest).map (· + 1) else some 0

def strlen (array : Bytes) : Option Nat := scan (· ≠ 0) array

def stringAt (array : Bytes) (pos : Nat) : Option Bytes :=
  (strlen (array.drop pos)).map (array.drop pos).take

theorem scan_front {test : UInt8 → Bool} {front : Bytes}
    (passes : ∀ byte ∈ front, test byte = true) (rest : Bytes) :
    scan test (front ++ rest) = (scan test rest).map (· + front.length) := by
  induction front with
  | nil => simp
  | cons byte front ih =>
      have later := ih fun other member => passes other (List.mem_cons_of_mem _ member)
      rw [List.cons_append, scan, if_pos (passes byte List.mem_cons_self), later,
        Option.map_map]
      rfl

theorem scan_stop {test : UInt8 → Bool} {front : Bytes} {stop : UInt8}
    (passes : ∀ byte ∈ front, test byte = true) (fails : test stop = false) (rest : Bytes) :
    scan test (front ++ stop :: rest) = some front.length := by
  rw [scan_front passes, scan, fails]
  simp

theorem strlen_text {text : Bytes} (nulFree : 0 ∉ text) (rest : Bytes) :
    strlen (text ++ 0 :: rest) = some text.length := by
  refine scan_stop ?_ rfl rest
  intro byte member
  exact decide_eq_true fun zero => nulFree (zero ▸ member)

theorem stringAt_append {text : Bytes} (nulFree : 0 ∉ text) (front rest : Bytes) :
    stringAt (front ++ (text ++ 0 :: rest)) front.length = some text := by
  rw [stringAt, List.drop_left, strlen_text nulFree, Option.map_some, List.take_left]

theorem exists_string {array : Bytes} (ends : 0 ∈ array) : ∃ rest,
    array = cString array ++ 0 :: rest ∧ stringAt array 0 = some (cString array) := by
  obtain ⟨text, rest, rfl, nulFree⟩ := List.eq_append_cons_of_mem ends
  rw [cString_append nulFree]
  exact ⟨rest, rfl, stringAt_append nulFree [] rest⟩

/-- Without a NUL the string goes on behind the array. -/
theorem stringAt_endless {array : Bytes} (endless : 0 ∉ array) : stringAt array 0 = none := by
  have passes : ∀ byte ∈ array, decide (byte ≠ 0) = true := fun byte member =>
    decide_eq_true fun zero => endless (zero ▸ member)
  have runs : strlen (array ++ []) = _ := scan_front passes []
  rw [List.append_nil] at runs
  rw [stringAt, List.drop_zero, runs]
  rfl

/-! ## `strtok` -/

/-- `saved` is where the next call of `strtok` goes on. -/
structure Tokenizer where
  array : Bytes
  saved : Option Nat

def strtok (pointer : Option Nat) (delim : Bytes) (st : Tokenizer) :
    Option (Option Nat × Tokenizer) := do
  let start ← pointer.or st.saved
  let skipped ← scan (· ∈ delim) (st.array.drop start)
  let first := start + skipped
  if (← st.array[first]?) = 0 then
    some (none, { st with saved := some first })
  else
    let length ← scan (fun byte => byte ≠ 0 ∧ byte ∉ delim) (st.array.drop first)
    let stop := first + length
    if (← st.array[stop]?) = 0 then
      some (some first, { st with saved := some stop })
    else
      some (some first, ⟨st.array.set stop 0, some (stop + 1)⟩)

section Strtok

variable {pointer : Option Nat} {delim : Bytes} {st : Tokenizer} {front gap word text rest : Bytes}

theorem getElem?_behind (front gap : Bytes) (byte : UInt8) (rest : Bytes) :
    (front ++ (gap ++ byte :: rest))[front.length + gap.length]? = some byte := by
  rw [List.getElem?_append_right (Nat.le_add_right _ _), Nat.add_sub_cancel_left,
    List.getElem?_append_right (Nat.le_refl _), Nat.sub_self, List.getElem?_cons_zero]

theorem set_behind (front gap : Bytes) (byte other : UInt8) (rest : Bytes) :
    (front ++ (gap ++ byte :: rest)).set (front.length + gap.length) other =
      front ++ (gap ++ other :: rest) := by
  rw [List.set_append_right _ _ (Nat.le_add_right _ _), Nat.add_sub_cancel_left,
    List.set_append_right _ _ (Nat.le_refl _), Nat.sub_self, List.set_cons_zero]

theorem strtok_blank (array : st.array = front ++ (gap ++ 0 :: rest))
    (begins : pointer.or st.saved = some front.length)
    (proper : 0 ∉ delim) (separates : ∀ byte ∈ gap, byte ∈ delim) :
    strtok pointer delim st =
      some (none, { st with saved := some (front.length + gap.length) }) := by
  have skipped : scan (· ∈ delim) (gap ++ 0 :: rest) = some gap.length :=
    scan_stop (fun byte member => decide_eq_true (separates byte member))
      (decide_eq_false proper) rest
  have byte := getElem?_behind front gap 0 rest
  simp only [strtok, begins, array, List.drop_left, skipped, byte, Option.bind_eq_bind,
    Option.bind_some, if_pos]

/-- A token is found and ends in a NUL, the one that was there or the one written. -/
theorem strtok_token {stop : UInt8} (array : st.array = front ++ (gap ++ (word ++ stop :: text)))
    (begins : pointer.or st.saved = some front.length)
    (separates : ∀ byte ∈ gap, byte ∈ delim) (nonempty : word ≠ [])
    (whole : ∀ byte ∈ word, byte ≠ 0 ∧ byte ∉ delim) (ends : stop = 0 ∨ stop ∈ delim) :
    strtok pointer delim st = some (some (front.length + gap.length),
      ⟨front ++ (gap ++ (word ++ 0 :: text)),
        some (front.length + gap.length + word.length + if stop = 0 then 0 else 1)⟩) := by
  obtain ⟨first, word', rfl⟩ := List.exists_cons_of_ne_nil nonempty
  obtain ⟨notNul, letter⟩ := whole first List.mem_cons_self
  have skipped : scan (· ∈ delim) (gap ++ (first :: word' ++ stop :: text)) = some gap.length :=
    scan_stop (fun byte member => decide_eq_true (separates byte member))
      (decide_eq_false letter) _
  have begun := getElem?_behind front gap first (word' ++ stop :: text)
  have dropped : (front ++ (gap ++ (first :: word' ++ stop :: text))).drop
      (front.length + gap.length) = first :: word' ++ stop :: text := by
    rw [← List.drop_drop, List.drop_left, List.drop_left]
  have counted : scan (fun byte => byte ≠ 0 ∧ byte ∉ delim) (first :: word' ++ stop :: text) =
      some (first :: word').length := by
    refine scan_stop (fun byte member => decide_eq_true (whole byte member)) ?_ text
    rw [decide_eq_false_iff_not, not_and_or, not_not, not_not]
    exact ends
  have found := getElem?_behind (front ++ gap) (first :: word') stop text
  have cut := set_behind (front ++ gap) (first :: word') stop 0 text
  rw [List.length_append, List.append_assoc] at found cut
  simp only [strtok, begins, array, List.drop_left, skipped, Option.bind_eq_bind,
    Option.bind_some, dropped, counted, found]
  rw [List.cons_append, begun, Option.bind_some, if_neg notNul]
  by_cases nul : stop = 0
  · rw [if_pos nul, if_pos nul, nul]
    rfl
  · rw [if_neg nul, if_neg nul]
    rw [List.append_assoc] at cut
    exact congrArg (fun cut => some (some _, Tokenizer.mk cut _)) cut

end Strtok

end LinuxSystemLearning.Cxx
