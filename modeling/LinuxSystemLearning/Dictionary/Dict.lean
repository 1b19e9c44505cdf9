import LinuxSystemLearning.Cxx.Text
import LinuxSystemLearning.Library.Lines

/-!
# The dictionary

`LoadDict` reads the lines of the dictionary, the first of several entries for a word stays.
`Translate` logs the translation before anything else, whether there is one or not; the UDP
server gives the word back in its place.
-/

set_option autoImplicit false

namespace LinuxSystemLearning.DictServer

open LinuxSystemLearning.Cxx
open LinuxSystemLearning.Lines

/-! ## The code -/

def sep : Bytes := ascii ":"

def lineFeed : UInt8 := 10

abbrev Dict := List (Bytes × Bytes)

/-- `insert` leaves an entry alone that is there. -/
def insert (en ch : Bytes) (dict : Dict) : Dict :=
  if (dict.lookup en).isSome then dict else dict ++ [(en, ch)]

def loadLine (dict : Dict) (line : Bytes) : Dict :=
  match find sep line with
  | none => dict
  | some pos =>
      let en := substr line 0 pos
      let ch := substr line (pos + sep.length) (-1)
      if en.isEmpty || ch.isEmpty then dict else insert en ch dict

/-- `none` is a file that cannot be opened. -/
def loadDict (file : Option Bytes) (dict : Dict) : Bool × Dict :=
  match file with
  | none => (false, dict)
  | some content => (true, (lines lineFeed content).foldl loadLine dict)

/-- The log dereferences the iterator, and the answer is made of the word and what is found. -/
def translate (answer : Bytes → Bytes → Bytes) (word : Bytes) (dict : Dict) :
    Except Fault Bytes :=
  match dict.lookup word with
  | none => .error .undefinedBehaviour
  | some second => .ok (answer word second)

def udpTranslate : Bytes → Dict → Except Fault Bytes := translate fun word _ => word

def tcpTranslate : Bytes → Dict → Except Fault Bytes := translate fun _ second => second

/-! ## What the answer should be -/

/-- The line has the word in front of its first separator, and the translation behind it. -/
structure Entry (line word translation : Bytes) : Prop where
  split : line = word ++ (sep ++ translation)
  first : ∀ byte ∈ sep, byte ∉ word
  word : word ≠ []
  translation : translation ≠ []

def FirstIn (texts : List Bytes) (word translation : Bytes) : Prop :=
  ∃ front line back, texts = front ++ line :: back ∧ Entry line word translation ∧
    ∀ earlier ∈ front, ∀ other, ¬ Entry earlier word other

def FirstEntry (content word translation : Bytes) : Prop :=
  FirstIn (lines lineFeed content) word translation

/-- The translation of a word that has one, and some answer for any other. -/
def Answered (call : Bytes → Dict → Except Fault Bytes) (content word : Bytes) : Prop :=
  let dict := (loadDict (some content) []).2
  (∀ translation, FirstEntry content word translation → call word dict = .ok translation) ∧
    ((∀ translation, ¬ FirstEntry content word translation) → ∃ text, call word dict = .ok text)

/-! ## One line -/

def colon : UInt8 := 58

variable {line word translation en ch : Bytes} {dict : Dict}

theorem find_split (whole : colon ∉ en) (ch : Bytes) :
    find sep (en ++ colon :: ch) = some en.length := by
  have here : find sep (colon :: ch) = some 0 := rfl
  have skipped : find sep (en ++ colon :: ch) = (find sep (colon :: ch)).map (· + en.length) :=
    find_skip whole (colon :: ch)
  rw [skipped, here, Option.map_some, Nat.zero_add]

theorem find_absent (whole : colon ∉ line) : find sep line = none := by
  have skipped : find sep (line ++ []) = (find sep []).map (· + line.length) :=
    find_skip whole []
  rw [List.append_nil] at skipped
  exact skipped

theorem substr_front (en ch : Bytes) : substr (en ++ colon :: ch) 0 en.length = en := by
  have nonneg : ¬ (en.length : Int) < 0 := by omega
  rw [substr, if_neg nonneg, Int.toNat_natCast, List.drop_zero, List.take_left]

theorem substr_behind (en ch : Bytes) :
    substr (en ++ colon :: ch) (en.length + sep.length) (-1) = ch := by
  have negative : (-1 : Int) < 0 := by decide
  rw [substr, if_pos negative, ← List.drop_drop, List.drop_left]
  rfl

theorem entry_iff (whole : colon ∉ en) : Entry (en ++ colon :: ch) word translation ↔
    word = en ∧ translation = ch ∧ en ≠ [] ∧ ch ≠ [] := by
  constructor
  · intro entry
    have separates : colon ∉ word := entry.first colon List.mem_cons_self
    obtain ⟨rfl, rfl⟩ := cut_injective whole separates entry.split
    exact ⟨rfl, rfl, entry.word, entry.translation⟩
  · rintro ⟨rfl, rfl, nonempty, nonempty'⟩
    refine ⟨rfl, ?_, nonempty, nonempty'⟩
    intro byte member
    rw [List.mem_singleton.mp member]
    exact whole

theorem loadLine_split (whole : colon ∉ en) (ch : Bytes) (dict : Dict) :
    loadLine dict (en ++ colon :: ch) =
      if en.isEmpty || ch.isEmpty then dict else insert en ch dict := by
  rw [loadLine, find_split whole]
  dsimp only
  rw [substr_front, substr_behind]

theorem lookup_insert (en ch word : Bytes) (dict : Dict) : (insert en ch dict).lookup word =
    (dict.lookup word).or (if word = en then some ch else none) := by
  have single : ([(en, ch)] : Dict).lookup word = if word = en then some ch else none := by
    by_cases same : word = en
    · rw [if_pos same, same, List.lookup_cons_self]
    · rw [if_neg same, List.lookup_cons, beq_false_of_ne same]
      rfl
  unfold insert
  split
  · rename_i there
    by_cases same : word = en
    · rw [same, Option.or_eq_left_of_isSome]
      exact there
    · rw [if_neg same, Option.or_none]
  · rw [List.lookup_append, single]

theorem lookup_loadLine (entry : Entry line word translation) (dict : Dict) :
    (loadLine dict line).lookup word = (dict.lookup word).or (some translation) := by
  have separates : colon ∉ word := entry.first colon List.mem_cons_self
  have split : line = word ++ colon :: translation := entry.split
  have full : (word.isEmpty || translation.isEmpty) = false := by
    simp [entry.word, entry.translation]
  rw [split, loadLine_split separates, full, if_neg Bool.false_ne_true, lookup_insert, if_pos rfl]

theorem lookup_loadLine_other (other : ∀ translation, ¬ Entry line word translation)
    (dict : Dict) : (loadLine dict line).lookup word = dict.lookup word := by
  by_cases separated : colon ∈ line
  · obtain ⟨en, ch, rfl, whole⟩ := List.eq_append_cons_of_mem separated
    rw [loadLine_split whole]
    split
    · rfl
    · rename_i full
      simp only [Bool.or_eq_true, List.isEmpty_iff, not_or] at full
      have different : word ≠ en := fun same =>
        other ch ((entry_iff whole).mpr ⟨same, rfl, full⟩)
      rw [lookup_insert, if_neg different, Option.or_none]
  · rw [loadLine, find_absent separated]

/-! ## All lines -/

theorem firstIn_cons {texts : List Bytes} : FirstIn (line :: texts) word translation ↔
    Entry line word translation ∨
      (∀ other, ¬ Entry line word other) ∧ FirstIn texts word translation := by
  constructor
  · rintro ⟨front, middle, back, split, entry, before⟩
    cases front with
    | nil =>
        cases split
        exact Or.inl entry
    | cons earlier front =>
        cases split
        refine Or.inr ⟨before line List.mem_cons_self, front, middle, back, rfl, entry, ?_⟩
        exact fun earlier member => before earlier (List.mem_cons_of_mem _ member)
  · rintro (entry | ⟨other, front, middle, back, rfl, entry, before⟩)
    · exact ⟨[], line, texts, rfl, entry, nofun⟩
    · exact ⟨line :: front, middle, back, rfl, entry, List.forall_mem_cons.mpr ⟨other, before⟩⟩

theorem not_firstIn_nil : ¬ FirstIn [] word translation := by
  rintro ⟨front, line, back, split, -⟩
  exact List.append_ne_nil_of_right_ne_nil _ (List.cons_ne_nil _ _) split.symm

/-- Behind all lines a word has the translation it had, or the first one of the lines. -/
theorem lookup_foldl (texts : List Bytes) (dict : Dict) :
    (texts.foldl loadLine dict).lookup word = some translation ↔
      dict.lookup word = some translation ∨
        dict.lookup word = none ∧ FirstIn texts word translation := by
  induction texts generalizing dict with
  | nil => simp [not_firstIn_nil]
  | cons line texts ih =>
      rw [List.foldl_cons, ih, firstIn_cons]
      by_cases has : ∃ other, Entry line word other
      · obtain ⟨other, entry⟩ := has
        have one : ∀ translation, Entry line word translation ↔ translation = other := by
          intro translation
          constructor
          · intro entry'
            have whole : colon ∉ word := entry.first colon List.mem_cons_self
            have split : line = word ++ colon :: other := entry.split
            rw [split] at entry'
            exact ((entry_iff whole).mp entry').2.1
          · rintro rfl
            exact entry
        rw [lookup_loadLine entry]
        cases dict.lookup word with
        | none => simp [one, eq_comm]
        | some known => simp
      · have none : ∀ other, ¬ Entry line word other := fun other entry => has ⟨other, entry⟩
        rw [lookup_loadLine_other none]
        simp [none]

theorem lookup_loadDict (content : Bytes) :
    ((loadDict (some content) []).2.lookup word = some translation) ↔
      FirstEntry content word translation := by
  rw [loadDict, lookup_foldl]
  simp [FirstEntry]

/-- An answer is right exactly if the word has a translation, and the answer is that one. -/
theorem answered_translate_iff (answer : Bytes → Bytes → Bytes) (content word : Bytes) :
    Answered (translate answer) content word ↔
      ∃ translation, FirstEntry content word translation ∧
        answer word translation = translation := by
  have found : ∀ translation, FirstEntry content word translation →
      translate answer word (loadDict (some content) []).2 = .ok (answer word translation) := by
    intro translation first
    rw [translate, (lookup_loadDict content).mpr first]
  constructor
  · rintro ⟨present, absent⟩
    by_cases has : ∃ translation, FirstEntry content word translation
    · obtain ⟨translation, first⟩ := has
      have same := (found translation first).symm.trans (present translation first)
      exact ⟨translation, first, Except.ok.inj same⟩
    · obtain ⟨text, answered⟩ := absent fun translation first => has ⟨translation, first⟩
      unfold translate at answered
      split at answered
      · cases answered
      · rename_i second there
        exact absurd ⟨second, (lookup_loadDict content).mp there⟩ has
  · rintro ⟨translation, first, right⟩
    refine ⟨?_, fun none => absurd first (none translation)⟩
    intro other first'
    have same : some translation = some other :=
      ((lookup_loadDict content).mpr first).symm.trans ((lookup_loadDict content).mpr first')
    cases same
    rw [found translation first, right]

/-- The TCP server answers right exactly for the words of the dictionary, the UDP server for
those that are their own translation. -/
theorem translates_iff (content word : Bytes) :
    (Answered tcpTranslate content word ↔ ∃ translation, FirstEntry content word translation) ∧
      (Answered udpTranslate content word ↔ FirstEntry content word word) := by
  constructor
  · rw [tcpTranslate, answered_translate_iff]
    simp
  · rw [udpTranslate, answered_translate_iff]
    constructor
    · rintro ⟨translation, first, same⟩
      exact same ▸ first
    · intro first
      exact ⟨word, first, rfl⟩

def apple : Bytes := ascii "apple: a"

/-- A word that is not there, and a word whose translation is not given. -/
theorem translates_wrong :
    ¬ Answered tcpTranslate [] apple ∧ ¬ Answered udpTranslate apple (ascii "apple") := by
  constructor
  · rintro ⟨-, absent⟩
    obtain ⟨text, answered⟩ := absent fun translation => not_firstIn_nil
    cases answered
  · rintro ⟨present, -⟩
    have first : ∀ byte ∈ sep, byte ∉ ascii "apple" := by
      intro byte member
      have same : byte = colon := List.mem_singleton.mp member
      rw [same]
      decide
    have entry : Entry apple (ascii "apple") (ascii " a") :=
      ⟨by decide, first, by decide, by decide⟩
    have answered := present (ascii " a") ⟨[], apple, [], by decide, entry, nofun⟩
    have word : udpTranslate (ascii "apple") (loadDict (some apple) []).2 =
        .ok (ascii "apple") := by decide
    rw [word] at answered
    exact absurd (Except.ok.inj answered) (by decide)

end LinuxSystemLearning.DictServer
