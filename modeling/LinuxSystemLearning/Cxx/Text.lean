import Mathlib.Algebra.Group.Int.Defs
import Mathlib.Algebra.Group.Nat.Defs
import Mathlib.Data.List.Basic
import Mathlib.Data.List.Infix
import Mathlib.Data.List.TakeDrop
import Mathlib.Data.List.TakeWhile
import Mathlib.Data.Nat.Init

/-!
# The C++ text primitives the programs use

`std::string` is a list of bytes.  What follows is the part of `<string>` and
of the `int` conversions that the framing code relies on: `find`, `substr`,
`to_string`, `stoi` with its two exceptions, the narrowing of a `size_t`
expression to `int`, and the appending of a character array, which stops at the
first NUL byte.
-/

set_option autoImplicit false

namespace LinuxSystemLearning.Cxx

abbrev Bytes := List UInt8

def ascii (literal : String) : Bytes := literal.toList.map Char.toUInt8

/-- What ends a call abnormally: an exception of the standard library or of
jsoncpp, or an operation the language leaves undefined. -/
inductive Fault where
  | invalidArgument
  | outOfRange
  | jsonError
  | undefinedBehaviour
  deriving DecidableEq, Repr

theorem bind_eq_ok {α β : Type} {value : Except Fault α}
    {next : α → Except Fault β} {result : β} :
    (value >>= next) = .ok result ↔
      ∃ produced, value = .ok produced ∧ next produced = .ok result := by
  cases value with
  | error fault => simp [bind, Except.bind]
  | ok produced => simp [bind, Except.bind]

def intMin : Int := -2 ^ 31
def intMax : Int := 2 ^ 31 - 1

/-- `int i = e` for a `size_t` expression `e`: the low 32 bits, read as signed. -/
def toInt (value : Int) : Int := value.bmod (2 ^ 32)

/-! ## Searching and cutting -/

/-- `std::string::find`; `none` is `npos`. -/
def find (pattern : Bytes) : Bytes → Option Nat
  | [] => if pattern.isPrefixOf [] then some 0 else none
  | byte :: rest =>
      if pattern.isPrefixOf (byte :: rest) then some 0
      else (find pattern rest).map (· + 1)

/-- `text.substr(pos, count)` for an `int` count.  A negative count becomes a
`size_t` above every string length and takes all there is. -/
def substr (text : Bytes) (pos : Nat) (count : Int) : Bytes :=
  if count < 0 then text.drop pos else (text.drop pos).take count.toNat

/-- What `text += array` appends for a NUL-terminated character array. -/
def cString (array : Bytes) : Bytes := array.takeWhile (· ≠ 0)

theorem nulFree_cString (array : Bytes) : 0 ∉ cString array := by
  intro member
  have letter := List.mem_takeWhile_imp member
  exact absurd letter (by decide)

theorem cString_append {text rest : Bytes} (nulFree : 0 ∉ text) :
    cString (text ++ 0 :: rest) = text := by
  have letters : ∀ byte ∈ text, decide (byte ≠ 0) = true := fun byte member =>
    decide_eq_true fun zero => nulFree (zero ▸ member)
  rw [cString, List.takeWhile_append_of_pos letters, List.takeWhile_cons_of_neg (by decide),
    List.append_nil]

theorem find_eq_some {pattern text : Bytes} {pos : Nat}
    (found : find pattern text = some pos) :
    pattern <+: text.drop pos ∧ ∀ earlier < pos, ¬ pattern <+: text.drop earlier := by
  induction text generalizing pos with
  | nil =>
      simp only [find] at found
      split at found
      · rename_i here
        cases found
        exact ⟨by simpa using here, by simp⟩
      · cases found
  | cons byte rest ih =>
      simp only [find] at found
      split at found
      · rename_i here
        cases found
        exact ⟨by simpa using here, by simp⟩
      · rename_i notHere
        obtain ⟨inner, deeper, rfl⟩ := Option.map_eq_some_iff.mp found
        obtain ⟨here, first⟩ := ih deeper
        refine ⟨by simpa using here, ?_⟩
        intro earlier lt
        cases earlier with
        | zero => simpa using notHere
        | succ earlier => simpa using first earlier (by omega)

theorem exists_find_le {pattern text : Bytes} {pos : Nat}
    (here : pattern <+: text.drop pos) :
    ∃ first ≤ pos, find pattern text = some first := by
  induction text generalizing pos with
  | nil =>
      have empty : pattern = [] := by simpa using here
      exact ⟨0, by omega, by simp [find, empty]⟩
  | cons byte rest ih =>
      by_cases front : pattern <+: byte :: rest
      · exact ⟨0, by omega, by simp [find, front]⟩
      · cases pos with
        | zero => exact absurd (by simpa using here) front
        | succ pos =>
            obtain ⟨first, le, found⟩ := ih (by simpa using here)
            exact ⟨first + 1, by omega, by simp [find, front, found]⟩

theorem find_eq_some_iff {pattern text : Bytes} {pos : Nat} :
    find pattern text = some pos ↔
      pattern <+: text.drop pos ∧
        ∀ earlier < pos, ¬ pattern <+: text.drop earlier := by
  constructor
  · exact find_eq_some
  · intro both
    obtain ⟨here, first⟩ := both
    obtain ⟨pos', le, found⟩ := exists_find_le here
    obtain ⟨here', -⟩ := find_eq_some found
    by_cases same : pos' = pos
    · rw [found, same]
    · exact absurd here' (first pos' (by omega))

/-- A match stays the first match when text is appended. -/
theorem find_append {pattern front : Bytes} {pos : Nat}
    (nonempty : pattern ≠ []) (found : find pattern front = some pos)
    (back : Bytes) : find pattern (front ++ back) = some pos := by
  obtain ⟨here, first⟩ := find_eq_some found
  have inside : pos + pattern.length ≤ front.length := by
    have bound := here.length_le
    have positive := List.length_pos_of_ne_nil nonempty
    rw [List.length_drop] at bound
    omega
  rw [find_eq_some_iff]
  constructor
  · rw [List.drop_append_of_le_length (by omega)]
    exact here.trans (List.prefix_append _ _)
  · intro earlier lt there
    apply first earlier lt
    rw [List.drop_append_of_le_length (by omega)] at there
    apply List.prefix_of_prefix_length_le there (List.prefix_append _ _)
    rw [List.length_drop]
    omega

theorem find_of_append {pattern front back : Bytes} {pos : Nat}
    (nonempty : pattern ≠ [])
    (found : find pattern (front ++ back) = some pos)
    (inside : pos + pattern.length ≤ front.length) :
    find pattern front = some pos := by
  have here := (find_eq_some found).1
  rw [List.drop_append_of_le_length (by omega)] at here
  have early : pattern <+: front.drop pos := by
    apply List.prefix_of_prefix_length_le here (List.prefix_append _ _)
    rw [List.length_drop]
    omega
  obtain ⟨first, -, found'⟩ := exists_find_le early
  have same := (find_append nonempty found' back).symm.trans found
  rw [found', Option.some.inj same]

/-- A text without the first byte of the pattern is passed over. -/
theorem find_skip {byte : UInt8} {pattern front : Bytes} (absent : byte ∉ front)
    (back : Bytes) :
    find (byte :: pattern) (front ++ back) =
      (find (byte :: pattern) back).map (· + front.length) := by
  induction front with
  | nil => simp
  | cons head front ih =>
      rw [List.mem_cons, not_or] at absent
      have differs : ¬ (byte :: pattern).isPrefixOf (head :: (front ++ back)) = true := by
        rw [List.isPrefixOf_iff_prefix]
        exact fun here => absent.1 (List.cons_prefix_cons.mp here).1
      rw [List.cons_append, find, if_neg differs, ih absent.2, Option.map_map]
      rfl

theorem substr_append {front : Bytes} {pos : Nat} {count : Int}
    (nonneg : 0 ≤ count) (inside : pos + count ≤ (front.length : Int))
    (back : Bytes) : substr (front ++ back) pos count = substr front pos count := by
  have notNegative : ¬ count < 0 := by omega
  rw [substr, substr, if_neg notNegative, if_neg notNegative,
    List.drop_append_of_le_length (by omega),
    List.take_append_of_le_length (by rw [List.length_drop]; omega)]

theorem length_substr {text : Bytes} {pos : Nat} {count : Int} :
    (substr text pos count).length =
      if count < 0 then text.length - pos
      else min count.toNat (text.length - pos) := by
  unfold substr
  split
  · rw [List.length_drop]
  · rw [List.length_take, List.length_drop]

/-! ## Decimal numbers -/

def stdToString (value : Nat) : Bytes := (Nat.toDigits 10 value).map Char.toUInt8

def isspace (byte : UInt8) : Bool := byte == 32 || (9 ≤ byte && byte ≤ 13)

/-- `stream >> word`: the word, and what is left of the stream. -/
def extract (stream : Bytes) : Bytes × Bytes :=
  let text := stream.dropWhile isspace
  (text.takeWhile (!isspace ·), text.dropWhile (!isspace ·))

theorem extract_space (stream : Bytes) : extract (32 :: stream) = extract stream := by
  have space : isspace 32 = true := rfl
  simp [extract, space]

theorem extract_word {word : Bytes} (nonempty : word ≠ [])
    (whole : ∀ byte ∈ word, isspace byte = false) (rest : Bytes) :
    extract (word ++ 32 :: rest) = (word, 32 :: rest) := by
  have space : isspace 32 = true := rfl
  have start : (word ++ 32 :: rest).dropWhile isspace = word ++ 32 :: rest := by
    obtain ⟨byte, word, rfl⟩ := List.exists_cons_of_ne_nil nonempty
    rw [List.cons_append, List.dropWhile_cons, whole byte List.mem_cons_self]
    rfl
  have inWord : ∀ byte ∈ word, (!isspace byte) = true := by
    intro byte member
    rw [whole byte member]
    rfl
  rw [extract, start, List.takeWhile_append_of_pos inWord, List.dropWhile_append_of_pos inWord]
  simp [space]

def isdigit (byte : UInt8) : Bool := 48 ≤ byte && byte ≤ 57

/-- The optional sign `strtol` reads: whether it is a minus, and what follows. -/
def splitSign : Bytes → Bool × Bytes
  | [] => (false, [])
  | byte :: rest =>
      if byte = 45 then (true, rest)
      else if byte = 43 then (false, rest)
      else (false, byte :: rest)

def digitsValue (digits : Bytes) : Nat :=
  Nat.ofDigitChars 10 (digits.map Char.ofUInt8) 0

def checkInt (value : Int) : Except Fault Int :=
  if intMin ≤ value ∧ value ≤ intMax then .ok value else .error .outOfRange

/-- `std::stoi`: leading white space, an optional sign, the longest run of
digits; what follows the digits is ignored. -/
def stoi (text : Bytes) : Except Fault Int :=
  let (negative, rest) := splitSign (text.dropWhile isspace)
  let digits := rest.takeWhile isdigit
  if digits.isEmpty then .error .invalidArgument
  else checkInt (if negative then -digitsValue digits else digitsValue digits)

theorem checkInt_eq_ok {value result : Int} :
    checkInt value = .ok result ↔
      result = value ∧ intMin ≤ value ∧ value ≤ intMax := by
  unfold checkInt
  split
  · rename_i range
    simp [range, eq_comm]
  · rename_i range
    simp [range]

theorem stoi_range {text : Bytes} {value : Int} (parsed : stoi text = .ok value) :
    intMin ≤ value ∧ value ≤ intMax := by
  unfold stoi at parsed
  dsimp only at parsed
  split at parsed
  · cases parsed
  · obtain ⟨rfl, range⟩ := checkInt_eq_ok.mp parsed
    exact range

theorem digit_roundtrip {c : Char} (digit : c.isDigit) :
    isdigit c.toUInt8 = true ∧ Char.ofUInt8 c.toUInt8 = c := by
  have range : 48 ≤ c.val.toNat ∧ c.val.toNat ≤ 57 := by
    simpa [Char.isDigit, UInt32.le_iff_toNat_le] using digit
  have low : c.toUInt8.toNat = c.val.toNat := by
    rw [Char.toUInt8, UInt32.toNat_toUInt8]
    omega
  constructor
  · simpa [isdigit, UInt8.le_iff_toNat_le, low] using range
  · refine Char.ext (UInt32.toNat_inj.mp ?_)
    show c.toUInt8.toUInt32.toNat = c.val.toNat
    rw [UInt8.toNat_toUInt32, low]

theorem isdigit_of_mem_stdToString {value : Nat} {byte : UInt8}
    (member : byte ∈ stdToString value) : isdigit byte = true := by
  obtain ⟨c, inDigits, rfl⟩ := List.mem_map.mp member
  have digit := Nat.isDigit_of_mem_toDigits (by omega : 0 < 10) le_rfl inDigits
  exact (digit_roundtrip digit).1

theorem stdToString_ne_nil (value : Nat) : stdToString value ≠ [] := by
  simp [stdToString]

theorem digitsValue_stdToString (value : Nat) :
    digitsValue (stdToString value) = value := by
  have back : ((Nat.toDigits 10 value).map Char.toUInt8).map Char.ofUInt8 =
      Nat.toDigits 10 value := by
    rw [List.map_map]
    refine (List.map_congr_left fun c member => ?_).trans (List.map_id _)
    have digit := Nat.isDigit_of_mem_toDigits (by omega : 0 < 10) le_rfl member
    exact (digit_roundtrip digit).2
  rw [digitsValue, stdToString, back, Nat.ofDigitChars_ten_toDigits]

theorem stdToString_injective : Function.Injective stdToString :=
  Function.LeftInverse.injective digitsValue_stdToString

/-- Reading a decimal number back: nothing of the text is skipped as white space
or as a sign. -/
theorem stoi_stdToString (value : Nat) :
    stoi (stdToString value) = checkInt value := by
  have digits : ∀ byte ∈ stdToString value, isdigit byte = true :=
    fun byte => isdigit_of_mem_stdToString
  have kept : (stdToString value).takeWhile isdigit = stdToString value :=
    List.takeWhile_eq_self_iff.mpr digits
  cases text : stdToString value with
  | nil => exact absurd text (stdToString_ne_nil value)
  | cons first rest =>
      have digit : isdigit first = true := digits first (by simp [text])
      have range : 48 ≤ first.toNat ∧ first.toNat ≤ 57 := by
        simpa [isdigit, UInt8.le_iff_toNat_le] using digit
      have notSpace : isspace first = false := by
        simp [isspace, UInt8.le_iff_toNat_le, ← UInt8.toNat_inj]
        omega
      have notSign : first ≠ 45 ∧ first ≠ 43 := by
        simp only [ne_eq, ← UInt8.toNat_inj]
        constructor <;> simp <;> omega
      rw [text] at kept
      simp only [stoi, List.dropWhile_cons, notSpace, Bool.false_eq_true,
        if_false, splitSign, notSign, kept, List.isEmpty_cons]
      rw [← text, digitsValue_stdToString]

theorem length_stdToString_le {value digits : Nat} (positive : 0 < digits)
    (small : value < 10 ^ digits) : (stdToString value).length ≤ digits := by
  rw [stdToString, List.length_map]
  exact (Nat.length_toDigits_le_iff (by decide) positive).mpr small

end LinuxSystemLearning.Cxx
