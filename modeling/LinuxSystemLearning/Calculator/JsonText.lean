import LinuxSystemLearning.Calculator.Protocol
import Mathlib.Data.List.Sort

/-!
# jsoncpp on the two objects of the protocol

A concrete `JsonCpp`: it prints an object of `int` members the way a default
`StreamWriterBuilder` does, members in key order, one to a line behind a tab, and
reads back the texts it prints for a request and for a response.  Everything
else it rejects, which for text that is not JSON is what the real reader does.
-/

set_option autoImplicit false

namespace LinuxSystemLearning.Calculator.JsonText

open LinuxSystemLearning.Cxx

inductive Value where
  | null
  | int (value : Int32)
  | object (members : List (String × Int32))
  deriving DecidableEq, Repr

/-- `operator[]`: a missing member is null, and a null value becomes an object. -/
def member : Value → String → Except Fault Value
  | .object members, key =>
      match members.lookup key with
      | some value => .ok (.int value)
      | none => .ok .null
  | .null, _ => .ok .null
  | .int _, _ => .error .jsonError

def asInt : Value → Except Fault Int32
  | .int value => .ok value
  | .null => .ok 0
  | .object _ => .error .jsonError

def intToString (value : Int32) : Bytes :=
  if value.toInt < 0 then 45 :: stdToString value.toInt.natAbs
  else stdToString value.toInt.natAbs

def closing : Bytes := ascii "\n\x7d"

/-- The text before the value of a member; `opening` is the brace or the comma
in front of it. -/
def label (opening : UInt8) (key : String) : Bytes :=
  opening :: ascii "\n\t\"" ++ ascii key ++ ascii "\" : "

def labels : List String → List Bytes
  | [] => []
  | key :: keys => label 123 key :: keys.map (label 44)

def render (values : List (Bytes × Int32)) : Bytes :=
  (values.map fun entry => entry.1 ++ intToString entry.2).flatten ++ closing

def write (members : List (String × Int32)) : Bytes :=
  let sorted := members.insertionSort fun left right =>
    ascii left.1 ≤ ascii right.1
  render ((labels (sorted.map Prod.fst)).zip (sorted.map Prod.snd))

/-! ## Reading back -/

def readInt (text : Bytes) : Option (Int32 × Bytes) :=
  let (negative, rest) := splitSign text
  let digits := rest.takeWhile isdigit
  let value : Int := if negative then -digitsValue digits else digitsValue digits
  if digits.isEmpty then none
  else some (Int32.ofInt value, rest.dropWhile isdigit)

def readValues : List Bytes → Bytes → Option (List Int32)
  | [], text => if text = closing then some [] else none
  | front :: fronts, text =>
      if front.isPrefixOf text then
        match readInt (text.drop front.length) with
        | none => none
        | some (value, rest) => (readValues fronts rest).map (value :: ·)
      else none

def parse (text : Bytes) : Option Value :=
  match readValues (labels ["oper", "x", "y"]) text with
  | some [oper, x, y] => some (.object [("oper", oper), ("x", x), ("y", y)])
  | _ =>
      match readValues (labels ["code", "result"]) text with
      | some [code, result] =>
          some (.object [("code", code), ("result", result)])
      | _ => none

def jsonText : JsonCpp where
  Value := Value
  parse := parse
  member := member
  asInt := asInt
  write := write

example : write [("x", 10), ("y", -7), ("oper", 43)] =
    ascii "\x7b\n\t\"oper\" : 43,\n\t\"x\" : 10,\n\t\"y\" : -7\n\x7d" := by decide

/-! ## Round trips -/

theorem takeWhile_digits {digits rest : Bytes}
    (allDigits : ∀ byte ∈ digits, isdigit byte = true)
    (ends : ∀ byte ∈ rest.head?, isdigit byte = false) :
    (digits ++ rest).takeWhile isdigit = digits ∧
      (digits ++ rest).dropWhile isdigit = rest := by
  rw [List.takeWhile_append_of_pos allDigits, List.dropWhile_append_of_pos allDigits]
  cases rest with
  | nil => simp
  | cons byte rest =>
      have stops := ends byte (by simp)
      simp [stops]

theorem splitSign_digits {digits rest : Bytes} (nonempty : digits ≠ [])
    (allDigits : ∀ byte ∈ digits, isdigit byte = true) :
    splitSign (digits ++ rest) = (false, digits ++ rest) := by
  cases digits with
  | nil => exact absurd rfl nonempty
  | cons byte tail =>
      have digit := allDigits byte (by simp)
      have minus : byte ≠ 45 := by rintro rfl; simp [isdigit] at digit
      have plus : byte ≠ 43 := by rintro rfl; simp [isdigit] at digit
      simp [splitSign, minus, plus]

theorem readInt_intToString (value : Int32) (rest : Bytes)
    (ends : ∀ byte ∈ rest.head?, isdigit byte = false) :
    readInt (intToString value ++ rest) = some (value, rest) := by
  have digits : ∀ byte ∈ stdToString value.toInt.natAbs, isdigit byte = true :=
    fun byte => isdigit_of_mem_stdToString
  have nonempty := stdToString_ne_nil value.toInt.natAbs
  obtain ⟨taken, dropped⟩ := takeWhile_digits digits ends
  by_cases negative : value.toInt < 0
  · have split : splitSign (intToString value ++ rest) =
        (true, stdToString value.toInt.natAbs ++ rest) := by
      simp [intToString, negative, splitSign]
    have magnitude : -((value.toInt.natAbs : Nat) : Int) = value.toInt := by omega
    simp only [readInt, split, taken, dropped, digitsValue_stdToString, if_true,
      magnitude, Int32.ofInt_toInt, List.isEmpty_iff, nonempty, if_false]
  · have split : splitSign (intToString value ++ rest) =
        (false, stdToString value.toInt.natAbs ++ rest) := by
      simp only [intToString, negative, if_false]
      exact splitSign_digits nonempty digits
    have magnitude : ((value.toInt.natAbs : Nat) : Int) = value.toInt := by omega
    simp only [readInt, split, taken, dropped, digitsValue_stdToString,
      Bool.false_eq_true, magnitude, Int32.ofInt_toInt, List.isEmpty_iff,
      nonempty, if_false]

/-- Labels and the closing brace begin with a byte that ends a number. -/
theorem readValues_render (fronts : List Bytes) (values : List Int32)
    (sameLength : fronts.length = values.length)
    (separate : ∀ front ∈ fronts, ∃ byte tail, front = byte :: tail ∧
      isdigit byte = false) :
    readValues fronts (render (fronts.zip values)) = some values := by
  induction fronts generalizing values with
  | nil =>
      cases values with
      | nil => rfl
      | cons value rest => simp at sameLength
  | cons front fronts ih =>
      cases values with
      | nil => simp at sameLength
      | cons value values =>
          have tailSeparate : ∀ front ∈ fronts, ∃ byte tail,
              front = byte :: tail ∧ isdigit byte = false :=
            fun front member => separate front (by simp [member])
          have rest := ih values (by simpa using sameLength) tailSeparate
          have ends : ∀ byte ∈ (render (fronts.zip values)).head?,
              isdigit byte = false := by
            cases fronts with
            | nil =>
                intro byte first
                have newline : byte = 10 := (Option.some.inj first).symm
                rw [newline]
                rfl
            | cons front' fronts =>
                obtain ⟨byte, tail, rfl, stops⟩ := tailSeparate front' (by simp)
                cases values with
                | nil => simp at sameLength
                | cons value' values => simpa [render] using stops
          have shape : render ((front :: fronts).zip (value :: values)) =
              front ++ (intToString value ++ render (fronts.zip values)) := by
            simp [render]
          rw [shape, readValues]
          simp [readInt_intToString value _ ends, rest]

theorem labels_separate (key : String) (keys : List String) :
    ∀ front ∈ labels (key :: keys), ∃ byte tail, front = byte :: tail ∧
      isdigit byte = false := by
  intro front member
  simp only [labels, List.mem_cons, List.mem_map] at member
  rcases member with rfl | ⟨key', -, rfl⟩
  · exact ⟨123, _, rfl, by decide⟩
  · exact ⟨44, _, rfl, by decide⟩

theorem write_request (x y oper : Int32) :
    write [("x", x), ("y", y), ("oper", oper)] =
      render ((labels ["oper", "x", "y"]).zip [oper, x, y]) := by
  have xBeforeY : ascii "x" ≤ ascii "y" := by decide
  have xBehindOper : ¬ ascii "x" ≤ ascii "oper" := by decide
  have yBehindOper : ¬ ascii "y" ≤ ascii "oper" := by decide
  simp [write, List.insertionSort, List.orderedInsert, xBeforeY, xBehindOper,
    yBehindOper]

theorem write_response (result code : Int32) :
    write [("result", result), ("code", code)] =
      render ((labels ["code", "result"]).zip [code, result]) := by
  have resultBehindCode : ¬ ascii "result" ≤ ascii "code" := by decide
  simp [write, List.insertionSort, List.orderedInsert, resultBehindCode]

theorem parse_request (x y oper : Int32) :
    parse (write [("x", x), ("y", y), ("oper", oper)]) =
      some (.object [("oper", oper), ("x", x), ("y", y)]) := by
  rw [parse, write_request, readValues_render _ _ rfl (labels_separate _ _)]

theorem parse_response (result code : Int32) :
    parse (write [("result", result), ("code", code)]) =
      some (.object [("code", code), ("result", result)]) := by
  have notRequest : readValues (labels ["oper", "x", "y"])
      (render ((labels ["code", "result"]).zip [code, result])) = none := rfl
  rw [parse, write_response, notRequest,
    readValues_render _ _ rfl (labels_separate _ _)]

theorem plain_intToString (value : Int32) :
    0 ∉ intToString value ∧ (intToString value).length ≤ 11 := by
  have bounds : value.toInt.natAbs < 10 ^ 10 := by
    have low := value.le_toInt
    have high := value.toInt_lt
    omega
  have digits : 0 ∉ stdToString value.toInt.natAbs := by
    intro member
    have digit := isdigit_of_mem_stdToString member
    simp [isdigit] at digit
  have short := length_stdToString_le (by omega) bounds
  by_cases negative : value.toInt < 0
  · simp only [intToString, negative, if_true, List.mem_cons, List.length_cons,
      not_or]
    exact ⟨⟨by decide, digits⟩, by omega⟩
  · simp only [intToString, negative, if_false]
    exact ⟨digits, by omega⟩

theorem plain_request (x y oper : Int32) :
    Plain (write [("x", x), ("y", y), ("oper", oper)]) := by
  obtain ⟨xPlain, xShort⟩ := plain_intToString x
  obtain ⟨yPlain, yShort⟩ := plain_intToString y
  obtain ⟨operPlain, operShort⟩ := plain_intToString oper
  rw [write_request]
  constructor
  · simp [render, labels, xPlain, yPlain, operPlain]
    decide
  · simp [render, labels]
    have sizes : (label 123 "oper").length = 12 ∧ (label 44 "x").length = 9 ∧
        (label 44 "y").length = 9 ∧ closing.length = 2 := by decide
    omega

theorem plain_response (result code : Int32) :
    Plain (write [("result", result), ("code", code)]) := by
  obtain ⟨resultPlain, resultShort⟩ := plain_intToString result
  obtain ⟨codePlain, codeShort⟩ := plain_intToString code
  rw [write_response]
  constructor
  · simp [render, labels, resultPlain, codePlain]
    decide
  · simp [render, labels]
    have sizes : (label 123 "code").length = 12 ∧
        (label 44 "result").length = 14 ∧ closing.length = 2 := by decide
    omega

theorem jsonText_parse : jsonText.parse = parse := rfl

theorem jsonText_write : jsonText.write = write := rfl

theorem readMember (members : List (String × Int32)) (key : String)
    (value : Int32) (found : members.lookup key = some value) :
    (jsonText.member (Value.object members) key >>= jsonText.asInt) =
      .ok value := by
  simp [jsonText, member, asInt, found, bind, Except.bind]

theorem jsonText_readsBack : jsonText.ReadsBack where
  request x y oper := by
    refine ⟨Value.object [("oper", oper), ("x", x), ("y", y)], ?_, ?_, ?_, ?_⟩
    · rw [jsonText_parse, jsonText_write]
      exact parse_request x y oper
    · exact readMember _ "x" x (by simp [List.lookup_cons])
    · exact readMember _ "y" y (by simp [List.lookup_cons])
    · exact readMember _ "oper" oper (by simp)
  response result code := by
    refine ⟨Value.object [("code", code), ("result", result)], ?_, ?_, ?_⟩
    · rw [jsonText_parse, jsonText_write]
      exact parse_response result code
    · exact readMember _ "result" result (by simp [List.lookup_cons])
    · exact readMember _ "code" code (by simp)
  requestText x y oper := by
    rw [jsonText_write]
    exact plain_request x y oper
  responseText result code := by
    rw [jsonText_write]
    exact plain_response result code

end LinuxSystemLearning.Calculator.JsonText
