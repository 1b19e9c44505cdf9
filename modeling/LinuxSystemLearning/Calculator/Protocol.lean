import LinuxSystemLearning.Calculator.NetCal
import LinuxSystemLearning.Library.Incremental

/-!
# The length-prefixed protocol

`Protocol::Encode`, `Protocol::Decode`, `Protocol::Excute` and the (de)serialisers
of `Request` and `Response`, the same text in the forking and in the reactor
server.  jsoncpp is a parameter: the functions the program calls, each with the
exception it may leave through.
-/

set_option autoImplicit false

namespace LinuxSystemLearning.Calculator

open LinuxSystemLearning.Cxx
open LinuxSystemLearning.Incremental

/-- The calls into jsoncpp.  `parse` is `Json::Reader::parse`, `none` its
`false`; `member` is `operator[]`; `write` is what a `StreamWriter` prints for
the object with the given `int` members. -/
structure JsonCpp where
  Value : Type
  parse : Bytes → Option Value
  member : Value → String → Except Fault Value
  asInt : Value → Except Fault Int32
  write : List (String × Int32) → Bytes

/-- A text the framing carries: no NUL byte, and a length the `int` arithmetic
of `Decode` has room for. -/
def Plain (text : Bytes) : Prop := 0 ∉ text ∧ text.length + 14 < 2 ^ 31

/-- What the program relies on: a text written for one of its two objects is
plain and is read back with the same members. -/
structure JsonCpp.ReadsBack (json : JsonCpp) : Prop where
  request : ∀ x y oper : Int32, ∃ root,
    json.parse (json.write [("x", x), ("y", y), ("oper", oper)]) = some root ∧
      (json.member root "x" >>= json.asInt) = .ok x ∧
      (json.member root "y" >>= json.asInt) = .ok y ∧
      (json.member root "oper" >>= json.asInt) = .ok oper
  response : ∀ result code : Int32, ∃ root,
    json.parse (json.write [("result", result), ("code", code)]) = some root ∧
      (json.member root "result" >>= json.asInt) = .ok result ∧
      (json.member root "code" >>= json.asInt) = .ok code
  requestText : ∀ x y oper : Int32,
    Plain (json.write [("x", x), ("y", y), ("oper", oper)])
  responseText : ∀ result code : Int32,
    Plain (json.write [("result", result), ("code", code)])

namespace Request

def serialize (json : JsonCpp) (req : Request) : Bytes :=
  json.write [("x", req.x), ("y", req.y), ("oper", req.oper.toInt32)]

/-- `none` when the parser rejects the text; the fields are then not assigned. -/
def deserialize (json : JsonCpp) (text : Bytes) :
    Except Fault (Option Request) :=
  match json.parse text with
  | none => .ok none
  | some root => do
      let x ← json.asInt (← json.member root "x")
      let y ← json.asInt (← json.member root "y")
      let oper ← json.asInt (← json.member root "oper")
      return some ⟨x, y, oper.toInt8⟩

end Request

namespace Response

def serialize (json : JsonCpp) (resp : Response) : Bytes :=
  json.write [("result", resp.result), ("code", resp.code)]

def deserialize (json : JsonCpp) (text : Bytes) :
    Except Fault (Option Response) :=
  match json.parse text with
  | none => .ok none
  | some root => do
      let result ← json.asInt (← json.member root "result")
      let code ← json.asInt (← json.member root "code")
      return some ⟨result, code⟩

end Response

namespace Protocol

def sep : Bytes := [13, 10]

def encode (jsonstr : Bytes) : Bytes :=
  stdToString jsonstr.length ++ sep ++ jsonstr ++ sep

structure Decoded where
  ret : Bool
  buffer : Bytes
  package : Bytes
  deriving DecidableEq, Repr

/-- `int target_len`, narrowed from the `size_t` sum. -/
def targetLen (packageLenStr : Bytes) (packageLenInt : Int) : Int :=
  toInt (packageLenStr.length + packageLenInt + 2 * sep.length)

/-- `buffer.size() < target_len`: a negative `target_len` becomes a `size_t`
above every `size()`. -/
def Incomplete (buffer : Bytes) (target : Int) : Prop :=
  target < 0 ∨ (buffer.length : Int) < target

instance (buffer : Bytes) (target : Int) : Decidable (Incomplete buffer target) :=
  inferInstanceAs (Decidable (target < 0 ∨ (buffer.length : Int) < target))

def decode (buffer package : Bytes) : Except Fault Decoded :=
  match find sep buffer with
  | none => .ok ⟨false, buffer, package⟩
  | some pos => do
      let packageLenStr := buffer.take pos
      let packageLenInt ← stoi packageLenStr
      let target := targetLen packageLenStr packageLenInt
      if Incomplete buffer target then
        return ⟨false, buffer, package⟩
      else
        return ⟨true, buffer.drop target.toNat,
          substr buffer (pos + sep.length) packageLenInt⟩

/-- `Excute`; `func` is the `_func` the protocol object was built with. -/
def excute (json : JsonCpp) (func : Request → Except Fault Response)
    (package : Bytes) : Except Fault Bytes := do
  match ← Request.deserialize json package with
  | none => return []
  | some req =>
      let resp ← func req
      return encode (resp.serialize json)

def buildRequestString (json : JsonCpp) (x y : Int32) (oper : Int8) : Bytes :=
  encode ((Request.mk x y oper).serialize json)

/-! ## What one call of `Decode` does -/

/-- The buffer has a first separator, `text` stands before it and reads as the
length `len`. -/
structure Header (buffer text : Bytes) (len : Int) : Prop where
  found : find sep buffer = some text.length
  text_eq : text = buffer.take text.length
  parsed : stoi text = .ok len

theorem decode_without_sep {buffer : Bytes} (missing : find sep buffer = none)
    (package : Bytes) : decode buffer package = .ok ⟨false, buffer, package⟩ := by
  simp [decode, missing]

theorem decode_of_stoi_error {buffer : Bytes} {pos : Nat} {fault : Fault}
    (found : find sep buffer = some pos)
    (failed : stoi (buffer.take pos) = .error fault) (package : Bytes) :
    decode buffer package = .error fault := by
  simp [decode, found, failed, bind, Except.bind]

theorem decode_incomplete {buffer text : Bytes} {len : Int}
    (header : Header buffer text len)
    (incomplete : Incomplete buffer (targetLen text len)) (package : Bytes) :
    decode buffer package = .ok ⟨false, buffer, package⟩ := by
  simp [decode, header.found, ← header.text_eq, header.parsed, incomplete,
    bind, Except.bind, pure, Except.pure]

theorem decode_complete {buffer text : Bytes} {len : Int}
    (header : Header buffer text len)
    (complete : ¬ Incomplete buffer (targetLen text len)) (package : Bytes) :
    decode buffer package =
      .ok ⟨true, buffer.drop (targetLen text len).toNat,
        substr buffer (text.length + sep.length) len⟩ := by
  simp [decode, header.found, ← header.text_eq, header.parsed, complete,
    bind, Except.bind, pure, Except.pure]

theorem sep_ne_nil : sep ≠ [] := by simp [sep]

theorem find_bound {buffer : Bytes} {pos : Nat}
    (found : find sep buffer = some pos) : pos + 2 ≤ buffer.length := by
  have here := (find_eq_some found).1.length_le
  simp [sep] at here
  omega

theorem header_cases (buffer : Bytes) :
    find sep buffer = none ∨
      (∃ pos fault, find sep buffer = some pos ∧
        stoi (buffer.take pos) = .error fault) ∨
      ∃ text len, Header buffer text len := by
  cases found : find sep buffer with
  | none => exact .inl rfl
  | some pos =>
      right
      cases parsed : stoi (buffer.take pos) with
      | error fault => exact .inl ⟨pos, fault, rfl, parsed⟩
      | ok len =>
          have bound := find_bound found
          have size : (buffer.take pos).length = pos := by simp; omega
          exact .inr ⟨buffer.take pos, len,
            ⟨by rw [found, size], by rw [size], parsed⟩⟩

theorem decode_cases {buffer package : Bytes} {decoded : Decoded}
    (run : decode buffer package = .ok decoded) :
    decoded = ⟨false, buffer, package⟩ ∨
      ∃ text len, Header buffer text len ∧
        ¬ Incomplete buffer (targetLen text len) ∧
        decoded = ⟨true, buffer.drop (targetLen text len).toNat,
          substr buffer (text.length + sep.length) len⟩ := by
  rcases header_cases buffer with missing | ⟨pos, fault, found, failed⟩ |
    ⟨text, len, header⟩
  · rw [decode_without_sep missing] at run
    exact .inl (Except.ok.inj run).symm
  · rw [decode_of_stoi_error found failed] at run
    cases run
  · by_cases incomplete : Incomplete buffer (targetLen text len)
    · rw [decode_incomplete header incomplete] at run
      exact .inl (Except.ok.inj run).symm
    · rw [decode_complete header incomplete] at run
      exact .inr ⟨text, len, header, incomplete, (Except.ok.inj run).symm⟩

/-! ## Headers under appending -/

theorem Header.append {buffer text : Bytes} {len : Int}
    (header : Header buffer text len) (back : Bytes) :
    Header (buffer ++ back) text len where
  found := find_append sep_ne_nil header.found back
  text_eq := by
    have bound := find_bound header.found
    rw [List.take_append_of_le_length (by omega), ← header.text_eq]
  parsed := header.parsed

theorem Header.unique {buffer text text' : Bytes} {len len' : Int}
    (header : Header buffer text len) (header' : Header buffer text' len') :
    text = text' ∧ len = len' := by
  have sameLength : text.length = text'.length := by
    have both := header.found.symm.trans header'.found
    exact Option.some.inj both
  have same : text = text' := by
    rw [header.text_eq, header'.text_eq, sameLength]
  subst same
  have parsed := header.parsed.symm.trans header'.parsed
  exact ⟨rfl, Except.ok.inj parsed⟩

/-- The header of a buffer stands already in any prefix that has the separator. -/
theorem Header.of_append {front back text : Bytes} {len : Int}
    (header : Header (front ++ back) text len)
    (inside : text.length + 2 ≤ front.length) : Header front text len where
  found := find_of_append sep_ne_nil header.found (by simpa [sep] using inside)
  text_eq := by
    have text_eq := header.text_eq
    rwa [List.take_append_of_le_length (by omega)] at text_eq
  parsed := header.parsed

theorem Header.front_cases {front back text : Bytes} {len : Int}
    (header : Header (front ++ back) text len) :
    find sep front = none ∨ Header front text len := by
  cases found : find sep front with
  | none => exact .inl rfl
  | some pos =>
      right
      have found' := find_append sep_ne_nil found back
      rw [header.found] at found'
      cases found'
      exact header.of_append (find_bound found)

end Protocol

end LinuxSystemLearning.Calculator
