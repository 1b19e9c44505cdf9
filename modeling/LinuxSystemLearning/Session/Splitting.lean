import LinuxSystemLearning.Session.Login

/-!
# Messages that are put together and taken apart

The text of a response is its status line, its headers, a blank line and its content, and
`Deserialize` finds them again.  What it returns says only that the first line has
arrived: the loop over the headers is left in the same way at the blank line and at the
end of the text.
-/

set_option autoImplicit false

namespace LinuxSystemLearning.Sessions

open LinuxSystemLearning.Cxx
open LinuxSystemLearning.HttpServer (intToString mem_intToString)

/-! ## The code -/

/-- `Deserialize` with what it returns; `HandlerHttp` does not look at that. -/
def tryDeserialize (text : Bytes) (req : HttpRequest) : Bool × HttpRequest :=
  match getLine text with
  | none => (false, req)
  | some (line, rest) => (true, headerLoop (rest.length + 1) rest { req with reqLine := line })

theorem tryDeserialize_snd (text : Bytes) (req : HttpRequest) :
    (tryDeserialize text req).2 = deserialize text req := by
  unfold tryDeserialize deserialize
  cases getLine text with
  | none => rfl
  | some parts => rfl

def setCode (code : Int) (resp : HttpResponse) : HttpResponse := { resp with statusCode := code }

def setDesc (desc : Bytes) (resp : HttpResponse) : HttpResponse :=
  { resp with statusCodeDesc := desc }

def addContent (content : Bytes) (resp : HttpResponse) : HttpResponse :=
  { resp with respContent := content }

inductive Filling where
  | setCode (code : Int)
  | setDesc (desc : Bytes)
  | addHeader (header : Bytes)
  | addContent (content : Bytes)

def Filling.apply (resp : HttpResponse) : Filling → HttpResponse
  | .setCode code => Sessions.setCode code resp
  | .setDesc desc => Sessions.setDesc desc resp
  | .addHeader header => Sessions.addHeader header resp
  | .addContent content => Sessions.addContent content resp

def built (calls : List Filling) : HttpResponse := calls.foldl Filling.apply .new

/-! ## What was put in -/

def Filling.header : Filling → Option Bytes
  | .addHeader header => some header
  | _ => none

def Filling.content : Filling → Option Bytes
  | .addContent content => some content
  | _ => none

def added (calls : List Filling) : List Bytes := calls.filterMap Filling.header

/-- Each call of `AddContent` replaces what the one before put in. -/
def body (calls : List Filling) : Bytes := ((calls.filterMap Filling.content).getLast?).getD []

def statusText (resp : HttpResponse) : Bytes :=
  ascii "HTTP/1.0" ++ ascii " " ++ intToString resp.statusCode ++ ascii " " ++ resp.statusCodeDesc

/-- A header is a line that is not empty, and a description is one line. -/
def Filling.Whole : Filling → Prop
  | .setDesc desc => find httpSep desc = none
  | .addHeader header => header ≠ [] ∧ find httpSep header = none
  | _ => True

instance (call : Filling) : Decidable call.Whole :=
  match call with
  | .setCode _ => inferInstanceAs (Decidable True)
  | .setDesc desc => inferInstanceAs (Decidable (find httpSep desc = none))
  | .addHeader header => inferInstanceAs (Decidable (header ≠ [] ∧ find httpSep header = none))
  | .addContent _ => inferInstanceAs (Decidable True)

/-! ## Taking a response apart -/

theorem built_concat (calls : List Filling) (call : Filling) :
    built (calls ++ [call]) = call.apply (built calls) := by
  simp [built]

theorem built_respHeader (calls : List Filling) :
    (built calls).respHeader = (added calls).map (· ++ httpSep) := by
  induction calls using List.reverseRecOn with
  | nil => rfl
  | append_singleton calls call ih =>
      have parts : added (calls ++ [call]) = added calls ++ call.header.toList := by
        cases call <;> simp [added, Filling.header]
      rw [built_concat, parts, List.map_append, ← ih]
      cases call with
      | addHeader header => rfl
      | _ => exact (List.append_nil _).symm

theorem built_respContent (calls : List Filling) : (built calls).respContent = body calls := by
  induction calls using List.reverseRecOn with
  | nil => rfl
  | append_singleton calls call ih =>
      have parts : body (calls ++ [call]) = call.content.getD (body calls) := by
        cases call <;> simp [body, Filling.content]
      rw [built_concat, parts, ← ih]
      cases call with
      | addContent content => rfl
      | _ => rfl

theorem built_statusCodeDesc {calls : List Filling} (whole : ∀ call ∈ calls, call.Whole) :
    find httpSep (built calls).statusCodeDesc = none := by
  induction calls using List.reverseRecOn with
  | nil => decide
  | append_singleton calls call ih =>
      have before := ih fun other member => whole other (List.mem_append_left _ member)
      have last := whole call (List.mem_append_right _ (List.mem_singleton_self call))
      rw [built_concat]
      cases call with
      | setDesc desc => exact last
      | _ => exact before

/-- No separator begins in a text without a carriage return. -/
theorem find_httpSep_skip {front : Bytes} (absent : 13 ∉ front) (back : Bytes) :
    find httpSep (front ++ back) = (find httpSep back).map (· + front.length) :=
  find_skip absent back

theorem find_statusText {resp : HttpResponse} (whole : find httpSep resp.statusCodeDesc = none) :
    find httpSep (statusText resp) = none := by
  have front : (13 : UInt8) ∉
      ascii "HTTP/1.0" ++ ascii " " ++ intToString resp.statusCode ++ ascii " " := by
    have digits : (13 : UInt8) ∉ intToString resp.statusCode := by
      intro member
      rcases mem_intToString member with sign | digit
      · exact absurd sign (by decide)
      · exact absurd digit (by decide)
    have word : (13 : UInt8) ∉ ascii "HTTP/1.0" ++ ascii " " := by decide
    have space : (13 : UInt8) ∉ ascii " " := by decide
    rw [List.mem_append, List.mem_append, not_or, not_or]
    exact ⟨⟨word, digits⟩, space⟩
  rw [statusText, find_httpSep_skip front, whole]
  rfl

theorem serialize_built (calls : List Filling) :
    serialize (built calls) =
      requestText (statusText (built calls)) (added calls) (body calls) := by
  have lines : (added calls).flatMap (· ++ httpSep) = (built calls).respHeader.flatten := by
    rw [built_respHeader, List.flatMap_def]
  rw [serialize, requestText, lines, built_respContent]
  simp only [statusLine, statusText, List.append_assoc]

/-- `Deserialize` takes apart what `Serialize` put together: whatever the headers end or
begin with, and whatever is in the content. -/
theorem tryDeserialize_serialize {calls : List Filling} (whole : ∀ call ∈ calls, call.Whole) :
    tryDeserialize (serialize (built calls)) .new =
      (true, { HttpRequest.new with
        reqLine := statusText (built calls)
        reqHeader := added calls
        reqContent := body calls }) := by
  have lines : ∀ line ∈ added calls, line ≠ [] ∧ find httpSep line = none := by
    intro line member
    obtain ⟨call, inCalls, header⟩ := List.mem_filterMap.mp member
    have good := whole call inCalls
    cases call with
    | addHeader text =>
        cases header
        exact good
    | _ => cases header
  have first := find_statusText (built_statusCodeDesc whole)
  rw [serialize_built]
  refine Prod.ext ?_ ?_
  · rw [tryDeserialize, requestText, getLine_line first]
  · rw [tryDeserialize_snd]
    exact deserialize_requestText first (fun line member => (lines line member).1)
      (fun line member => (lines line member).2)

/-- A header that ends in half a separator, one that begins with the other half, and a
content with a blank line in it. -/
def edges : List Filling :=
  [.setCode 404, .addHeader (ascii "A: 1\r"), .setDesc (ascii "Not\rFound\r"),
    .addHeader (ascii "\nB"), .addContent (ascii "x\r\n\r\ny")]

theorem tryDeserialize_serialize_edges :
    tryDeserialize (serialize (built edges)) .new =
      (true, { HttpRequest.new with
        reqLine := ascii "HTTP/1.0 404 Not\rFound\r"
        reqHeader := [ascii "A: 1\r", ascii "\nB"]
        reqContent := ascii "x\r\n\r\ny" }) :=
  tryDeserialize_serialize (by decide)

/-! ## Requests that have arrived -/

def Complete (text : Bytes) : Prop :=
  ∃ line header content, find httpSep line = none ∧
    (∀ field ∈ header, field ≠ [] ∧ find httpSep field = none) ∧
      text = requestText line header content

/-- What `Deserialize` returns says whether the request is there. -/
def Accepted (text : Bytes) : Prop := (tryDeserialize text .new).1 = true ↔ Complete text

theorem blank_inside (header : List Bytes) (content : Bytes) :
    httpSep ++ httpSep <:+: httpSep ++ (header.flatMap (· ++ httpSep) ++ (httpSep ++ content)) := by
  induction header with
  | nil => exact ⟨[], content, by simp⟩
  | cons field header ih =>
      obtain ⟨front, back, parts⟩ := ih
      refine ⟨httpSep ++ field ++ front, back, ?_⟩
      rw [List.flatMap_cons]
      simp only [List.append_assoc] at parts ⊢
      rw [parts]

theorem find_take_eq_none {text : Bytes} {pos : Nat} (found : find httpSep text = some pos) :
    find httpSep (text.take pos) = none := by
  cases early : find httpSep (text.take pos) with
  | none => rfl
  | some earlier =>
      have here := (find_eq_some early).1.length_le
      have nonempty : httpSep ≠ [] := by decide
      have same := find_append nonempty early (text.drop pos)
      rw [List.take_append_drop, found] at same
      cases same
      rw [List.length_drop, List.length_take] at here
      have two : httpSep.length = 2 := rfl
      omega

theorem getLine_eq_some {text line rest : Bytes} (taken : getLine text = some (line, rest)) :
    find httpSep line = none ∧ text = line ++ (httpSep ++ rest) := by
  unfold getLine at taken
  split at taken
  · cases taken
  · rename_i pos found
    cases taken
    have front : substr text 0 pos = text.take pos := by
      rw [substr, if_neg (Int.not_lt.mpr (Int.natCast_nonneg _)), List.drop_zero,
        Int.toNat_natCast]
    rw [front]
    refine ⟨find_take_eq_none found, ?_⟩
    obtain ⟨back, same⟩ := (find_eq_some found).1
    have rest : text.drop (pos + httpSep.length) = back := by
      rw [← List.drop_drop, ← same, List.drop_left]
    rw [rest, same, List.take_append_drop]

theorem find_ne_none {pattern text : Bytes} (inside : pattern <:+: text) :
    find pattern text ≠ none := by
  obtain ⟨front, back, rfl⟩ := inside
  have here : pattern <+: (front ++ pattern ++ back).drop front.length := by
    rw [List.append_assoc, List.drop_left]
    exact List.prefix_append _ _
  obtain ⟨pos, -, found⟩ := exists_find_le here
  rw [found]
  exact Option.some_ne_none pos

theorem getLine_isSome {text : Bytes} :
    (getLine text).isSome = true ↔ find httpSep text ≠ none := by
  unfold getLine
  cases find httpSep text with
  | none => simp
  | some pos => simp

/-- The blank line is not in front of the first separator. -/
theorem blank_after_line {line rest : Bytes} (whole : find httpSep line = none)
    (blank : httpSep ++ httpSep <:+: line ++ (httpSep ++ rest)) :
    httpSep ++ httpSep <:+: httpSep ++ rest := by
  obtain ⟨front, back, parts⟩ := blank
  have here : httpSep ++ httpSep <+: (line ++ (httpSep ++ rest)).drop front.length := by
    rw [← parts, List.append_assoc, List.drop_left]
    exact List.prefix_append _ _
  obtain ⟨pos, early, found⟩ := exists_find_le ((List.prefix_append _ _).trans here)
  have first : pos = line.length := by
    have taken := getLine_line whole rest
    unfold getLine at taken
    rw [found] at taken
    have length := congrArg List.length (Prod.mk.inj (Option.some.inj taken)).2
    have inside := (find_eq_some found).1.length_le
    simp only [List.length_drop, List.length_append] at length inside
    have two : httpSep.length = 2 := rfl
    omega
  rw [show front.length = line.length + (front.length - line.length) by omega,
    ← List.drop_drop, List.drop_left] at here
  exact here.isInfix.trans (List.drop_suffix _ _).isInfix

/-- Behind a separator a blank line begins at once or comes later. -/
theorem blank_cases {text : Bytes} (blank : httpSep ++ httpSep <:+: httpSep ++ text) :
    httpSep <+: text ∨ httpSep ++ httpSep <:+: text := by
  rcases List.infix_cons_iff.mp blank with here | later
  · exact Or.inl ((List.prefix_append_right_inj httpSep).mp here)
  · rcases List.infix_cons_iff.mp later with here | later
    · exact absurd (List.cons_prefix_cons.mp here).1 (by decide)
    · exact Or.inr later

theorem exists_header {text : Bytes} (blank : httpSep ++ httpSep <:+: httpSep ++ text) :
    ∃ (header : List Bytes) (content : Bytes),
      (∀ field ∈ header, field ≠ [] ∧ find httpSep field = none) ∧
      text = header.flatMap (· ++ httpSep) ++ (httpSep ++ content) := by
  rcases blank_cases blank with ⟨content, here⟩ | later
  · exact ⟨[], content, fun _ member => absurd member List.not_mem_nil, here.symm⟩
  · obtain ⟨⟨field, rest⟩, taken⟩ : ∃ parts, getLine text = some parts := by
      rw [← Option.isSome_iff_exists, getLine_isSome]
      exact find_ne_none ((List.prefix_append _ _).isInfix.trans later)
    have shorter := getLine_shorter taken
    obtain ⟨whole, rfl⟩ := getLine_eq_some taken
    by_cases empty : field = []
    · exact ⟨[], rest, fun _ member => absurd member List.not_mem_nil, by rw [empty]; rfl⟩
    · obtain ⟨header, content, good, rfl⟩ := exists_header (blank_after_line whole later)
      refine ⟨field :: header, content, ?_, ?_⟩
      · intro other member
        rcases List.mem_cons.mp member with rfl | later
        · exact ⟨empty, whole⟩
        · exact good other later
      · simp only [List.flatMap_cons, List.append_assoc]
  termination_by text.length

theorem complete_iff {text : Bytes} : Complete text ↔ httpSep ++ httpSep <:+: text := by
  constructor
  · rintro ⟨line, header, content, -, -, rfl⟩
    exact (blank_inside header content).trans (List.suffix_append _ _).isInfix
  · intro blank
    obtain ⟨⟨line, rest⟩, taken⟩ : ∃ parts, getLine text = some parts := by
      rw [← Option.isSome_iff_exists, getLine_isSome]
      exact find_ne_none ((List.prefix_append _ _).isInfix.trans blank)
    obtain ⟨whole, rfl⟩ := getLine_eq_some taken
    obtain ⟨header, content, good, rfl⟩ := exists_header (blank_after_line whole blank)
    exact ⟨line, header, content, whole, good, rfl⟩

theorem tryDeserialize_fst {text : Bytes} :
    (tryDeserialize text .new).1 = true ↔ find httpSep text ≠ none := by
  rw [← getLine_isSome, tryDeserialize]
  cases getLine text with
  | none => simp
  | some parts => simp

/-- What `Deserialize` returns is right exactly if nothing of the request but a part of its
first line has arrived, or its blank line has. -/
theorem accepted_iff (text : Bytes) :
    Accepted text ↔ find httpSep text = none ∨ httpSep ++ httpSep <:+: text := by
  rw [Accepted, tryDeserialize_fst, complete_iff]
  constructor
  · intro same
    by_cases first : find httpSep text = none
    · exact Or.inl first
    · exact Or.inr (same.mp first)
  · rintro (nothing | blank)
    · refine ⟨fun some_line => absurd nothing some_line, ?_⟩
      intro blank
      exact find_ne_none ((List.prefix_append _ _).isInfix.trans blank)
    · exact ⟨fun _ => blank, fun _ => find_ne_none ((List.prefix_append _ _).isInfix.trans blank)⟩

/-- A request that was cut off in its first header. -/
theorem truncated_accepted : ¬ Accepted (ascii "GET / HTTP/1.1\r\nHost: a") := by
  intro accepted
  have complete : Complete (ascii "GET / HTTP/1.1\r\nHost: a") := accepted.mp (by decide)
  exact absurd (complete_iff.mp complete) (by decide)

end LinuxSystemLearning.Sessions
