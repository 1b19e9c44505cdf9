import LinuxSystemLearning.Calculator.Handler

/-!
# Frames

An encoded payload is decoded to itself, and so is a run of encoded payloads cut
anywhere.  `Decode` accepts more than the frames, though: it checks neither the
separator behind the payload nor the shape of the length text, and it gives up on
frames its `int` cannot measure.  `decodes_exactly_iff` states for which buffers
it does decide the frame grammar.
-/

set_option autoImplicit false

namespace LinuxSystemLearning.Calculator

open LinuxSystemLearning.Cxx
open LinuxSystemLearning.Incremental
open Protocol

theorem length_encode (payload : Bytes) :
    (encode payload).length =
      (stdToString payload.length).length + payload.length + 4 := by
  simp [encode, sep]
  omega

theorem encode_ne_nil (payload : Bytes) : encode payload ≠ [] := by
  intro empty
  have size := length_encode payload
  rw [empty, List.length_nil] at size
  omega

theorem encode_append (payload rest : Bytes) :
    encode payload ++ rest =
      stdToString payload.length ++ (sep ++ (payload ++ (sep ++ rest))) := by
  simp [encode]

theorem find_digits (value : Nat) (rest : Bytes) :
    find sep (stdToString value ++ (sep ++ rest)) =
      some (stdToString value).length := by
  rw [find_eq_some_iff]
  constructor
  · rw [List.drop_left]
    exact List.prefix_append _ _
  · intro earlier lt there
    rw [List.drop_append_of_le_length (by omega)] at there
    have digits : ∃ byte tail, (stdToString value).drop earlier = byte :: tail := by
      cases cut : (stdToString value).drop earlier with
      | nil =>
          rw [List.drop_eq_nil_iff] at cut
          omega
      | cons byte tail => exact ⟨byte, tail, rfl⟩
    obtain ⟨byte, tail, cut⟩ := digits
    have digit : isdigit byte = true :=
      isdigit_of_mem_stdToString
        (List.mem_of_mem_drop (cut ▸ List.mem_cons_self))
    rw [cut, List.cons_append, sep, List.cons_prefix_cons] at there
    rw [← there.1] at digit
    exact absurd digit (by decide)

theorem find_encode (payload rest : Bytes) :
    find sep (encode payload ++ rest) =
      some (stdToString payload.length).length := by
  rw [encode_append]
  exact find_digits payload.length _

theorem take_encode (payload rest : Bytes) :
    (encode payload ++ rest).take (stdToString payload.length).length =
      stdToString payload.length := by
  rw [encode_append]
  exact List.take_left

theorem header_encode (payload rest : Bytes)
    (small : (payload.length : Int) ≤ intMax) :
    Header (encode payload ++ rest) (stdToString payload.length)
      payload.length where
  found := find_encode payload rest
  text_eq := (take_encode payload rest).symm
  parsed := by
    rw [stoi_stdToString, checkInt_eq_ok]
    unfold intMin
    exact ⟨rfl, by omega, small⟩

/-- The `int` measures a frame correctly as long as it can. -/
theorem targetLen_encode (payload : Bytes)
    (small : (encode payload).length < 2 ^ 31) :
    targetLen (stdToString payload.length) payload.length =
      (encode payload).length := by
  have size := length_encode payload
  have sum : ((stdToString payload.length).length : Int) + payload.length +
      2 * (sep.length : Nat) = (encode payload).length := by
    simp [sep]
    omega
  rw [targetLen, sum, toInt, Int.bmod_eq_of_le] <;> omega

theorem substr_encode (payload rest : Bytes) :
    substr (encode payload ++ rest)
      ((stdToString payload.length).length + sep.length) payload.length =
        payload := by
  have positive : ¬ (payload.length : Int) < 0 := by omega
  rw [encode_append, ← List.append_assoc, ← List.length_append, substr,
    if_neg positive, List.drop_left, Int.toNat_natCast, List.take_left]

theorem complete_encode (payload rest : Bytes)
    (small : (encode payload).length < 2 ^ 31) :
    ¬ Incomplete (encode payload ++ rest)
      (targetLen (stdToString payload.length) payload.length) := by
  rw [targetLen_encode payload small]
  unfold Incomplete
  rw [List.length_append]
  omega

theorem length_le_intMax {payload : Bytes}
    (small : (encode payload).length < 2 ^ 31) :
    (payload.length : Int) ≤ intMax := by
  have size := length_encode payload
  unfold intMax
  omega

theorem verdict_encode (payload rest : Bytes)
    (small : (encode payload).length < 2 ^ 31) :
    verdict (encode payload ++ rest) = .take payload rest := by
  have header := header_encode payload rest (length_le_intMax small)
  rw [verdict_complete header (complete_encode payload rest small),
    targetLen_encode payload small, substr_encode, Int.toNat_natCast,
    List.drop_left]

/-! ## The frame grammar -/

def StartsWithFrame (buffer : Bytes) : Prop :=
  ∃ payload rest, buffer = encode payload ++ rest

/-- What the frame grammar asks of a call of `Decode`. -/
def DecodesExactly (buffer : Bytes) : Prop :=
  ∀ package,
    (∀ payload rest, buffer = encode payload ++ rest →
      decode buffer package = .ok ⟨true, rest, payload⟩) ∧
    (¬ StartsWithFrame buffer →
      decode buffer package = .ok ⟨false, buffer, package⟩)

/-- The length text is the plain decimal text of the number it is read as, and a
separator stands right behind that many bytes. -/
def Framed (buffer text : Bytes) (len : Int) : Prop :=
  text = stdToString len.toNat ∧
    sep <+: buffer.drop (text.length + sep.length + len.toNat)

theorem framed_encode {buffer text payload rest : Bytes} {len : Int}
    (header : Header buffer text len) (frame : buffer = encode payload ++ rest) :
    text = stdToString payload.length ∧ len = payload.length := by
  have sameLength : text.length = (stdToString payload.length).length := by
    have found := header.found
    rw [frame, find_encode] at found
    exact (Option.some.inj found).symm
  have same : text = stdToString payload.length := by
    rw [header.text_eq, sameLength, frame, take_encode]
  have parsed := header.parsed
  rw [same, stoi_stdToString, checkInt_eq_ok] at parsed
  exact ⟨same, parsed.1⟩

theorem framed_iff {buffer text : Bytes} {len : Int}
    (header : Header buffer text len) :
    Framed buffer text len ↔ StartsWithFrame buffer := by
  constructor
  · intro framed
    obtain ⟨plain, closing, closed⟩ := framed
    obtain ⟨body, opened⟩ := (find_eq_some header.found).1
    have whole : text ++ (sep ++ body) = buffer := by
      rw [opened]
      conv => lhs; lhs; rw [header.text_eq]
      exact List.take_append_drop _ _
    have behind : body.drop len.toNat = sep ++ closing := by
      rw [closed, ← whole, ← List.append_assoc, ← List.drop_drop,
        ← List.length_append, List.drop_left]
    have size : (body.take len.toNat).length = len.toNat := by
      have room := congrArg List.length behind
      simp [sep] at room
      rw [List.length_take]
      omega
    refine ⟨body.take len.toNat, closing, ?_⟩
    rw [encode_append, size, ← plain, ← behind, List.take_append_drop, whole]
  · intro frame
    obtain ⟨payload, rest, frame⟩ := frame
    obtain ⟨rfl, rfl⟩ := framed_encode header frame
    refine ⟨by simp, rest, ?_⟩
    have front : stdToString payload.length ++ sep ++ payload ++ (sep ++ rest) =
        buffer := by
      rw [frame, encode_append]
      simp
    rw [← front, Int.toNat_natCast, ← List.length_append, ← List.length_append,
      List.drop_left]

def DecidesGrammar (buffer : Bytes) : Prop :=
  ∀ pos, find sep buffer = some pos →
    ∃ len, stoi (buffer.take pos) = .ok len ∧
      (Framed buffer (buffer.take pos) len → pos + len + 4 < 2 ^ 31) ∧
      (¬ Framed buffer (buffer.take pos) len →
        Incomplete buffer (toInt (pos + len + 4)))

theorem decode_encode (payload rest package : Bytes)
    (small : (encode payload).length < 2 ^ 31) :
    decode (encode payload ++ rest) package = .ok ⟨true, rest, payload⟩ := by
  have header := header_encode payload rest (length_le_intMax small)
  rw [decode_complete header (complete_encode payload rest small),
    targetLen_encode payload small, substr_encode, Int.toNat_natCast,
    List.drop_left]

theorem targetLen_eq (text : Bytes) (len : Int) :
    targetLen text len = toInt (text.length + len + 4) := by
  simp [targetLen, sep]

/-- A frame the `int` cannot measure is taken for an incomplete one. -/
theorem incomplete_of_oversized {buffer : Bytes} {size : Int}
    (large : 2 ^ 31 ≤ size) (bounded : size < 2 ^ 32) :
    Incomplete buffer (toInt size) := by
  left
  rw [toInt, Int.bmod_def]
  split <;> omega

theorem decodesExactly_without_sep {buffer : Bytes}
    (missing : find sep buffer = none) : DecodesExactly buffer := by
  intro package
  refine ⟨?_, fun _ => decode_without_sep missing package⟩
  intro payload rest frame
  rw [frame, find_encode] at missing
  cases missing

theorem not_decodesExactly_of_stoi_error {buffer : Bytes} {pos : Nat} {fault : Fault}
    (found : find sep buffer = some pos)
    (failed : stoi (buffer.take pos) = .error fault) : ¬ DecodesExactly buffer := by
  intro exact
  by_cases frame : StartsWithFrame buffer
  · obtain ⟨payload, rest, frame⟩ := frame
    have accepted := (exact []).1 payload rest frame
    rw [decode_of_stoi_error found failed] at accepted
    cases accepted
  · have refused := (exact []).2 frame
    rw [decode_of_stoi_error found failed] at refused
    cases refused

/-- A frame whose size does not fit an `int` is not accepted. -/
theorem incomplete_of_large {buffer text : Bytes} {len : Int}
    (header : Header buffer text len) (decimal : text = stdToString len.toNat)
    (large : ¬ text.length + len + 4 < 2 ^ 31) :
    Incomplete buffer (targetLen text len) := by
  have range := (stoi_range header.parsed).2
  unfold intMax at range
  have digits : text.length ≤ 10 := by
    rw [decimal]
    exact length_stdToString_le (by omega) (by omega)
  rw [targetLen_eq]
  exact incomplete_of_oversized (by omega) (by omega)

/-- What `Decode` takes off a buffer is complete in it, and small enough to be
measured, if the stream begins with a frame. -/
theorem frame_inside {buffer more package rest payload tail : Bytes}
    (taken : verdict buffer = .take package rest)
    (stream : buffer ++ more = encode payload ++ tail) :
    encode payload <+: buffer ∧ (encode payload).length < 2 ^ 31 := by
  obtain ⟨text, len, header, complete, -, -⟩ := verdict_take taken
  obtain ⟨textEq, lenEq⟩ := framed_encode (header.append more) stream
  have size := length_encode payload
  have small : (encode payload).length < 2 ^ 31 := by
    by_contra large
    apply complete
    apply incomplete_of_large header
    · rw [lenEq, Int.toNat_natCast]
      exact textEq
    · rw [textEq, lenEq]
      omega
  refine ⟨?_, small⟩
  rw [textEq, lenEq, targetLen_encode payload small] at complete
  have inside : (encode payload).length ≤ buffer.length := by
    unfold Incomplete at complete
    omega
  exact List.prefix_of_prefix_length_le ⟨tail, stream.symm⟩
    (List.prefix_append buffer more) inside

/-- Behind a header that parses the two readings are compared directly. -/
theorem decodesExactly_iff_of_header {buffer text : Bytes} {len : Int}
    (header : Header buffer text len) :
    DecodesExactly buffer ↔
      (Framed buffer text len → text.length + len + 4 < 2 ^ 31) ∧
        (¬ Framed buffer text len → Incomplete buffer (targetLen text len)) := by
  have framed := framed_iff header
  constructor
  · intro exact
    constructor
    · intro starts
      obtain ⟨payload, rest, frame⟩ := framed.mp starts
      have accepted := (exact []).1 payload rest frame
      by_contra large
      rw [decode_incomplete header (incomplete_of_large header starts.1 large)]
        at accepted
      cases accepted
    · intro loose
      have refused := (exact []).2 (fun frame => loose (framed.mpr frame))
      by_contra complete
      rw [decode_complete header complete] at refused
      cases refused
  · intro decides package
    obtain ⟨small, unfinished⟩ := decides
    constructor
    · intro payload rest frame
      obtain ⟨textEq, lenEq⟩ := framed_encode header frame
      have fits := small (framed.mpr ⟨payload, rest, frame⟩)
      have size := length_encode payload
      rw [textEq, lenEq] at fits
      rw [frame]
      exact decode_encode payload rest package (by omega)
    · intro noFrame
      have incomplete := unfinished (fun starts => noFrame (framed.mp starts))
      exact decode_incomplete header incomplete package

theorem decodes_exactly_iff (buffer : Bytes) :
    DecodesExactly buffer ↔ DecidesGrammar buffer := by
  rcases header_cases buffer with missing | ⟨pos, fault, found, failed⟩ |
    ⟨text, len, header⟩
  · apply iff_of_true (decodesExactly_without_sep missing)
    intro pos found
    rw [missing] at found
    cases found
  · apply iff_of_false (not_decodesExactly_of_stoi_error found failed)
    intro decides
    obtain ⟨len, parsed, -⟩ := decides pos found
    rw [failed] at parsed
    cases parsed
  · rw [decodesExactly_iff_of_header header, targetLen_eq]
    constructor
    · intro decides pos found
      rw [header.found] at found
      cases found
      rw [← header.text_eq]
      exact ⟨len, header.parsed, decides⟩
    · intro decides
      obtain ⟨len', parsed, decided⟩ := decides text.length header.found
      rw [← header.text_eq] at parsed decided
      have same := header.parsed.symm.trans parsed
      cases same
      exact decided

/-- The frame `5\r\nhello` closed by something else than a separator: it is
accepted, and the two bytes are cut off with it. -/
theorem accepts_unclosed_frame :
    ¬ DecodesExactly (ascii "5\r\nhelloXX") ∧
      decode (ascii "5\r\nhelloXX") [] = .ok ⟨true, [], ascii "hello"⟩ := by
  have accepted : decode (ascii "5\r\nhelloXX") [] =
      .ok ⟨true, [], ascii "hello"⟩ := by decide
  refine ⟨fun exact => ?_, accepted⟩
  by_cases frame : StartsWithFrame (ascii "5\r\nhelloXX")
  · obtain ⟨payload, rest, frame⟩ := frame
    have framed := (exact []).1 payload rest frame
    rw [accepted] at framed
    cases framed
    revert frame
    decide
  · have refused := (exact []).2 frame
    rw [accepted] at refused
    cases refused

end LinuxSystemLearning.Calculator
