import LinuxSystemLearning.Calculator.Server
import LinuxSystemLearning.Reactor.Kernel

/-!
# How TCP cuts the bytes

Two segmentations of the same bytes show the same to the outside only for some
byte strings.  `_inbuffer += buffer` appends a C string, so a piece loses what
stands behind its first NUL byte; and a header with a negative length hands out
whatever has arrived so far.  `insensitive_iff` names the byte strings for which
the segmentation does not matter.
-/

set_option autoImplicit false

namespace LinuxSystemLearning.Calculator

open LinuxSystemLearning.Cxx
open LinuxSystemLearning.Loop
open LinuxSystemLearning.Incremental
open Protocol
open Reactor (Piece)

abbrev Segmentation := List (List Piece)

def Segmentation.calls (cuts : Segmentation) : List (List Bytes) :=
  cuts.map fun pieces => pieces.map Piece.bytes

def Segmentation.bytes (cuts : Segmentation) : Bytes := cuts.calls.flatten.flatten

variable (excute : Bytes → Except Fault Bytes)

/-- Any two segmentations of `bytes` accumulate the same bytes, decode the same
packages and return the same response text. -/
def Insensitive (bytes : Bytes) : Prop :=
  ∀ cuts cuts' : Segmentation, cuts.bytes = bytes → cuts'.bytes = bytes →
    ∀ seen seen', Run (Recver excute) cuts.calls seen →
      Run (Recver excute) cuts'.calls seen' → seen.log = seen'.log

/-- Nothing in `buffer` is decided before its last byte: the first separator
ends it, or the announced length is not reached earlier. -/
def DecidedLast (buffer : Bytes) : Prop :=
  ∀ pos, find sep buffer = some pos →
    pos + sep.length = buffer.length ∨
      ∃ len, stoi (buffer.take pos) = .ok len ∧
        (toInt (pos + len + 4) < 0 ∨ (buffer.length : Int) ≤ toInt (pos + len + 4))

def Returns (inbuffer : Bytes) : Prop :=
  ∃ last, Ends (handlerStep excute) (.enter inbuffer) (.returned last)

/-- `sent` is the response text of the frames in front.  A frame whose package
lies within the bytes `Decode` waits for is answered and cut off; at the end
nothing is decided early, and what was already sent is not lost by a crash. -/
inductive Robust : Bytes → Bytes → Prop where
  | last {sent buffer : Bytes} (late : DecidedLast buffer)
      (safe : sent ≠ [] → Returns excute buffer) : Robust sent buffer
  | frame {sent out buffer text : Bytes} {len : Int}
      (header : Header buffer text len)
      (present : 0 < targetLen text len ∧
        targetLen text len ≤ (buffer.length : Int))
      (within : len = 0 ∨
        0 < len ∧ text.length + sep.length + len ≤ targetLen text len)
      (served : excute (substr buffer (text.length + sep.length) len) = .ok out)
      (tail : Robust (sent ++ out) (buffer.drop (targetLen text len).toNat)) :
      Robust sent buffer

variable {excute}

/-! ## NUL bytes -/

/-- Either only the end of the bytes is NUL, or a NUL byte is followed by
another byte. -/
theorem split_zeros (bytes : Bytes) :
    (∃ text zeros, bytes = text ++ List.replicate zeros 0 ∧ 0 ∉ text) ∨
      ∃ front byte back, bytes = front ++ 0 :: byte :: back ∧ byte ≠ 0 := by
  induction bytes with
  | nil => exact .inl ⟨[], 0, rfl, by simp⟩
  | cons first rest ih =>
      rcases ih with ⟨text, zeros, rfl, plain⟩ | ⟨front, byte, back, rfl, other⟩
      · by_cases nul : first = 0
        · subst nul
          cases text with
          | nil => exact .inl ⟨[], zeros + 1, by simp [List.replicate_succ], by simp⟩
          | cons byte text =>
              have other : byte ≠ 0 := by
                intro nul
                exact plain (by simp [nul])
              exact .inr ⟨[], byte, _, rfl, other⟩
        · exact .inl ⟨first :: text, zeros, rfl, by simp [plain, Ne.symm nul]⟩
      · exact .inr ⟨first :: front, byte, back, rfl, other⟩

def singles (bytes : Bytes) : List Piece :=
  bytes.map fun byte => ⟨[byte], by simp, by simp⟩

theorem flatten_singles (bytes : Bytes) :
    (bytes.map fun byte => [byte]).flatten = bytes := by
  induction bytes with
  | nil => rfl
  | cons byte rest ih => simp [ih]

theorem singles_bytes (bytes : Bytes) :
    (singles bytes).map Piece.bytes = bytes.map fun byte => [byte] := by
  simp [singles]

variable (excute) in
theorem run_exists (calls : List (List Bytes)) :
    ∃ seen, Run (Recver excute) calls seen :=
  ⟨_, (run_recver_iff calls _).mpr rfl⟩

/-- Received by itself, the byte behind a NUL byte is kept; in one piece with it,
it is lost. -/
theorem not_insensitive_of_nul (front back : Bytes) {byte : UInt8}
    (other : byte ≠ 0) :
    ¬ Insensitive excute (front ++ 0 :: byte :: back) := by
  intro insensitive
  let together : Piece := ⟨[0, byte], by simp, by simp⟩
  let apart : Segmentation := [singles (front ++ 0 :: byte :: back)]
  let joined : Segmentation := [singles front ++ together :: singles back]
  have apartCalls : apart.calls =
      [(front ++ 0 :: byte :: back).map fun byte => [byte]] := by
    simp [apart, Segmentation.calls, singles_bytes]
  have joinedCalls : joined.calls =
      [front.map (fun byte => [byte]) ++
        [0, byte] :: back.map fun byte => [byte]] := by
    simp [joined, together, Segmentation.calls, singles_bytes]
  obtain ⟨seen, run⟩ := run_exists excute apart.calls
  obtain ⟨seen', run'⟩ := run_exists excute joined.calls
  have same := congrArg Prod.fst (insensitive apart joined
    (by simp [Segmentation.bytes, apartCalls, flatten_singles])
    (by simp [Segmentation.bytes, joinedCalls, flatten_singles]) seen seen' run run')
  rw [run_recver_iff] at run run'
  subst run run'
  have once : ∀ chunk : Bytes,
      (Session.feed verdict excute .start chunk).log.1 = chunk := by
    intro chunk
    exact Session.absorb_received .start chunk _
  rw [apartCalls, joinedCalls] at same
  simp only [List.map_cons, List.map_nil, List.foldl_cons, List.foldl_nil] at same
  have kept : received ((front ++ 0 :: byte :: back).map fun byte => [byte]) =
      front.filter (· ≠ 0) ++ byte :: back.filter (· ≠ 0) := by
    rw [received_singles]
    simp [other]
  have lost : received (front.map (fun byte => [byte]) ++
      [0, byte] :: back.map fun byte => [byte]) =
        front.filter (· ≠ 0) ++ back.filter (· ≠ 0) := by
    rw [← received_singles, ← received_singles]
    simp [received, cString]
  have lengths := congrArg List.length ((once _).symm.trans (same.trans (once _)))
  rw [kept, lost] at lengths
  simp at lengths

def bytewise (chunks : List Bytes) : Segmentation := chunks.map singles

theorem bytewise_calls (chunks : List Bytes) :
    (bytewise chunks).calls = chunks.map fun chunk => chunk.map fun byte => [byte] := by
  simp [bytewise, Segmentation.calls, singles_bytes]

theorem bytewise_bytes (chunks : List Bytes) :
    (bytewise chunks).bytes = chunks.flatten := by
  rw [Segmentation.bytes, bytewise_calls]
  induction chunks with
  | nil => rfl
  | cons chunk rest ih => simp [ih, flatten_singles]

theorem bytewise_received (chunks : List Bytes) (plain : 0 ∉ chunks.flatten) :
    (bytewise chunks).calls.map received = chunks := by
  rw [bytewise_calls, List.map_map]
  refine (List.map_congr_left fun chunk member => ?_).trans (List.map_id _)
  rw [Function.comp_apply, id_eq, received_singles, List.filter_eq_self]
  intro byte inside
  have nonzero : byte ≠ 0 := by
    rintro rfl
    exact plain (List.mem_flatten_of_mem member inside)
  simpa using nonzero

/-- Cuts of the text are segmentations: every chunk arrives byte by byte in a
call of its own, and the NUL bytes in a last one. -/
theorem exists_segmentation (text : Bytes) (zeros : Nat) (plain : 0 ∉ text)
    (cuts : List Bytes) (whole : cuts.flatten = text) :
    ∃ segmentation : Segmentation,
      segmentation.bytes = text ++ List.replicate zeros 0 ∧
        ∀ seen, Run (Recver excute) segmentation.calls seen →
          seen = cuts.foldl (Session.feed verdict excute) .start := by
  refine ⟨bytewise cuts ++ bytewise [List.replicate zeros 0], ?_, ?_⟩
  · have both : bytewise cuts ++ bytewise [List.replicate zeros 0] =
        bytewise (cuts ++ [List.replicate zeros 0]) := by
      simp [bytewise]
    rw [both, bytewise_bytes]
    simp [whole]
  · intro seen run
    rw [run_recver_iff] at run
    have appended : (Segmentation.calls (bytewise cuts ++
        bytewise [List.replicate zeros 0])).map received = cuts ++ [[]] := by
      have zerosCall := bytewise_calls [List.replicate zeros 0]
      have split : Segmentation.calls (bytewise cuts ++
          bytewise [List.replicate zeros 0]) = (bytewise cuts).calls ++
            (bytewise [List.replicate zeros 0]).calls := by
        simp [Segmentation.calls]
      have dropped : received ((List.replicate zeros 0).map fun byte => [byte]) = [] :=
        received_text _ [] zeros (by simp) (flatten_singles _)
      rw [split, List.map_append, bytewise_received cuts (whole ▸ plain), zerosCall,
        List.map_cons, List.map_nil, List.map_cons, List.map_nil, dropped]
    rw [run, appended, List.foldl_append, List.foldl_cons, List.foldl_nil]
    apply Session.feed_nil
    exact Session.stalled_of_feed excute .start (fun _ => decoder.stall_nil) cuts

/-- Without NUL bytes inside, the segmentations of the bytes are the ways of
cutting the text. -/
theorem insensitive_text_iff (text : Bytes) (zeros : Nat) (plain : 0 ∉ text) :
    Insensitive excute (text ++ List.replicate zeros 0) ↔
      Settled decoder excute [] text := by
  rw [settled_iff_agree]
  constructor
  · intro insensitive cuts cuts' whole whole'
    obtain ⟨segmentation, bytes, shows⟩ := exists_segmentation text zeros plain cuts whole
    obtain ⟨segmentation', bytes', shows'⟩ := exists_segmentation text zeros plain cuts' whole'
    obtain ⟨seen, run⟩ := run_exists excute segmentation.calls
    obtain ⟨seen', run'⟩ := run_exists excute segmentation'.calls
    have same := insensitive _ _ bytes bytes' seen seen' run run'
    rw [shows seen run, shows' seen' run'] at same
    exact same
  · intro agree cuts cuts' whole whole' seen seen' run run'
    rw [run_recver_iff] at run run'
    subst run run'
    apply agree
    · rw [received_flatten]
      exact received_text _ text zeros plain whole
    · rw [received_flatten]
      exact received_text _ text zeros plain whole'

/-! ## Where the package is the same at every cut -/

/-- If nothing is decided early, all but the last byte stall, and the separator is
in them. -/
theorem decidedLast_of_stallsBefore {buffer : Bytes}
    (late : StallsBefore decoder buffer) : DecidedLast buffer := by
  intro pos found
  by_cases atEnd : pos + sep.length = buffer.length
  · exact .inl atEnd
  right
  have bound := find_bound found
  have room : pos + 2 < buffer.length := by
    simp only [sep, List.length_cons, List.length_nil] at atEnd
    omega
  have split : buffer.take (buffer.length - 1) ++
      buffer.drop (buffer.length - 1) = buffer := List.take_append_drop _ _
  have size : (buffer.take (buffer.length - 1)).length = buffer.length - 1 := by
    simp
  have stalled : verdict (buffer.take (buffer.length - 1)) = .stall := by
    apply late _ _ split
    rw [ne_eq, List.drop_eq_nil_iff]
    omega
  rcases header_cases buffer with missing | ⟨pos', fault, found', failed⟩ |
    ⟨text, len, header⟩
  · rw [missing] at found
    cases found
  · rw [found] at found'
    cases found'
    rw [← split] at found
    have found' := find_of_append sep_ne_nil found (by simp [sep]; omega)
    have failed' : stoi ((buffer.take (buffer.length - 1)).take pos) =
        .error fault := by
      rw [List.take_take, Nat.min_eq_left (by omega)]
      exact failed
    rw [verdict_of_stoi_error found' failed'] at stalled
    cases stalled
  · rw [header.found] at found
    cases found
    refine ⟨len, by rw [← header.text_eq]; exact header.parsed, ?_⟩
    have early : Header (buffer.take (buffer.length - 1)) text len :=
      Header.of_append (split.symm ▸ header) (by omega)
    rw [← targetLen_eq]
    by_contra reached
    have complete : ¬ Incomplete (buffer.take (buffer.length - 1))
        (targetLen text len) := by
      unfold Incomplete
      rw [size]
      omega
    rw [verdict_complete early complete] at stalled
    cases stalled

theorem stallsBefore_of_decidedLast {buffer : Bytes} (last : DecidedLast buffer) :
    StallsBefore decoder buffer := by
  intro front back cut more
  have shorter : front.length < buffer.length := by
    rw [← cut, List.length_append]
    have := List.length_pos_of_ne_nil more
    omega
  rcases header_cases front with missing | ⟨pos, fault, found, failed⟩ |
    ⟨text, len, header⟩
  · exact verdict_without_sep missing
  · exfalso
    have bound := find_bound found
    have same : buffer.take pos = front.take pos := by
      rw [← cut, List.take_append_of_le_length (by omega)]
    rcases last pos (cut ▸ find_append sep_ne_nil found back) with
      atEnd | ⟨len, parsed, -⟩
    · simp only [sep, List.length_cons, List.length_nil] at atEnd
      omega
    · rw [same, failed] at parsed
      cases parsed
  · have whole : Header buffer text len := cut ▸ header.append back
    have bound := find_bound header.found
    apply verdict_incomplete header
    rcases last text.length whole.found with atEnd | ⟨len', parsed, early⟩
    · simp only [sep, List.length_cons, List.length_nil] at atEnd
      omega
    · rw [← whole.text_eq, whole.parsed] at parsed
      cases parsed
      rw [← targetLen_eq] at early
      unfold Incomplete
      omega

theorem decidedLast_iff (buffer : Bytes) :
    StallsBefore decoder buffer ↔ DecidedLast buffer :=
  ⟨decidedLast_of_stallsBefore, stallsBefore_of_decidedLast⟩

/-- The bytes `Decode` waits for before it hands out a package. -/
def frontLength (text : Bytes) (len : Int) : Int :=
  max (text.length + sep.length) (targetLen text len)

/-- The package a prefix hands out lies in the bytes waited for. -/
theorem within_of_fixed {buffer text : Bytes} {len : Int}
    (header : Header buffer text len)
    (complete : ¬ Incomplete buffer (targetLen text len))
    (fixed : ∀ front back, front ++ back = buffer →
      decoder.decode front = .stall ∨ ∃ rest, decoder.decode front =
        .take (substr buffer (text.length + sep.length) len) rest) :
    (buffer.length : Int) ≤ frontLength text len ∨
      0 ≤ len ∧ text.length + sep.length + len ≤ frontLength text len := by
  have sepLength : sep.length = 2 := rfl
  have enough : text.length + sep.length ≤ frontLength text len ∧
      targetLen text len ≤ frontLength text len := by
    unfold frontLength
    omega
  by_contra outside
  have size : (buffer.take (frontLength text len).toNat).length =
      (frontLength text len).toNat := by
    rw [List.length_take]
    omega
  have split : buffer.take (frontLength text len).toNat ++
      buffer.drop (frontLength text len).toNat = buffer :=
    List.take_append_drop _ _
  have early : Header (buffer.take (frontLength text len).toNat) text len :=
    Header.of_append (split.symm ▸ header) (by omega)
  have complete' : ¬ Incomplete (buffer.take (frontLength text len).toNat)
      (targetLen text len) := by
    unfold Incomplete at complete ⊢
    omega
  have taken := verdict_complete early complete'
  rcases fixed _ _ split with stalled | ⟨rest, same⟩
  · have stalled' := taken.symm.trans stalled
    cases stalled'
  · have both := taken.symm.trans same
    simp only [Verdict.take.injEq] at both
    have lengths := congrArg List.length both.1
    rw [length_substr, length_substr, size] at lengths
    split at lengths <;> omega

theorem fixed_of_within {buffer text : Bytes} {len : Int}
    (header : Header buffer text len)
    (within : (buffer.length : Int) ≤ frontLength text len ∨
      0 ≤ len ∧ text.length + sep.length + len ≤ frontLength text len)
    (front back : Bytes) (cut : front ++ back = buffer) :
    decoder.decode front = .stall ∨ ∃ rest, decoder.decode front =
      .take (substr buffer (text.length + sep.length) len) rest := by
  have total : front.length + back.length = buffer.length := by
    rw [← cut, List.length_append]
  rcases Header.front_cases (cut.symm ▸ header) with missing | header'
  · exact .inl (verdict_without_sep missing)
  by_cases incomplete : Incomplete front (targetLen text len)
  · exact .inl (verdict_incomplete header' incomplete)
  right
  have bound := find_bound header'.found
  have sepLength : sep.length = 2 := rfl
  have reached : frontLength text len ≤ front.length := by
    unfold Incomplete at incomplete
    unfold frontLength
    omega
  have samePackage : substr front (text.length + sep.length) len =
      substr buffer (text.length + sep.length) len := by
    rcases within with nothing | ⟨nonneg, inside⟩
    · have none_left : back = [] := List.eq_nil_of_length_eq_zero (by omega)
      rw [← cut, none_left, List.append_nil]
    · rw [← cut, substr_append nonneg (by omega)]
  rw [← samePackage]
  exact ⟨_, verdict_complete header' incomplete⟩

/-- Behind a complete header the package is the same at every cut if and only if
it lies within the bytes waited for, or there are no more bytes. -/
theorem fixed_iff {buffer text : Bytes} {len : Int}
    (header : Header buffer text len)
    (complete : ¬ Incomplete buffer (targetLen text len)) :
    (∀ front back, front ++ back = buffer →
      decoder.decode front = .stall ∨ ∃ rest, decoder.decode front =
        .take (substr buffer (text.length + sep.length) len) rest) ↔
      (buffer.length : Int) ≤ frontLength text len ∨
        0 ≤ len ∧ text.length + sep.length + len ≤ frontLength text len :=
  ⟨within_of_fixed header complete, fixed_of_within header⟩

theorem returns_iff_idle (inbuffer : Bytes) :
    Returns excute inbuffer ↔ (drain verdict excute inbuffer).Idle := by
  have follows := handler_drains excute (.enter inbuffer)
  simp only [HandlerState.enter, Follows, List.nil_append] at follows
  constructor
  · intro returns
    obtain ⟨last, ends⟩ := returns
    split at follows
    · rename_i rest stop
      exact ⟨rest, stop⟩
    · obtain ⟨last', -, threw⟩ := follows
      cases ends.unique threw
    · obtain ⟨last', -, rounds⟩ := follows
      exact absurd ends (rounds.not_ends _ _)
  · intro idle
    obtain ⟨rest, stop⟩ := idle
    rw [stop] at follows
    exact ⟨_, follows⟩

theorem robust_iff_settled (sent buffer : Bytes) :
    Robust excute sent buffer ↔ Settled decoder excute sent buffer := by
  constructor
  · intro robust
    induction robust with
    | @last sent buffer late safe =>
        apply Settled.whole ((decidedLast_iff buffer).mpr late)
        intro pending
        exact (returns_iff_idle buffer).mp (safe pending)
    | @frame sent out buffer text len header present within served _ ih =>
        have complete : ¬ Incomplete buffer (targetLen text len) := by
          unfold Incomplete
          omega
        refine .frame (verdict_complete header complete) served ?_ ?_ ih
        · rw [List.length_drop]
          omega
        · apply (fixed_iff header complete).mpr
          right
          unfold frontLength
          omega
  · intro settled
    induction settled with
    | @whole sent buffer late safe =>
        apply Robust.last ((decidedLast_iff buffer).mp late)
        intro pending
        exact (returns_iff_idle buffer).mpr (safe pending)
    | @frame sent out buffer rest item taken served shorter fixed tail ih =>
        have idle := tail.idle_of_sent
        obtain ⟨text, len, header, complete, rfl, rfl⟩ := verdict_take taken
        have present : 0 < targetLen text len ∧
            targetLen text len ≤ (buffer.length : Int) := by
          rw [List.length_drop] at shorter
          unfold Incomplete at complete
          omega
        rcases (fixed_iff header complete).mp fixed with ends | ⟨nonneg, inside⟩
        · -- the frame ends the buffer, so nothing is decided before
          refine .last ?_ ?_
          · intro pos found
            rw [header.found] at found
            cases found
            have bound := find_bound header.found
            by_cases atEnd : text.length + sep.length = buffer.length
            · exact .inl atEnd
            · refine .inr ⟨len, by rw [← header.text_eq]; exact header.parsed, ?_⟩
              rw [← targetLen_eq]
              unfold frontLength at ends
              have sepLength : sep.length = 2 := rfl
              omega
          · intro pending
            have taken' := verdict_complete header complete
            rw [returns_iff_idle, drain_take taken' served shorter]
            exact idle (by simp [pending])
        · refine .frame header present ?_ served ih
          unfold frontLength at inside
          omega

theorem insensitive_iff (bytes : Bytes) :
    Insensitive excute bytes ↔
      ∃ text zeros, bytes = text ++ List.replicate zeros 0 ∧ 0 ∉ text ∧
        Robust excute [] text := by
  constructor
  · intro insensitive
    rcases split_zeros bytes with ⟨text, zeros, rfl, plain⟩ |
      ⟨front, byte, back, rfl, other⟩
    · refine ⟨text, zeros, rfl, plain, ?_⟩
      rw [robust_iff_settled]
      exact (insensitive_text_iff text zeros plain).mp insensitive
    · exact absurd insensitive (not_insensitive_of_nul front back other)
  · intro cut
    obtain ⟨text, zeros, rfl, plain, robust⟩ := cut
    rw [robust_iff_settled] at robust
    exact (insensitive_text_iff text zeros plain).mpr robust

/-- The bytes `A`, NUL, `B` in one piece and in two. -/
theorem sensitive_to_nul :
    ¬ Insensitive (Protocol.excute JsonText.jsonText Cal.execute) [65, 0, 66] :=
  not_insensitive_of_nul [65] [] (by decide)

end LinuxSystemLearning.Calculator
