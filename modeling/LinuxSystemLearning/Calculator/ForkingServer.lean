import LinuxSystemLearning.Calculator.EndToEnd
import LinuxSystemLearning.Calculator.Segmentation
import LinuxSystemLearning.Calculator.Survival

/-!
# The forking server

`GetRequest` of the forking server decodes after every `recv` and sends each answer
as soon as it has it.  The handler of the reactor server decodes what several `recv`
calls have returned, and returns its answers together: a package that brings the
process down takes the answers in front of it along.  `servers_agree_iff` says that
this is the only difference.
-/

set_option autoImplicit false

namespace LinuxSystemLearning.Calculator

open LinuxSystemLearning.Cxx
open LinuxSystemLearning.Incremental
open LinuxSystemLearning.Loop
open Protocol
open Reactor (Piece)

/-! ## `GetRequest` -/

inductive ForkPhase where
  | recv
  | decode

/-- `arriving` are the pieces `Recv` will return before the end of the stream, and
`sent` is everything that was passed to `Send`. -/
structure ForkState where
  phase : ForkPhase
  arriving : List Piece
  inbuffer : Bytes
  jsonPackage : Bytes
  sent : Bytes

inductive ForkEnd where
  | closed (last : ForkState)
  | threw (fault : Fault) (last : ForkState)

def ForkState.enter (pieces : List Piece) : ForkState := ⟨.recv, pieces, [], [], []⟩

variable (json : JsonCpp)

def getRequestStep (st : ForkState) : Step ForkState ForkEnd :=
  match st.phase with
  | .recv =>
      match st.arriving with
      -- `Recv` returns 0 or fails
      | [] => .stop (.closed st)
      | piece :: arriving =>
          .next { st with
            phase := .decode
            arriving := arriving
            inbuffer := st.inbuffer ++ cString piece.bytes
            jsonPackage := [] }
  | .decode =>
      match decode st.inbuffer st.jsonPackage with
      | .error fault => .stop (.threw fault st)
      | .ok decoded =>
          let st := { st with
            inbuffer := decoded.buffer
            jsonPackage := decoded.package }
          if decoded.ret then
            match Request.deserialize json decoded.package with
            | .error fault => .stop (.threw fault st)
            | .ok none => .next st
            | .ok (some req) =>
                match Cal.execute req with
                | .error fault => .stop (.threw fault st)
                | .ok resp =>
                    .next { st with sent := st.sent ++ encode (resp.serialize json) }
          else .next { st with phase := .recv }

/-- The call that gets the pieces returns or dies in `last`. -/
def GetRequest (pieces : List Piece) (last : ForkState) : Prop :=
  Ends (getRequestStep json) (.enter pieces) (.closed last) ∨
    ∃ fault, Ends (getRequestStep json) (.enter pieces) (.threw fault last)

/-! ## The two servers -/

def requestStream (payloads : List Bytes) : Bytes := (payloads.map encode).flatten

/-- However the stream is cut for either of them, the forking server sends what the
handler of the reactor server returns. -/
def ServersAgree (payloads : List Bytes) : Prop :=
  ∀ (pieces : List Piece) (cuts : Segmentation),
    (pieces.map Piece.bytes).flatten = requestStream payloads →
    cuts.bytes = requestStream payloads →
    ∃ last seen, GetRequest json pieces last ∧
      Run (Recver (excute json Cal.execute)) cuts.calls seen ∧ last.sent = seen.output

/-- The frame can be measured by an `int`, and the package can be answered. -/
def Servable (payload : Bytes) : Prop :=
  (encode payload).length < 2 ^ 31 ∧ Answerable json payload

/-- `stoi` throws on the length, or the frame is taken and cannot be answered. -/
def Faults (payload : Bytes) : Prop :=
  2 ^ 31 ≤ payload.length ∨
    (encode payload).length < 2 ^ 31 ∧ ¬ Answerable json payload

/-- The payloads in front of the first that is not servable. -/
inductive Foremost : List Bytes → List Bytes → Prop where
  | stuck {payloads : List Bytes}
      (notServable : ∀ payload ∈ payloads.head?, ¬ Servable json payload) :
      Foremost payloads []
  | servable {payload : Bytes} {more served : List Bytes}
      (first : Servable json payload) (behind : Foremost more served) :
      Foremost (payload :: more) (payload :: served)

def answers (payloads : List Bytes) : Bytes := (payloads.map (answer json)).flatten

/-- In front of the first package that brings the process down there is none that
jsoncpp accepts. -/
def NothingLost (payloads : List Bytes) : Prop :=
  ∀ served payload more, payloads = served ++ payload :: more →
    (∀ other ∈ served, Servable json other) → Faults json payload →
    ∀ other ∈ served, json.parse other = none

variable {json}

/-! ## One iteration -/

theorem getRequestStep_stall {st : ForkState} (decoding : st.phase = .decode)
    (stalled : verdict st.inbuffer = .stall) :
    getRequestStep json st = .next { st with phase := .recv } := by
  simp [getRequestStep, decoding, decode_of_stall stalled]

theorem getRequestStep_crash {st : ForkState} (decoding : st.phase = .decode)
    {fault : Fault} (crashed : verdict st.inbuffer = .crash fault) :
    getRequestStep json st = .stop (.threw fault st) := by
  simp [getRequestStep, decoding, decode_of_crash crashed]

/-- A package is answered at once, as `Excute` answers it; one that jsoncpp rejects
is answered with nothing. -/
theorem getRequestStep_take {st : ForkState} (decoding : st.phase = .decode)
    {package rest : Bytes} (taken : verdict st.inbuffer = .take package rest) :
    getRequestStep json st =
      match excute json Cal.execute package with
      | .error fault =>
          .stop (.threw fault { st with inbuffer := rest, jsonPackage := package })
      | .ok response =>
          .next { st with
            inbuffer := rest
            jsonPackage := package
            sent := st.sent ++ response } := by
  simp only [getRequestStep, decoding, decode_of_take taken, if_true, excute]
  cases read : Request.deserialize json package with
  | error fault => simp [bind, Except.bind]
  | ok result =>
      cases result with
      | none => simp [bind, Except.bind, pure, Except.pure]
      | some req =>
          cases executed : Cal.execute req with
          | error fault => simp [executed, bind, Except.bind]
          | ok resp => simp [executed, bind, Except.bind, pure, Except.pure]

/-! ## The decoding loop -/

variable (json) in
def Drains (st : ForkState) (drained : Drained UInt8 Bytes UInt8 Fault) : Prop :=
  match drained.stop with
  | .idle rest => ∃ package, Visits (getRequestStep json) st
      ⟨.recv, st.arriving, rest, package, st.sent ++ drained.output⟩
  | .crashed fault => ∃ last, Ends (getRequestStep json) st (.threw fault last) ∧
      last.sent = st.sent ++ drained.output
  | .spins => True

variable (json) in
theorem getRequest_drains (st : ForkState) (decoding : st.phase = .decode) :
    Drains json st (drain verdict (excute json Cal.execute) st.inbuffer) := by
  induction size : st.inbuffer.length using Nat.strongRecOn generalizing st with
  | ind size ih =>
      cases seen : verdict st.inbuffer with
      | stall =>
          rw [drain_stall seen]
          refine ⟨st.jsonPackage, ?_⟩
          rw [List.append_nil]
          exact .next .entry (getRequestStep_stall decoding seen)
      | crash fault =>
          rw [drain_crash seen]
          exact ⟨st, .stop (getRequestStep_crash decoding seen), by simp⟩
      | take package rest =>
          have step : getRequestStep json st = _ := getRequestStep_take decoding seen
          cases served : excute json Cal.execute package with
          | error fault =>
              rw [drain_error seen served]
              rw [served] at step
              exact ⟨_, .stop step, by simp⟩
          | ok response =>
              rw [served] at step
              by_cases shorter : rest.length < st.inbuffer.length
              · rw [drain_take seen served shorter]
                have tail := ih rest.length (size ▸ shorter)
                  ⟨st.phase, st.arriving, rest, package, st.sent ++ response⟩ decoding rfl
                simp only [Drains, Drained.prepend] at tail ⊢
                split at tail
                · obtain ⟨last, visits⟩ := tail
                  refine ⟨last, ?_⟩
                  rw [← List.append_assoc]
                  exact visits.behind step
                · obtain ⟨last, ends, sent⟩ := tail
                  exact ⟨last, .next step ends, by rw [sent, List.append_assoc]⟩
                · trivial
              · rw [drain_spin seen served shorter]
                trivial

/-! ## The payloads that are answered -/

theorem answers_append (front back : List Bytes) :
    answers json (front ++ back) = answers json front ++ answers json back := by
  simp [answers]

theorem Foremost.append {front rest served : List Bytes}
    (servable : ∀ payload ∈ front, Servable json payload)
    (behind : Foremost json rest served) :
    Foremost json (front ++ rest) (front ++ served) := by
  induction front with
  | nil => exact behind
  | cons payload front ih =>
      have first := servable payload List.mem_cons_self
      have others := ih fun other member =>
        servable other (List.mem_cons_of_mem payload member)
      exact .servable first others

theorem Foremost.unique {payloads served served' : List Bytes}
    (one : Foremost json payloads served) (two : Foremost json payloads served') :
    served = served' := by
  induction one generalizing served' with
  | stuck notServable =>
      cases two with
      | stuck _ => rfl
      | servable first _ => exact absurd first (notServable _ rfl)
  | servable first _ ih =>
      cases two with
      | stuck notServable => exact absurd first (notServable _ rfl)
      | servable _ behind => rw [ih behind]

theorem Faults.not_servable {payload : Bytes} (faults : Faults json payload) :
    ¬ Servable json payload := by
  intro servable
  obtain ⟨small, answerable⟩ := servable
  rcases faults with large | ⟨-, unanswerable⟩
  · rw [length_encode] at small
    omega
  · exact unanswerable answerable

theorem foremost_of_faults {served more : List Bytes} {payload : Bytes}
    (servable : ∀ other ∈ served, Servable json other)
    (faults : Faults json payload) :
    Foremost json (served ++ payload :: more) served := by
  have stuck : Foremost json (payload :: more) [] := by
    refine .stuck ?_
    intro other head
    cases head
    exact faults.not_servable
  simpa using Foremost.append servable stuck

/-- A servable package is answered with nothing only where jsoncpp rejects it. -/
theorem answer_eq_nil_iff {payload : Bytes} (answerable : Answerable json payload) :
    answer json payload = [] ↔ json.parse payload = none := by
  constructor
  · intro empty
    cases parsed : json.parse payload with
    | none => rfl
    | some root =>
        exfalso
        obtain ⟨response, served⟩ := (excute_isOk_iff json payload).mpr answerable
        obtain ⟨result, deserialized, returned⟩ := bind_eq_ok.mp served
        obtain ⟨x, y, oper, -, -, -, rfl⟩ :=
          (deserialize_eq_some_iff json parsed result).mp deserialized
        obtain ⟨resp, -, sent⟩ := bind_eq_ok.mp returned
        cases sent
        rw [answer, served] at empty
        exact encode_ne_nil _ empty
  · intro rejected
    simp [answer, excute, Request.deserialize, rejected, bind, Except.bind, pure,
      Except.pure]

theorem answers_eq_nil_iff {served : List Bytes}
    (servable : ∀ payload ∈ served, Servable json payload) :
    answers json served = [] ↔ ∀ payload ∈ served, json.parse payload = none := by
  simp only [answers, List.flatten_eq_nil_iff, List.forall_mem_map]
  constructor
  · intro empty payload member
    exact (answer_eq_nil_iff (servable payload member).2).mp (empty payload member)
  · intro rejected payload member
    exact (answer_eq_nil_iff (servable payload member).2).mpr (rejected payload member)

/-! ## A buffer that begins a frame -/

/-- What `Decode` decides about a prefix of a stream of frames concerns the first. -/
theorem verdict_in_stream {buffer more payload tail : Bytes}
    (stream : buffer ++ more = encode payload ++ tail) :
    verdict buffer = .stall ∨
      (2 ^ 31 ≤ payload.length ∧ ∃ fault, verdict buffer = .crash fault) ∨
      ((encode payload).length < 2 ^ 31 ∧
        ∃ rest, verdict buffer = .take payload rest ∧ rest ++ more = tail) := by
  cases seen : verdict buffer with
  | stall => exact .inl rfl
  | crash fault =>
      refine .inr (.inl ⟨?_, fault, rfl⟩)
      by_contra small
      have crashed := verdict_crash_append more seen
      rw [stream] at crashed
      have header := header_encode payload tail (by unfold intMax; omega)
      by_cases incomplete : Incomplete (encode payload ++ tail)
          (targetLen (stdToString payload.length) payload.length)
      · rw [verdict_incomplete header incomplete] at crashed
        cases crashed
      · rw [verdict_complete header incomplete] at crashed
        cases crashed
  | take package rest =>
      obtain ⟨⟨behind, rfl⟩, small⟩ := frame_inside seen stream
      rw [verdict_encode payload behind small] at seen
      cases seen
      rw [List.append_assoc, List.append_cancel_left_eq] at stream
      exact .inr (.inr ⟨small, rest, rfl, stream⟩)

/-- The handler does not wait behind a frame it serves or dies of. -/
theorem verdict_ne_stall {payload : Bytes}
    (decided : Servable json payload ∨ Faults json payload) (tail : Bytes) :
    verdict (encode payload ++ tail) ≠ .stall := by
  intro stalled
  have small_goes : ¬ (encode payload).length < 2 ^ 31 := by
    intro small
    rw [verdict_encode payload tail small] at stalled
    cases stalled
  rcases decided with ⟨small, -⟩ | large | ⟨small, -⟩
  · exact small_goes small
  · cases parsed : stoi ((encode payload ++ tail).take
        (stdToString payload.length).length) with
    | error fault =>
        rw [verdict_of_stoi_error (find_encode payload tail) parsed] at stalled
        cases stalled
    | ok len =>
        have range := stoi_range parsed
        rw [take_encode, stoi_stdToString, checkInt_eq_ok] at parsed
        unfold intMax at range
        omega
  · exact small_goes small

theorem foremost_nil_of_stall {payloads : List Bytes}
    (stalled : verdict (requestStream payloads) = .stall) :
    Foremost json payloads [] := by
  refine .stuck ?_
  intro payload head servable
  cases payloads with
  | nil => cases head
  | cons first more =>
      cases head
      exact verdict_ne_stall (.inl servable) (requestStream more) stalled

variable (json) in
/-- One drain of a prefix of the stream serves some payloads, and leaves the loop
or dies of the next. -/
theorem drain_frames (payloads : List Bytes) {buffer more : Bytes}
    (stream : buffer ++ more = requestStream payloads) :
    ∃ served rest, payloads = served ++ rest ∧
      (∀ payload ∈ served, Servable json payload) ∧
      (drain verdict (excute json Cal.execute) buffer).output = answers json served ∧
      ((∃ left, (drain verdict (excute json Cal.execute) buffer).stop = .idle left ∧
          left ++ more = requestStream rest) ∨
        ∃ fault payload others,
          (drain verdict (excute json Cal.execute) buffer).stop = .crashed fault ∧
          rest = payload :: others ∧ Faults json payload) := by
  induction payloads generalizing buffer with
  | nil =>
      obtain ⟨rfl, rfl⟩ := List.append_eq_nil_iff.mp stream
      have nothing : verdict [] = .stall := decoder.stall_nil
      rw [drain_stall nothing]
      exact ⟨[], [], rfl, by simp, rfl, .inl ⟨[], rfl, rfl⟩⟩
  | cons payload others ih =>
      have first : requestStream (payload :: others) =
          encode payload ++ requestStream others := rfl
      rcases verdict_in_stream (stream.trans first) with
        stalled | ⟨large, fault, crashed⟩ | ⟨small, rest, taken, behind⟩
      · rw [drain_stall stalled]
        exact ⟨[], payload :: others, rfl, by simp, rfl, .inl ⟨buffer, rfl, stream⟩⟩
      · rw [drain_crash crashed]
        exact ⟨[], payload :: others, rfl, by simp, rfl,
          .inr ⟨fault, payload, others, rfl, rfl, .inl large⟩⟩
      · cases replied : excute json Cal.execute payload with
        | error fault =>
            rw [drain_error taken replied]
            have unanswerable : ¬ Answerable json payload := by
              intro answerable
              obtain ⟨response, ok⟩ := (excute_isOk_iff json payload).mpr answerable
              rw [replied] at ok
              cases ok
            exact ⟨[], payload :: others, rfl, by simp, rfl,
              .inr ⟨fault, payload, others, rfl, rfl, .inr ⟨small, unanswerable⟩⟩⟩
        | ok response =>
            have servable : Servable json payload :=
              ⟨small, (excute_isOk_iff json payload).mp ⟨response, replied⟩⟩
            have reply : answer json payload = response := by rw [answer, replied]
            have shorter : rest.length < buffer.length := by
              have sizes := congrArg List.length (stream.trans first)
              have sizes' := congrArg List.length behind
              have frame := length_encode payload
              simp only [List.length_append] at sizes sizes'
              omega
            rw [drain_take taken replied shorter]
            obtain ⟨served, left, rfl, all, output, stop⟩ := ih behind
            refine ⟨payload :: served, left, rfl, ?_, ?_, stop⟩
            · intro other member
              rcases List.mem_cons.mp member with rfl | member
              · exact servable
              · exact all other member
            · simp only [Drained.prepend, output]
              rw [← reply]
              rfl

/-! ## Each server by itself -/

variable (json) in
/-- From between two `recv` calls on, the forking server answers the payloads in
front of the first that is not servable. -/
theorem getRequest_answers (pieces : List Piece) (payloads : List Bytes)
    {st : ForkState} (receiving : st.phase = .recv) (arriving : st.arriving = pieces)
    (stalled : verdict st.inbuffer = .stall)
    (plain : ∀ payload ∈ payloads, 0 ∉ payload)
    (stream : st.inbuffer ++ (pieces.map Piece.bytes).flatten =
      requestStream payloads) :
    ∃ last served, (Ends (getRequestStep json) st (.closed last) ∨
        ∃ fault, Ends (getRequestStep json) st (.threw fault last)) ∧
      Foremost json payloads served ∧ last.sent = st.sent ++ answers json served := by
  induction pieces generalizing st payloads with
  | nil =>
      have closed : getRequestStep json st = .stop (.closed st) := by
        simp [getRequestStep, receiving, arriving]
      rw [List.map_nil, List.flatten_nil, List.append_nil] at stream
      refine ⟨st, [], .inl (.stop closed), foremost_nil_of_stall (stream ▸ stalled), ?_⟩
      simp [answers]
  | cons piece pieces ih =>
      have kept : cString piece.bytes = piece.bytes := by
        apply cString_plain
        intro nul
        apply frames_plain plain
        change 0 ∈ requestStream payloads
        rw [← stream]
        simp [nul]
      let entered : ForkState :=
        ⟨.decode, pieces, st.inbuffer ++ piece.bytes, [], st.sent⟩
      have read : getRequestStep json st = .next entered := by
        simp [getRequestStep, receiving, arriving, kept, entered]
      have whole : entered.inbuffer ++ (pieces.map Piece.bytes).flatten =
          requestStream payloads := by
        rw [← stream]
        simp [entered]
      have drains := getRequest_drains json entered rfl
      obtain ⟨served, rest, rfl, servable, output, stop⟩ :=
        drain_frames json payloads whole
      rcases stop with ⟨rest', idle, behind⟩ | ⟨fault, payload, others, crashed, rfl, faults⟩
      · simp only [Drains, idle] at drains
        obtain ⟨package, visits⟩ := drains
        let left : ForkState :=
          ⟨.recv, pieces, rest', package, entered.sent ++ answers json served⟩
        have plain' : ∀ payload ∈ rest, 0 ∉ payload := by
          intro payload member
          exact plain payload (List.mem_append_right served member)
        rw [output] at visits
        obtain ⟨last, served', ends, foremost, sent⟩ :=
          ih rest (show left.phase = .recv from rfl) rfl (stalled_of_drain_idle idle) plain'
            behind
        refine ⟨last, served ++ served', ?_, foremost.append servable, ?_⟩
        · rcases ends with closed | ⟨fault, threw⟩
          · exact .inl (.next read ((visits.ends_iff _).mpr closed))
          · exact .inr ⟨fault, .next read ((visits.ends_iff _).mpr threw)⟩
        · rw [sent, answers_append, ← List.append_assoc]
      · simp only [Drains, crashed] at drains
        obtain ⟨last, threw, sent⟩ := drains
        refine ⟨last, served, .inr ⟨fault, .next read threw⟩,
          foremost_of_faults servable faults, ?_⟩
        rw [sent, output]

variable (json) in
/-- The reactor server answers the same payloads, or only those of them that its
handler had returned from when it died. -/
theorem feed_answers (chunks payloads : List Bytes) {session : Seen}
    (alive : session.alive = true) (stalled : verdict session.buffer = .stall)
    (stream : session.buffer ++ chunks.flatten = requestStream payloads) :
    ∃ served kept, Foremost json payloads served ∧ kept <+: served ∧
      (chunks.foldl (Session.feed verdict (excute json Cal.execute)) session).output =
        session.output ++ answers json kept ∧
      (kept = served ∨ ∃ payload more, payloads = served ++ payload :: more ∧
        (∀ other ∈ served, Servable json other) ∧ Faults json payload) := by
  induction chunks generalizing session payloads with
  | nil =>
      rw [List.flatten_nil, List.append_nil] at stream
      refine ⟨[], [], foremost_nil_of_stall (stream ▸ stalled), List.nil_prefix, ?_,
        .inl rfl⟩
      simp [answers]
  | cons chunk chunks ih =>
      have whole : session.buffer ++ chunk ++ chunks.flatten = requestStream payloads := by
        rw [← stream]
        simp
      have fed : session.feed verdict (excute json Cal.execute) chunk =
          session.absorb chunk
            (drain verdict (excute json Cal.execute) (session.buffer ++ chunk)) := by
        simp [Session.feed, alive]
      rw [List.foldl_cons, fed]
      obtain ⟨served, rest, rfl, servable, output, stop⟩ :=
        drain_frames json payloads whole
      rcases stop with ⟨left, idle, behind⟩ | ⟨fault, payload, others, crashed, rfl, faults⟩
      · rw [Session.absorb_idle session chunk idle, output]
        obtain ⟨served', kept, foremost, front, sent, cause⟩ :=
          ih rest (show Session.alive ⟨_, left, _, _, true⟩ = true from rfl)
            (stalled_of_drain_idle idle) behind
        refine ⟨served ++ served', served ++ kept, foremost.append servable,
          (List.prefix_append_right_inj served).mpr front, ?_, ?_⟩
        · rw [sent, answers_append, List.append_assoc]
        · rcases cause with rfl | ⟨payload, more, rfl, servable', faults⟩
          · exact .inl rfl
          · refine .inr ⟨payload, more, by simp, ?_, faults⟩
            intro other member
            rcases List.mem_append.mp member with front | back
            · exact servable other front
            · exact servable' other back
      · rw [Session.absorb_not_idle session chunk (Drained.not_idle_of_crashed crashed),
          Session.feed_dead]
        · refine ⟨served, [], foremost_of_faults servable faults, List.nil_prefix, ?_,
            .inr ⟨payload, others, rfl, servable, faults⟩⟩
          simp [answers]
        · rfl

/-! ## Both servers -/

variable (json) in
theorem run_answers {payloads : List Bytes} {cuts : Segmentation}
    (plain : ∀ payload ∈ payloads, 0 ∉ payload)
    (bytes : cuts.bytes = requestStream payloads) :
    ∃ seen served kept, Run (Recver (excute json Cal.execute)) cuts.calls seen ∧
      Foremost json payloads served ∧ kept <+: served ∧ seen.output = answers json kept ∧
      (kept = served ∨ ∃ payload more, payloads = served ++ payload :: more ∧
        (∀ other ∈ served, Servable json other) ∧ Faults json payload) := by
  have arrived : (cuts.calls.map received).flatten = requestStream payloads := by
    rw [received_flatten]
    exact received_frames payloads _ plain bytes
  obtain ⟨served, kept, foremost, front, output, cause⟩ :=
    feed_answers json (cuts.calls.map received) payloads
      (show Session.alive Session.start = true from rfl) decoder.stall_nil arrived
  exact ⟨_, served, kept, (run_recver_iff _ _).mpr rfl, foremost, front, output, cause⟩

variable (json) in
theorem getRequest_sends {payloads : List Bytes} {pieces : List Piece}
    (plain : ∀ payload ∈ payloads, 0 ∉ payload)
    (whole : (pieces.map Piece.bytes).flatten = requestStream payloads) :
    ∃ last served, GetRequest json pieces last ∧ Foremost json payloads served ∧
      last.sent = answers json served := by
  have entered : (ForkState.enter pieces).phase = .recv := rfl
  exact getRequest_answers json pieces payloads entered rfl decoder.stall_nil plain whole

theorem agree_of_nothingLost {payloads : List Bytes}
    (plain : ∀ payload ∈ payloads, 0 ∉ payload) (safe : NothingLost json payloads) :
    ServersAgree json payloads := by
  intro pieces cuts piecesWhole cutsWhole
  obtain ⟨last, served, ends, foremost, sent⟩ := getRequest_sends json plain piecesWhole
  obtain ⟨seen, served', kept, run, foremost', front, output, cause⟩ :=
    run_answers json plain cutsWhole
  obtain rfl := foremost.unique foremost'
  refine ⟨last, seen, ends, run, ?_⟩
  rw [sent, output]
  rcases cause with rfl | ⟨payload, more, split, servable, faults⟩
  · rfl
  · have rejected := safe served payload more split servable faults
    have nothing := (answers_eq_nil_iff servable).mpr rejected
    have servable' : ∀ other ∈ kept, Servable json other := by
      intro other member
      exact servable other (front.subset member)
    have nothing' := (answers_eq_nil_iff servable').mpr
      (fun other member => rejected other (front.subset member))
    rw [nothing, nothing']

theorem GetRequest.unique {pieces : List Piece} {first second : ForkState}
    (one : GetRequest json pieces first) (two : GetRequest json pieces second) :
    first = second := by
  rcases one with closed | ⟨fault, threw⟩
  · rcases two with closed' | ⟨fault', threw'⟩
    · cases closed.unique closed'
      rfl
    · cases closed.unique threw'
  · rcases two with closed' | ⟨fault', threw'⟩
    · cases threw.unique closed'
    · cases threw.unique threw'
      rfl

theorem drain_not_idle {served more : List Bytes} {payload : Bytes}
    (servable : ∀ other ∈ served, Servable json other) (faults : Faults json payload) :
    ¬ (drain verdict (excute json Cal.execute)
      (requestStream (served ++ payload :: more))).Idle := by
  intro idle
  obtain ⟨served', rest, split, servable', -, stop⟩ :=
    drain_frames json (served ++ payload :: more) (List.append_nil _)
  rcases stop with ⟨left, stopped, behind⟩ | ⟨fault, payload', others, crashed, -⟩
  · rw [List.append_nil] at behind
    have stalled : verdict (requestStream rest) = .stall :=
      behind ▸ stalled_of_drain_idle stopped
    have foremost := (foremost_nil_of_stall stalled).append servable'
    rw [← split, List.append_nil] at foremost
    obtain rfl := foremost.unique (foremost_of_faults servable faults)
    rw [List.append_cancel_left_eq] at split
    rw [← split] at stalled
    exact verdict_ne_stall (.inr faults) (requestStream more) stalled
  · exact Drained.not_idle_of_crashed crashed idle

theorem nothingLost_of_agree {payloads : List Bytes}
    (plain : ∀ payload ∈ payloads, 0 ∉ payload) (agree : ServersAgree json payloads) :
    NothingLost json payloads := by
  intro served payload more split servable faults
  have singly : ((singles (requestStream payloads)).map Piece.bytes).flatten =
      requestStream payloads := by
    rw [singles_bytes, flatten_singles]
  have atOnce : [requestStream payloads].flatten = requestStream payloads := by simp
  obtain ⟨last, seen, ends, run, same⟩ := agree _ (bytewise [requestStream payloads])
    singly ((bytewise_bytes _).trans atOnce)
  obtain ⟨last', served', ends', foremost, sent⟩ := getRequest_sends json plain singly
  obtain rfl := ends.unique ends'
  obtain rfl : served' = served :=
    foremost.unique (split ▸ foremost_of_faults servable faults)
  have lost : seen.output = [] := by
    have plainStream : 0 ∉ [requestStream payloads].flatten := by
      rw [atOnce]
      exact frames_plain plain
    rw [run_recver_iff, bytewise_received _ plainStream] at run
    rw [run, List.foldl_cons, List.foldl_nil]
    have died : ¬ (drain verdict (excute json Cal.execute)
        (requestStream payloads)).Idle := by
      rw [split]
      exact drain_not_idle servable faults
    have absorbed : Session.start.feed verdict (excute json Cal.execute)
        (requestStream payloads) = Session.absorb .start (requestStream payloads)
          (drain verdict (excute json Cal.execute) (requestStream payloads)) := rfl
    rw [absorbed, Session.absorb_not_idle _ _ died]
    rfl
  rw [lost] at same
  exact (answers_eq_nil_iff servable).mp (sent.symm.trans same)

/-- The two servers agree exactly on the streams in which a fault costs the reactor
server no answer. -/
theorem servers_agree_iff (json : JsonCpp) (payloads : List Bytes)
    (plain : ∀ payload ∈ payloads, 0 ∉ payload) :
    ServersAgree json payloads ↔ NothingLost json payloads :=
  ⟨nothingLost_of_agree plain, agree_of_nothingLost plain⟩

def overflowing : Bytes :=
  (Request.mk (-2147483648) (-1) slash).serialize JsonText.jsonText

theorem overflowing_faults : Faults JsonText.jsonText overflowing := by
  refine .inr ⟨by decide, ?_⟩
  intro answerable
  obtain ⟨response, served⟩ := (excute_isOk_iff JsonText.jsonText overflowing).mpr answerable
  have trapped : excute JsonText.jsonText Cal.execute overflowing =
      .error .undefinedBehaviour := by decide
  rw [trapped] at served
  cases served

/-- A text that is no JSON in front of the overflow is answered by neither server. -/
theorem servers_agree_iff_rejected :
    ServersAgree JsonText.jsonText [ascii "hello", overflowing] := by
  refine (servers_agree_iff JsonText.jsonText _ (by decide)).mpr ?_
  intro served payload more split servable faults other member
  have inside : other ∈ [ascii "hello", overflowing] := by
    rw [split]
    exact List.mem_append_left _ member
  simp only [List.mem_cons, List.not_mem_nil, or_false] at inside
  rcases inside with rfl | rfl
  · decide
  · exact absurd (servable _ member) overflowing_faults.not_servable

/-- The answer `2[0]` is sent by the forking server, and lost with the other. -/
theorem overflow_takes_answer_along :
    let sum := (Request.mk 1 1 plus).serialize JsonText.jsonText
    (∀ payload ∈ [sum, overflowing], 0 ∉ payload) ∧
      ¬ ServersAgree JsonText.jsonText [sum, overflowing] := by
  intro sum
  have plain : ∀ payload ∈ [sum, overflowing], 0 ∉ payload := by decide
  refine ⟨plain, ?_⟩
  intro agree
  have answered : excute JsonText.jsonText Cal.execute sum =
      .ok (encode ((Response.mk 2 0).serialize JsonText.jsonText)) := by decide
  have servable : ∀ other ∈ [sum], Servable JsonText.jsonText other := by
    intro other member
    rw [List.mem_singleton] at member
    subst member
    exact ⟨by decide, (excute_isOk_iff _ _).mp ⟨_, answered⟩⟩
  have rejected := nothingLost_of_agree plain agree [sum] overflowing [] rfl servable
    overflowing_faults sum (List.mem_singleton_self sum)
  revert rejected
  decide

end LinuxSystemLearning.Calculator
