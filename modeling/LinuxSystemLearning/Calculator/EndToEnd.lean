import LinuxSystemLearning.Calculator.Server

/-!
# Client and server end to end

A client sends the texts of `BuildRequestString`, the reactor server answers, and
the client decodes what comes back.  Whatever the segmentation in either
direction, it gets the responses `Execute` computes, in the order of the
requests.
-/

set_option autoImplicit false

namespace LinuxSystemLearning.Calculator

open LinuxSystemLearning.Cxx
open LinuxSystemLearning.Loop
open LinuxSystemLearning.Incremental
open Protocol

variable {json : JsonCpp}

/-! ## The four codecs -/

theorem Request.deserialize_serialize (reads : json.ReadsBack) (req : Request) :
    Request.deserialize json (req.serialize json) = .ok (some req) := by
  obtain ⟨root, parsed, x, y, oper⟩ := reads.request req.x req.y req.oper.toInt32
  obtain ⟨_, xMember, xInt⟩ := bind_eq_ok.mp x
  obtain ⟨_, yMember, yInt⟩ := bind_eq_ok.mp y
  obtain ⟨_, operMember, operInt⟩ := bind_eq_ok.mp oper
  simp [Request.deserialize, Request.serialize, parsed, xMember, xInt, yMember,
    yInt, operMember, operInt, bind, Except.bind, pure, Except.pure]

theorem Response.deserialize_serialize (reads : json.ReadsBack)
    (resp : Response) :
    Response.deserialize json (resp.serialize json) = .ok (some resp) := by
  obtain ⟨root, parsed, result, code⟩ := reads.response resp.result resp.code
  obtain ⟨_, resultMember, resultInt⟩ := bind_eq_ok.mp result
  obtain ⟨_, codeMember, codeInt⟩ := bind_eq_ok.mp code
  simp [Response.deserialize, Response.serialize, parsed, resultMember, resultInt,
    codeMember, codeInt, bind, Except.bind, pure, Except.pure]

theorem excute_serialize (reads : json.ReadsBack) {req : Request} {resp : Response}
    (executed : Cal.execute req = .ok resp) :
    excute json Cal.execute (req.serialize json) =
      .ok (encode (resp.serialize json)) := by
  simp [excute, Request.deserialize_serialize reads, executed, bind, Except.bind,
    pure, Except.pure]

theorem small_of_plain {text : Bytes} (plain : Plain text) :
    (encode text).length < 2 ^ 31 := by
  have room := plain.2
  have digits : (stdToString text.length).length ≤ 10 :=
    length_stdToString_le (by omega) (by omega)
  rw [length_encode]
  omega

theorem encode_plain {text : Bytes} (plain : 0 ∉ text) : 0 ∉ encode text := by
  have digits : 0 ∉ stdToString text.length := by
    intro member
    have digit := isdigit_of_mem_stdToString member
    simp [isdigit] at digit
  simp [encode, sep, digits, plain]

theorem frames_plain {payloads : List Bytes}
    (plain : ∀ payload ∈ payloads, 0 ∉ payload) : 0 ∉ (payloads.map encode).flatten := by
  intro member
  obtain ⟨frame, inFrames, nul⟩ := List.mem_flatten.mp member
  obtain ⟨payload, inPayloads, rfl⟩ := List.mem_map.mp inFrames
  exact encode_plain (plain payload inPayloads) nul

/-- In front of its last byte a frame is not taken. -/
theorem verdict_begun {payload front back : Bytes} (plain : Plain payload)
    (frame : front ++ back = encode payload) (more : back ≠ []) : verdict front = .stall := by
  have small : ∀ other ∈ [payload], (encode other).length < 2 ^ 31 := by
    intro other member
    rw [List.mem_singleton.mp member]
    exact small_of_plain plain
  have framed := selfDelimiting_encode [payload] (fun _ => []) small
    (fun _ _ => (rfl : (Except.ok [] : Except Fault Bytes) = _))
  refine framed.stalled_of_begun (List.mem_singleton_self payload) ⟨back, frame⟩ ?_
  intro whole
  rw [← whole] at frame
  exact more (List.append_right_eq_self.mp frame)

theorem verdict_whole {payload : Bytes} (plain : Plain payload) :
    verdict (encode payload) = .take payload [] := by
  have taken := verdict_encode payload [] (small_of_plain plain)
  rwa [List.append_nil] at taken

theorem received_frames (payloads pieces : List Bytes)
    (plain : ∀ payload ∈ payloads, 0 ∉ payload)
    (sent : pieces.flatten = (payloads.map encode).flatten) :
    received pieces = (payloads.map encode).flatten :=
  received_text pieces _ 0 (frames_plain plain) (by simp [sent])

/-! ## Both directions -/

theorem exists_responses (requests : List Request)
    (defined : ∀ req ∈ requests, req.Defined) :
    ∃ responses : List Response,
      requests.map Cal.execute = responses.map Except.ok := by
  induction requests with
  | nil => exact ⟨[], rfl⟩
  | cons req rest ih =>
      obtain ⟨resp, executed⟩ :=
        (execute_isOk_iff req).mpr (defined req List.mem_cons_self)
      obtain ⟨responses, tail⟩ :=
        ih fun other member => defined other (List.mem_cons_of_mem req member)
      exact ⟨resp :: responses, by simp [executed, tail]⟩

/-- The bytes `Excute` answers a package with, when it returns. -/
def answer (json : JsonCpp) (package : Bytes) : Bytes :=
  match excute json Cal.execute package with
  | .ok response => response
  | .error _ => []

theorem answer_serialize (reads : json.ReadsBack) {req : Request} {resp : Response}
    (executed : Cal.execute req = .ok resp) :
    answer json (req.serialize json) = encode (resp.serialize json) := by
  simp [answer, excute_serialize reads executed]

theorem answers_eq (reads : json.ReadsBack) (requests : List Request)
    (responses : List Response)
    (executed : requests.map Cal.execute = responses.map Except.ok) :
    (requests.map (Request.serialize json)).map (answer json) =
      responses.map fun resp => encode (resp.serialize json) := by
  induction requests generalizing responses with
  | nil =>
      have none_left : responses = [] := by simpa using executed.symm
      simp [none_left]
  | cons req rest ih =>
      cases responses with
      | nil => simp at executed
      | cons resp responses =>
          simp only [List.map_cons, List.cons.injEq] at executed ⊢
          exact ⟨answer_serialize reads executed.1, ih responses executed.2⟩

theorem server_answers (reads : json.ReadsBack) (requests : List Request)
    (responses : List Response)
    (executed : requests.map Cal.execute = responses.map Except.ok)
    (arrivals : List (List Bytes))
    (sent : arrivals.flatten.flatten = (requests.map fun req =>
      buildRequestString json req.x req.y req.oper).flatten) :
    Run (Recver (excute json Cal.execute)) arrivals
      ⟨arrivals.flatten.flatten, [], requests.map (Request.serialize json),
        (responses.map fun resp => encode (resp.serialize json)).flatten, true⟩ := by
  have frames : arrivals.flatten.flatten =
      ((requests.map (Request.serialize json)).map encode).flatten := by
    rw [sent, List.map_map]
    rfl
  have plain : ∀ payload ∈ requests.map (Request.serialize json),
      Plain payload := by
    intro payload member
    obtain ⟨req, -, rfl⟩ := List.mem_map.mp member
    exact reads.requestText req.x req.y req.oper.toInt32
  have served : ∀ payload ∈ requests.map (Request.serialize json),
      excute json Cal.execute payload = .ok (answer json payload) := by
    intro payload member
    obtain ⟨req, inRequests, rfl⟩ := List.mem_map.mp member
    have inResults : Cal.execute req ∈ requests.map Cal.execute :=
      List.mem_map_of_mem inRequests
    rw [executed] at inResults
    obtain ⟨resp, -, run⟩ := List.mem_map.mp inResults
    simp [answer, excute_serialize reads run.symm]
  have delimited := selfDelimiting_encode _ (answer json)
    (fun payload member => small_of_plain (plain payload member)) served
  have arrived : (arrivals.map received).flatten =
      ((requests.map (Request.serialize json)).map encode).flatten := by
    rw [received_flatten]
    exact received_frames _ _ (fun payload member => (plain payload member).1)
      frames
  rw [run_recver_iff]
  have fed := SelfDelimiting.feed _ delimited (arrivals.map received) arrived
  rw [arrived, ← frames, answers_eq reads requests responses executed] at fed
  exact fed.symm

theorem client_reads (reads : json.ReadsBack) (responses : List Response)
    (chunks : List Bytes)
    (sent : chunks.flatten =
      (responses.map fun resp => encode (resp.serialize json)).flatten) :
    Run (Handled fun _ => .ok []) (chunks.map cString)
      ⟨chunks.flatten, [], responses.map (Response.serialize json), [], true⟩ := by
  have frames : chunks.flatten =
      ((responses.map (Response.serialize json)).map encode).flatten := by
    rw [sent, List.map_map]
    rfl
  have plain : ∀ payload ∈ responses.map (Response.serialize json),
      Plain payload := by
    intro payload member
    obtain ⟨resp, -, rfl⟩ := List.mem_map.mp member
    exact reads.responseText resp.result resp.code
  have delimited := selfDelimiting_encode
    (responses.map (Response.serialize json)) (fun _ => [])
    (fun payload member => small_of_plain (plain payload member))
    (fun _ _ => (rfl : (Except.ok [] : Except Fault Bytes) = _))
  have arrived : (chunks.map cString).flatten =
      ((responses.map (Response.serialize json)).map encode).flatten :=
    received_frames _ _ (fun payload member => (plain payload member).1) frames
  rw [run_handled_iff]
  have fed := SelfDelimiting.feed _ delimited (chunks.map cString) arrived
  rw [arrived, ← frames] at fed
  simp only [List.map_const', List.flatten_replicate_nil] at fed
  exact fed.symm

theorem end_to_end (reads : json.ReadsBack) (requests : List Request)
    (defined : ∀ req ∈ requests, req.Defined) (arrivals : List (List Bytes))
    (sent : arrivals.flatten.flatten = (requests.map fun req =>
      buildRequestString json req.x req.y req.oper).flatten) :
    ∃ server, Run (Recver (excute json Cal.execute)) arrivals server ∧
      server.alive = true ∧ server.buffer = [] ∧
      ∀ chunks : List Bytes, chunks.flatten = server.output →
        ∃ client, Run (Handled fun _ => .ok []) (chunks.map cString) client ∧
          client.alive = true ∧ client.buffer = [] ∧
          client.items.map (Response.deserialize json) =
            requests.map fun req => (Cal.execute req).map some := by
  obtain ⟨responses, executed⟩ := exists_responses requests defined
  refine ⟨_, server_answers reads requests responses executed arrivals sent,
    rfl, rfl, ?_⟩
  intro chunks returned
  refine ⟨_, client_reads reads responses chunks returned, rfl, rfl, ?_⟩
  have wrapped : (requests.map fun req => (Cal.execute req).map some) =
      (requests.map Cal.execute).map (Except.map some) := by
    rw [List.map_map]
    rfl
  rw [wrapped, executed, List.map_map, List.map_map]
  apply List.map_congr_left
  intro resp _
  exact Response.deserialize_serialize reads resp

/-- A sum, a division by zero and a negative operator, the bytes cut in two. -/
theorem end_to_end_three :
    let sent := ([⟨10, -7, 43⟩, ⟨1, 0, 47⟩, ⟨5, 5, -3⟩].map fun req : Request =>
      buildRequestString JsonText.jsonText req.x req.y req.oper).flatten
    ∃ server, Run (Recver (excute JsonText.jsonText Cal.execute))
        [[sent.take 20], [sent.drop 20]] server ∧
      server.alive = true ∧ server.buffer = [] ∧
      ∀ chunks : List Bytes, chunks.flatten = server.output →
        ∃ client, Run (Handled fun _ => .ok []) (chunks.map cString) client ∧
          client.alive = true ∧ client.buffer = [] ∧
          client.items.map (Response.deserialize JsonText.jsonText) =
            [.ok (some ⟨3, 0⟩), .ok (some ⟨0, 1⟩), .ok (some ⟨0, 3⟩)] :=
  end_to_end JsonText.jsonText_readsBack
    [⟨10, -7, 43⟩, ⟨1, 0, 47⟩, ⟨5, 5, -3⟩] (by decide) _
    (by simp [List.take_append_drop])

end LinuxSystemLearning.Calculator
