import LinuxSystemLearning.Calculator.EndToEnd
import LinuxSystemLearning.Library.Interleaving
import LinuxSystemLearning.Reactor.Kernel

/-!
# The client's `GetResponse`

The client reads once and then decodes in a loop.  The loop body does not read
again, so a response that is not complete after the one `recv` is waited for in
vain, and a `recv` that returned 0 counts as success.
-/

set_option autoImplicit false

namespace LinuxSystemLearning.Calculator

open LinuxSystemLearning.Cxx
open LinuxSystemLearning.Incremental
open LinuxSystemLearning.Interleaving
open LinuxSystemLearning.Loop
open Protocol
open Reactor (Piece RecvResult)

inductive StreamEnd where
  | eof
  | fail (errno : Nat)

def StreamEnd.result : StreamEnd → RecvResult
  | .eof => .eof
  | .fail errno => .fail errno

/-- The client between two calls: `resp_buffer`, the pieces that `recv` will return,
and what it returns then. -/
structure Client where
  respBuffer : Bytes
  arriving : List Piece
  last : StreamEnd

namespace Client

def recv (client : Client) : RecvResult × Client :=
  match client.arriving with
  | [] => (client.last.result, client)
  | piece :: arriving =>
      (.data piece, { client with
        respBuffer := client.respBuffer ++ cString piece.bytes
        arriving := arriving })

def unread (client : Client) : Bytes :=
  client.respBuffer ++ received (client.arriving.map Piece.bytes)

end Client

structure ResponseState where
  client : Client
  resp : Response

inductive ResponseEnd where
  | returned (ret : Bool) (last : ResponseState)
  | threw (fault : Fault)

variable (json : JsonCpp)

/-- The body of the loop, entered with the result `n` of the one `Recv`. -/
def getResponseStep (n : RecvResult) (st : ResponseState) :
    Step ResponseState ResponseEnd :=
  match n with
  | .data _ =>
      match decode st.client.respBuffer [] with
      | .error fault => .stop (.threw fault)
      | .ok decoded =>
          let client := { st.client with respBuffer := decoded.buffer }
          if decoded.ret then
            match Response.deserialize json decoded.package with
            | .error fault => .stop (.threw fault)
            -- the result of `Deserialize` is not looked at
            | .ok none => .stop (.returned true ⟨client, st.resp⟩)
            | .ok (some resp) => .stop (.returned true ⟨client, resp⟩)
          else .next ⟨client, st.resp⟩
  | .eof => .stop (.returned true st)
  | .fail _ => .stop (.returned false st)

def getResponse (fuel : Nat) (client : Client) (resp : Response) : Option ResponseEnd :=
  let (n, client) := client.recv
  Loop.run (getResponseStep json n) fuel ⟨client, resp⟩

/-- The call returns.  With `true` it has taken the next frame of the stream, and
`*resp` holds its contents; with `false` it has left `*resp` alone. -/
def AnswersNext (client : Client) (resp : Response) : Prop :=
  ∃ fuel ret last, getResponse json fuel client resp = some (.returned ret last) ∧
    (ret = true → ∃ payload, client.unread = encode payload ++ last.client.unread ∧
      Response.deserialize json payload = .ok (some last.resp)) ∧
    (ret = false → last.resp = resp)

/-- The one `recv` fails, or what it returns completes a response at the front of
`resp_buffer`, which jsoncpp reads. -/
def NextResponseArrives (client : Client) : Prop :=
  match client.arriving with
  | [] => client.last ≠ .eof
  | piece :: _ =>
      ∃ payload resp, encode payload <+: client.respBuffer ++ cString piece.bytes ∧
        (encode payload).length < 2 ^ 31 ∧
        Response.deserialize json payload = .ok (some resp)

/-- One call in a session of the client; there is no next one behind a call that has
not returned. -/
def callStep (fuel : Nat) (client : Client) (resp : Response) : Option Client :=
  match getResponse json fuel client resp with
  | some (.returned _ last) => some last.client
  | some (.threw _) => none
  | none => none

variable {json}

/-! ## One iteration -/

theorem getResponseStep_stall {piece : Piece} {st : ResponseState}
    (stalled : verdict st.client.respBuffer = .stall) :
    getResponseStep json (.data piece) st = .next st := by
  simp [getResponseStep, decode_of_stall stalled]

/-- A call that finds no whole response in the buffer decodes the same bytes for ever. -/
theorem not_ends_of_stall {piece : Piece} {st : ResponseState}
    (stalled : verdict st.client.respBuffer = .stall) (result : ResponseEnd) :
    ¬ Ends (getResponseStep json (.data piece)) st result := by
  refine not_ends_of_invariant (· = st) ?_ rfl result
  intro again same
  subst again
  exact ⟨st, getResponseStep_stall stalled, rfl⟩

theorem getResponseStep_crash {piece : Piece} {st : ResponseState} {fault : Fault}
    (crashed : verdict st.client.respBuffer = .crash fault) :
    getResponseStep json (.data piece) st = .stop (.threw fault) := by
  simp [getResponseStep, decode_of_crash crashed]

theorem getResponseStep_take {piece : Piece} {st : ResponseState}
    {package rest : Bytes} (taken : verdict st.client.respBuffer = .take package rest) :
    getResponseStep json (.data piece) st =
      match Response.deserialize json package with
      | .error fault => .stop (.threw fault)
      | .ok none =>
          .stop (.returned true ⟨{ st.client with respBuffer := rest }, st.resp⟩)
      | .ok (some resp) =>
          .stop (.returned true ⟨{ st.client with respBuffer := rest }, resp⟩) := by
  simp [getResponseStep, decode_of_take taken]

/-! ## One call -/

theorem getResponse_of_data {client : Client} {piece : Piece} {arriving : List Piece}
    (arrives : client.arriving = piece :: arriving) (fuel : Nat) (resp : Response) :
    getResponse json fuel client resp =
      Loop.run (getResponseStep json (.data piece)) fuel
        ⟨⟨client.respBuffer ++ cString piece.bytes, arriving, client.last⟩, resp⟩ := by
  simp only [getResponse, Client.recv, arrives]

theorem answersNext_of_data {client : Client} {piece : Piece} {arriving : List Piece}
    (arrives : client.arriving = piece :: arriving) (resp : Response) :
    AnswersNext json client resp ↔ NextResponseArrives json client := by
  let buffer := client.respBuffer ++ cString piece.bytes
  let entered : ResponseState := ⟨⟨buffer, arriving, client.last⟩, resp⟩
  have unread : client.unread = buffer ++ received (arriving.map Piece.bytes) := by
    simp [Client.unread, arrives, received, buffer]
  have condition : NextResponseArrives json client ↔
      ∃ payload resp', encode payload <+: buffer ∧
        (encode payload).length < 2 ^ 31 ∧
        Response.deserialize json payload = .ok (some resp') := by
    simp only [NextResponseArrives, arrives]
    rfl
  rw [condition]
  constructor
  · intro answers
    obtain ⟨fuel, ret, last, ran, answered, -⟩ := answers
    rw [getResponse_of_data arrives] at ran
    have ends := ends_of_run _ _ _ _ ran
    cases verdictEq : verdict buffer with
    | stall => exact absurd ends (not_ends_of_stall verdictEq _)
    | crash fault =>
        have threw : Ends (getResponseStep json (.data piece)) entered (.threw fault) :=
          .stop (getResponseStep_crash verdictEq)
        cases ends.unique threw
    | take package rest =>
        have once : getResponseStep json (.data piece) entered = _ :=
          getResponseStep_take verdictEq
        have succeeded : ret = true := by
          cases read : Response.deserialize json package with
          | error fault =>
              rw [read] at once
              cases ends.unique (.stop once)
          | ok result =>
              rw [read] at once
              cases result with
              | none => cases ends.unique (.stop once); rfl
              | some value => cases ends.unique (.stop once); rfl
        obtain ⟨payload, stream, deserialized⟩ := answered succeeded
        rw [unread] at stream
        obtain ⟨inside, small⟩ := frame_inside verdictEq stream
        exact ⟨payload, last.resp, inside, small, deserialized⟩
  · intro arrived
    obtain ⟨payload, resp', ⟨rest, split⟩, small, deserialized⟩ := arrived
    have taken : verdict buffer = .take payload rest := by
      rw [← split]
      exact verdict_encode payload rest small
    have once : getResponseStep json (.data piece) entered = _ :=
      getResponseStep_take taken
    rw [deserialized] at once
    refine ⟨1, true, ⟨⟨rest, arriving, client.last⟩, resp'⟩, ?_, ?_, ?_⟩
    · have called : getResponse json 1 client resp = Loop.run _ 1 entered :=
        getResponse_of_data arrives 1 resp
      rw [called, Loop.run, once]
    · intro _
      refine ⟨payload, ?_, deserialized⟩
      rw [unread, ← split, List.append_assoc]
      rfl
    · intro impossible
      cases impossible

/-- Where the stream has ended, the call returns at once, and is right to do so only
if it reports a failure. -/
theorem answersNext_of_end {client : Client} (ended : client.arriving = [])
    (resp : Response) :
    AnswersNext json client resp ↔ NextResponseArrives json client := by
  have called : ∀ fuel, getResponse json fuel client resp =
      Loop.run (getResponseStep json client.last.result) fuel ⟨client, resp⟩ := by
    intro fuel
    simp only [getResponse, Client.recv, ended]
  have condition : NextResponseArrives json client ↔ client.last ≠ .eof := by
    simp only [NextResponseArrives, ended]
  rw [condition]
  cases lastEq : client.last with
  | fail errno =>
      apply iff_of_true
      · refine ⟨1, false, ⟨client, resp⟩, ?_, ?_, fun _ => rfl⟩
        · rw [called, lastEq]
          rfl
        · intro impossible
          cases impossible
      · exact fun other => by cases other
  | eof =>
      apply iff_of_false
      · intro answers
        obtain ⟨fuel, ret, last, ran, answered, -⟩ := answers
        rw [called, lastEq] at ran
        have quit : Ends (getResponseStep json StreamEnd.eof.result) ⟨client, resp⟩
            (.returned true ⟨client, resp⟩) := .stop rfl
        cases (ends_of_run _ _ _ _ ran).unique quit
        obtain ⟨payload, stream, -⟩ := answered rfl
        have nothing : encode payload = [] := List.self_eq_append_left.mp stream
        exact encode_ne_nil payload nothing
      · exact fun other => other rfl

theorem answersNext_iff (client : Client) (resp : Response) :
    AnswersNext json client resp ↔ NextResponseArrives json client := by
  cases arrives : client.arriving with
  | nil => exact answersNext_of_end arrives resp
  | cons piece arriving => exact answersNext_of_data arrives resp

/-! ## Calls in a row -/

/-- With what has come in before them the pieces that `count` calls read have the first
`count` responses in them. -/
def InTime (json : JsonCpp) (responses : List Response) (buffer : Bytes) (pieces : List Piece)
    (count : Nat) : Prop :=
  count ≤ responses.length ∧
    ((responses.take count).map fun resp => encode (resp.serialize json)).flatten <+:
      buffer ++ ((pieces.take count).map Piece.bytes).flatten

section

variable {buffer : Bytes} {piece : Piece} {pieces : List Piece} {last : StreamEnd}
  {responses : List Response}

end

/-! ## A session -/

/-- In a session each call does its part exactly if for each call the next response
has arrived when it has read once, or the stream has failed. -/
theorem session_answers_iff (json : JsonCpp) (fuel : Nat) (client : Client)
    (calls : List Response) :
    Throughout (callStep json fuel) (AnswersNext json) client calls ↔
      Throughout (callStep json fuel) (fun client _ => NextResponseArrives json client)
        client calls :=
  throughout_iff (fun _ => True) (fun client resp _ => answersNext_iff client resp)
    (fun _ _ _ _ _ _ => trivial) trivial calls

/-- The response `2[0]`, of which the first byte arrives on its own. -/
def slowClient : Client :=
  let frame := encode ((Response.mk 2 0).serialize JsonText.jsonText)
  ⟨[], [⟨frame.take 1, by decide, by decide⟩, ⟨frame.drop 1, by decide, by decide⟩],
    .eof⟩

theorem waits_in_vain :
    ¬ Throughout (callStep JsonText.jsonText 1) (AnswersNext JsonText.jsonText) slowClient
      [{}] := by
  intro answers
  obtain ⟨payload, resp, inside, -⟩ := (answersNext_iff slowClient {}).mp answers.1
  have size : (encode payload).length ≤ 1 := inside.length_le
  rw [length_encode] at size
  omega

end LinuxSystemLearning.Calculator
