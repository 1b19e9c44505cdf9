import Mathlib.Algebra.GroupWithZero.Nat
import LinuxSystemLearning.Calculator.Client
import LinuxSystemLearning.Calculator.ForkingServer

/-!
# The client and the forking server

The client sends a request and reads one response before it asks again.  The two byte streams
of the connection may be cut anywhere, and either side may find the connection broken.
-/

set_option autoImplicit false

namespace LinuxSystemLearning.Conversation

open LinuxSystemLearning.Calculator LinuxSystemLearning.Calculator.Protocol
open LinuxSystemLearning.Cxx
open LinuxSystemLearning.Incremental
open LinuxSystemLearning.Interleaving
open LinuxSystemLearning.Loop
open Reactor (Piece RecvResult)

/-! ## The two processes -/

/-- Where the loop of `main` stands. -/
inductive Phase where
  | asking
  /-- In front of the `Recv` of `GetResponse`. -/
  | calling
  /-- In the loop of `GetResponse`, with the result of `Recv`. -/
  | parsing (n : RecvResult)
  | left
deriving DecidableEq

structure State where
  phase : Phase
  respBuffer : Bytes
  /-- The bytes on the way to the server and to the client. -/
  up : Bytes
  down : Bytes
  server : ForkState
  /-- The server process has closed the connection. -/
  closed : Bool
  /-- What the user will ask, has asked, and was shown. -/
  todo : List Request
  asked : List Request
  shown : List Response

inductive Event where
  | ask
  /-- `Recv` of the client gets so many bytes, or finds the end, or fails. -/
  | recv (size : Nat)
  | eof
  | fail (errno : Nat)
  /-- A round of the loop in `GetResponse`. -/
  | parse
  | quit
  /-- `Recv` of the server gets so many bytes, or returns 0 or less. -/
  | serverRecv (size : Nat)
  | serverEnd
  /-- A round of the inner loop in `GetRequest`. -/
  | serverParse

/-- What one call takes off a stream; it waits for a byte. -/
def pieceOf (size : Nat) (stream : Bytes) : Option Piece :=
  if any : stream.take size ≠ [] ∧ (stream.take size).length ≤ 1023 then
    some ⟨stream.take size, any.1, any.2⟩
  else none

def noResult : Response := {}

variable (json : JsonCpp)

def ask (st : State) : Option State :=
  match st.phase, st.todo with
  | .asking, req :: todo =>
      some
        { st with
          phase := .calling
          up := st.up ++ buildRequestString json req.x req.y req.oper
          todo := todo
          asked := st.asked ++ [req] }
  | _, _ => none

def recv (size : Nat) (st : State) : Option State :=
  if st.phase = .calling then
    (pieceOf size st.down).map fun piece =>
      let (n, client) := Client.recv ⟨st.respBuffer, [piece], .eof⟩
      { st with
        phase := .parsing n
        respBuffer := client.respBuffer
        down := st.down.drop size }
  else none

def parse (st : State) : Option State :=
  match st.phase with
  | .parsing n =>
      match getResponseStep json n ⟨⟨st.respBuffer, [], .eof⟩, noResult⟩ with
      | .next now => some { st with respBuffer := now.client.respBuffer }
      | .stop (.returned true last) =>
          some
            { st with
              phase := .asking
              respBuffer := last.client.respBuffer
              shown := st.shown ++ [last.resp] }
      | .stop (.returned false _) => some { st with phase := .left }
      | .stop (.threw _) => some { st with phase := .left }
  | _ => none

/-- A round of the server, with what its `Recv` gets; the answers go on their way. -/
def serverRound (arriving : List Piece) (st : State) : State :=
  match getRequestStep json { st.server with arriving := arriving } with
  | .next after =>
      { st with
        server := { after with arriving := [], sent := [] }
        down := st.down ++ after.sent }
  | .stop _ => { st with closed := true }

def step (st : State) : Event → Option State
  | .ask => ask json st
  | .recv size => recv size st
  | .eof =>
      if st.phase = .calling ∧ st.down = [] ∧ st.closed = true then
        some { st with phase := .parsing .eof }
      else none
  | .fail errno =>
      if st.phase = .calling then some { st with phase := .parsing (.fail errno) } else none
  | .parse => parse json st
  | .quit => if st.phase = .left then none else some { st with phase := .left }
  | .serverRecv size =>
      match st.closed, st.server.phase with
      | false, .recv => (pieceOf size st.up).map fun piece =>
          serverRound json [piece] { st with up := st.up.drop size }
      | _, _ => none
  | .serverEnd =>
      match st.closed, st.server.phase with
      | false, .recv => some (serverRound json [] st)
      | _, _ => none
  | .serverParse =>
      match st.closed, st.server.phase with
      | false, .decode => some (serverRound json [] st)
      | _, _ => none

def start (requests : List Request) : State where
  phase := .asking
  respBuffer := []
  up := []
  down := []
  server := .enter []
  closed := false
  todo := requests
  asked := []
  shown := []

/-! ## What the client shows -/

/-- The results of the requests in their order, one for each but the last, and behind them
`0[0]` once the server is gone. -/
structure Truthful (st : State) : Prop where
  oneEach : st.shown.length ≤ st.asked.length ∧ st.asked.length ≤ st.shown.length + 1
  results : ∃ (made : List Response) (n : Nat), st.shown = made ++ List.replicate n noResult ∧
    made.map Except.ok <+: st.asked.map Cal.execute ∧ (n ≠ 0 → st.closed = true)

/-- The connection holds, the user stays, and `Recv` of the client gets the whole response. -/
def Smooth (st : State) : Event → Prop
  | .recv size => st.down.length ≤ size
  | .eof => False
  | .fail _ => False
  | .quit => False
  | .serverEnd => False
  | _ => True

instance (st : State) (event : Event) : Decidable (Smooth st event) :=
  match event with
  | .recv size => inferInstanceAs (Decidable (st.down.length ≤ size))
  | .eof => inferInstanceAs (Decidable False)
  | .fail _ => inferInstanceAs (Decidable False)
  | .quit => inferInstanceAs (Decidable False)
  | .serverEnd => inferInstanceAs (Decidable False)
  | .ask => inferInstanceAs (Decidable True)
  | .parse => inferInstanceAs (Decidable True)
  | .serverRecv _ => inferInstanceAs (Decidable True)
  | .serverParse => inferInstanceAs (Decidable True)

def smoothStep (st : State) (event : Event) : Option State :=
  if Smooth st event then step json st event else none

def AllShown (requests : List Request) (st : State) : Prop :=
  st.todo = [] ∧ requests.map Cal.execute = st.shown.map Except.ok

/-! ## Pieces and frames -/

variable {json} {requests : List Request} {st after : State}

theorem pieceOf_eq_some {size : Nat} {stream : Bytes} {piece : Piece}
    (taken : pieceOf size stream = some piece) :
    stream = piece.bytes ++ stream.drop size := by
  unfold pieceOf at taken
  split at taken
  · cases taken
    exact (List.take_append_drop size stream).symm
  · cases taken

theorem exists_pieceOf {size : Nat} {stream : Bytes} (any : stream ≠ []) (positive : 0 < size)
    (fits : (stream.take size).length ≤ 1023) : ∃ piece, pieceOf size stream = some piece := by
  refine ⟨_, dif_pos ⟨?_, fits⟩⟩
  intro empty
  rcases List.take_eq_nil_iff.mp empty with none | nothing
  · omega
  · exact any nothing

theorem piece_plain {size : Nat} {stream before payload : Bytes} {piece : Piece}
    (taken : pieceOf size stream = some piece) (frame : before ++ stream = encode payload)
    (plain : 0 ∉ payload) :
    (before ++ cString piece.bytes) ++ stream.drop size = encode payload := by
  have cut := pieceOf_eq_some taken
  have inside : 0 ∉ piece.bytes := by
    intro member
    refine encode_plain plain ?_
    rw [← frame, cut]
    exact List.mem_append_right _ (List.mem_append_left _ member)
  rw [cString_plain inside, List.append_assoc, ← cut, frame]

/-! ## What each event does -/

theorem ask_eq_some (moved : Conversation.ask json st = some after) :
    st.phase = .asking ∧ ∃ req todo, st.todo = req :: todo ∧
      after = { st with
        phase := .calling
        up := st.up ++ encode (req.serialize json)
        todo := todo
        asked := st.asked ++ [req] } := by
  unfold Conversation.ask at moved
  split at moved
  · rename_i req todo phase script
    cases moved
    exact ⟨phase, req, todo, script, rfl⟩
  · cases moved

theorem recv_eq_some {size : Nat} (moved : Conversation.recv size st = some after) :
    st.phase = .calling ∧ ∃ piece, pieceOf size st.down = some piece ∧
      after = { st with
        phase := .parsing (.data piece)
        respBuffer := st.respBuffer ++ cString piece.bytes
        down := st.down.drop size } := by
  unfold Conversation.recv at moved
  split at moved
  · rename_i phase
    obtain ⟨piece, taken, same⟩ := Option.map_eq_some_iff.mp moved
    exact ⟨phase, piece, taken, same.symm⟩
  · cases moved

theorem eof_eq_some (moved : Conversation.step json st .eof = some after) :
    (st.phase = .calling ∧ st.down = [] ∧ st.closed = true) ∧
      after = { st with phase := .parsing .eof } := by
  rw [Conversation.step] at moved
  split at moved
  · rename_i ended
    cases moved
    exact ⟨ended, rfl⟩
  · cases moved

theorem fail_eq_some {errno : Nat} (moved : Conversation.step json st (.fail errno) = some after) :
    st.phase = .calling ∧ after = { st with phase := .parsing (.fail errno) } := by
  rw [Conversation.step] at moved
  split at moved
  · rename_i phase
    cases moved
    exact ⟨phase, rfl⟩
  · cases moved

theorem quit_eq_some (moved : Conversation.step json st .quit = some after) :
    after = { st with phase := .left } := by
  rw [Conversation.step] at moved
  split at moved
  · cases moved
  · cases moved
    rfl

theorem serverRecv_eq_some {size : Nat}
    (moved : Conversation.step json st (.serverRecv size) = some after) :
    st.closed = false ∧ st.server.phase = .recv ∧ ∃ piece, pieceOf size st.up = some piece ∧
      after = serverRound json [piece] { st with up := st.up.drop size } := by
  rw [Conversation.step] at moved
  split at moved
  · rename_i open_ phase
    obtain ⟨piece, taken, rfl⟩ := Option.map_eq_some_iff.mp moved
    exact ⟨open_, phase, piece, taken, rfl⟩
  · cases moved

theorem serverEnd_eq_some (moved : Conversation.step json st .serverEnd = some after) :
    st.closed = false ∧ st.server.phase = .recv ∧ after = serverRound json [] st := by
  rw [Conversation.step] at moved
  split at moved
  · rename_i open_ phase
    cases moved
    exact ⟨open_, phase, rfl⟩
  · cases moved

theorem serverParse_eq_some (moved : Conversation.step json st .serverParse = some after) :
    st.closed = false ∧ st.server.phase = .decode ∧ after = serverRound json [] st := by
  rw [Conversation.step] at moved
  split at moved
  · rename_i open_ phase
    cases moved
    exact ⟨open_, phase, rfl⟩
  · cases moved

/-! ## What was shown -/

/-- A line was shown for each of these requests. -/
def Told (closed : Bool) (asked : List Request) (shown : List Response) : Prop :=
  shown.length = asked.length ∧
    ∃ (made : List Response) (n : Nat), shown = made ++ List.replicate n noResult ∧
      made.map Except.ok <+: asked.map Cal.execute ∧ (n ≠ 0 → closed = true)

theorem Told.close {closed : Bool} {asked : List Request} {shown : List Response}
    (told : Told closed asked shown) : Told true asked shown := by
  obtain ⟨length, made, n, split, results, -⟩ := told
  exact ⟨length, made, n, split, results, fun _ => rfl⟩

theorem Told.all {asked : List Request} {shown : List Response} (told : Told false asked shown) :
    asked.map Cal.execute = shown.map Except.ok := by
  obtain ⟨length, made, n, rfl, results, open_⟩ := told
  cases n with
  | zero =>
      rw [List.replicate_zero, List.append_nil] at length ⊢
      refine (results.eq_of_length ?_).symm
      rw [List.length_map, List.length_map, length]
  | succ n => cases open_ (Nat.succ_ne_zero n)

theorem told_of_all {closed : Bool} {asked : List Request} {shown : List Response}
    (all : asked.map Cal.execute = shown.map Except.ok) : Told closed asked shown := by
  refine ⟨?_, shown, 0, by simp, by rw [all], fun nonzero => absurd rfl nonzero⟩
  have same := congrArg List.length all
  rwa [List.length_map, List.length_map, eq_comm] at same

theorem Told.answer {closed : Bool} {asked : List Request} {shown : List Response}
    (told : Told false asked shown) {req : Request} {resp : Response}
    (executed : Cal.execute req = .ok resp) :
    Told closed (asked ++ [req]) (shown ++ [resp]) := by
  refine told_of_all ?_
  rw [List.map_append, List.map_append, told.all]
  simp [executed]

theorem Told.nothing {asked : List Request} {shown : List Response}
    (told : Told true asked shown) (req : Request) :
    Told true (asked ++ [req]) (shown ++ [noResult]) := by
  obtain ⟨length, made, n, rfl, results, -⟩ := told
  refine ⟨?_, made, n + 1, ?_, ?_, fun _ => rfl⟩
  · rw [List.length_append, length, List.length_append]
    rfl
  · rw [List.append_assoc, List.replicate_succ']
  · rw [List.map_append]
    exact results.trans (List.prefix_append _ _)

/-! ## Where the conversation stands -/

/-- Nothing is on its way to the server, or in its buffer. -/
def Quiet (st : State) : Prop := st.closed = false → st.up = [] ∧ st.server.inbuffer = []

variable (json) in
inductive Standing (st : State) : Prop where
  | idle (phase : st.phase = .asking) (down : st.down = []) (buffer : st.respBuffer = [])
      (quiet : Quiet st) (told : Told st.closed st.asked st.shown)
  | waiting (earlier : List Request) (req : Request) (phase : st.phase = .calling)
      (asked : st.asked = earlier ++ [req]) (down : st.down = []) (buffer : st.respBuffer = [])
      (coming : st.closed = false →
        st.server.inbuffer ++ st.up = encode (req.serialize json) ∧
          (st.server.phase = .recv → st.up ≠ []))
      (told : Told st.closed earlier st.shown)
  | answered (earlier : List Request) (req : Request) (resp : Response)
      (phase : (st.phase = .calling ∧ st.respBuffer = []) ∨
        ∃ piece, st.phase = .parsing (.data piece))
      (asked : st.asked = earlier ++ [req]) (executed : Cal.execute req = .ok resp)
      (frame : st.respBuffer ++ st.down = encode (resp.serialize json)) (quiet : Quiet st)
      (told : Told false earlier st.shown)
  | ended (earlier : List Request) (req : Request) (phase : st.phase = .parsing .eof)
      (asked : st.asked = earlier ++ [req]) (down : st.down = []) (buffer : st.respBuffer = [])
      (closed : st.closed = true) (told : Told true earlier st.shown)
  | finished (earlier : List Request)
      (phase : st.phase = .left ∨ ∃ errno, st.phase = .parsing (.fail errno))
      (asked : earlier <+: st.asked ∧ st.asked.length ≤ earlier.length + 1)
      (told : Told st.closed earlier st.shown)

variable (json requests) in
structure Inv (st : State) : Prop where
  script : st.asked ++ st.todo = requests
  unsent : st.server.sent = []
  standing : Standing json st

theorem inv_start (requests : List Request) : Inv json requests (start requests) where
  script := rfl
  unsent := rfl
  standing := .idle rfl rfl rfl (fun _ => ⟨rfl, rfl⟩) (told_of_all rfl)

theorem Standing.earlier (standing : Standing json st) :
    ∃ earlier, earlier <+: st.asked ∧ st.asked.length ≤ earlier.length + 1 ∧
      Told st.closed earlier st.shown := by
  have but_last : ∀ earlier (req : Request), st.asked = earlier ++ [req] →
      earlier <+: st.asked ∧ st.asked.length ≤ earlier.length + 1 := by
    intro earlier req asked
    rw [asked, List.length_append]
    exact ⟨List.prefix_append _ _, Nat.le_refl _⟩
  cases standing with
  | idle _ _ _ _ told => exact ⟨st.asked, List.prefix_refl _, Nat.le_succ _, told⟩
  | waiting earlier req _ asked _ _ _ told =>
      exact ⟨earlier, (but_last earlier req asked).1, (but_last earlier req asked).2, told⟩
  | answered earlier req _ _ asked _ _ _ told =>
      exact ⟨earlier, (but_last earlier req asked).1, (but_last earlier req asked).2,
        told_of_all told.all⟩
  | ended earlier req _ asked _ _ closed told =>
      refine ⟨earlier, (but_last earlier req asked).1, (but_last earlier req asked).2, ?_⟩
      rw [closed]
      exact told
  | finished earlier _ asked told => exact ⟨earlier, asked.1, asked.2, told⟩

theorem Standing.truthful (standing : Standing json st) : Truthful st := by
  obtain ⟨earlier, front, near, length, made, n, split, results, closed⟩ := standing.earlier
  refine ⟨⟨?_, by omega⟩, made, n, split, ?_, closed⟩
  · rw [length]
    exact front.length_le
  · obtain ⟨back, asked⟩ := front
    rw [← asked, List.map_append]
    exact results.trans (List.prefix_append _ _)

theorem Standing.leave (standing : Standing json st) {phase : Phase}
    (gone : phase = .left ∨ ∃ errno, phase = .parsing (.fail errno)) :
    Standing json { st with phase := phase } := by
  obtain ⟨earlier, front, near, told⟩ := standing.earlier
  exact .finished earlier gone ⟨front, near⟩ told

/-! ## The client moves -/

theorem encode_plain_ne_nil (payload : Bytes) {front : Bytes} (frame : front = encode payload) :
    front ≠ [] := by
  rw [frame]
  exact encode_ne_nil payload

theorem pieceOf_nil (size : Nat) : pieceOf size [] = none :=
  dif_neg (by simp)

theorem Standing.ask (standing : Standing json st)
    (moved : Conversation.ask json st = some after) :
    Standing json after ∧ after.asked ++ after.todo = st.asked ++ st.todo ∧
      after.server = st.server := by
  obtain ⟨phase, req, todo, script, rfl⟩ := ask_eq_some moved
  refine ⟨?_, ?_, rfl⟩
  · cases standing with
    | idle _ down buffer quiet told =>
        refine .waiting st.asked req rfl rfl down buffer ?_ told
        intro open_
        obtain ⟨up, inbuffer⟩ := quiet open_
        refine ⟨?_, fun _ => ?_⟩
        · show st.server.inbuffer ++ (st.up ++ _) = _
          rw [inbuffer, up]
          rfl
        · show st.up ++ encode _ ≠ []
          rw [up]
          exact encode_ne_nil _
    | waiting _ _ other =>
        rw [phase] at other
        cases other
    | answered _ _ _ other =>
        rcases other with ⟨other, -⟩ | ⟨_, other⟩
        · rw [phase] at other
          cases other
        · rw [phase] at other
          cases other
    | ended _ _ other =>
        rw [phase] at other
        cases other
    | finished _ other =>
        rcases other with other | ⟨_, other⟩
        · rw [phase] at other
          cases other
        · rw [phase] at other
          cases other
  · show (st.asked ++ [req]) ++ todo = _
    rw [script, List.append_assoc]
    rfl

/-- Behind a call the client stands in front of `Recv`, and nothing came, or the answer. -/
theorem Standing.called (standing : Standing json st) (phase : st.phase = .calling) :
    st.respBuffer = [] ∧
      ((st.down = [] ∧ ∃ earlier req, st.asked = earlier ++ [req] ∧
          (st.closed = false → st.server.inbuffer ++ st.up = encode (req.serialize json) ∧
            (st.server.phase = .recv → st.up ≠ [])) ∧
          Told st.closed earlier st.shown) ∨
        ∃ earlier req resp, st.asked = earlier ++ [req] ∧ Cal.execute req = .ok resp ∧
          st.down = encode (resp.serialize json) ∧ Quiet st ∧ Told false earlier st.shown) := by
  cases standing with
  | idle other =>
      rw [phase] at other
      cases other
  | waiting earlier req _ asked down buffer coming told =>
      exact ⟨buffer, Or.inl ⟨down, earlier, req, asked, coming, told⟩⟩
  | answered earlier req resp other asked executed frame quiet told =>
      rcases other with ⟨-, buffer⟩ | ⟨_, other⟩
      · rw [buffer] at frame
        exact ⟨buffer, Or.inr ⟨earlier, req, resp, asked, executed, frame, quiet, told⟩⟩
      · rw [phase] at other
        cases other
  | ended _ _ other =>
      rw [phase] at other
      cases other
  | finished _ other =>
      rcases other with other | ⟨_, other⟩
      · rw [phase] at other
        cases other
      · rw [phase] at other
        cases other

theorem Standing.recv {size : Nat} (reads : json.ReadsBack) (standing : Standing json st)
    (moved : Conversation.recv size st = some after) : Standing json after := by
  obtain ⟨phase, piece, taken, rfl⟩ := recv_eq_some moved
  obtain ⟨buffer, came⟩ := standing.called phase
  rcases came with ⟨down, -⟩ | ⟨earlier, req, resp, asked, executed, frame, quiet, told⟩
  · rw [down, pieceOf_nil] at taken
    cases taken
  · have plain := (reads.responseText resp.result resp.code).1
    refine .answered earlier req resp (Or.inr ⟨piece, rfl⟩) asked executed ?_ quiet told
    refine piece_plain taken ?_ plain
    rw [buffer]
    exact frame

theorem Standing.eof (standing : Standing json st) (phase : st.phase = .calling)
    (none : st.down = []) (closed : st.closed = true) :
    Standing json { st with phase := .parsing .eof } := by
  obtain ⟨buffer, came⟩ := standing.called phase
  rcases came with ⟨down, earlier, req, asked, -, told⟩ | ⟨_, _, resp, -, -, frame, -⟩
  · rw [closed] at told
    exact .ended earlier req rfl asked down buffer closed told
  · exact absurd none (encode_plain_ne_nil _ frame)

/-- What a round of the loop in `GetResponse` makes of a response. -/
theorem parse_data (reads : json.ReadsBack) {piece : Piece} {resp : Response}
    (phase : st.phase = .parsing (.data piece))
    (frame : st.respBuffer ++ st.down = encode (resp.serialize json)) :
    (st.down ≠ [] ∧ verdict st.respBuffer = .stall ∧ Conversation.parse json st = some st) ∨
      (st.down = [] ∧ Conversation.parse json st =
        some { st with
          phase := .asking
          respBuffer := []
          shown := st.shown ++ [resp] }) := by
  have plain := reads.responseText resp.result resp.code
  by_cases whole : st.down = []
  · right
    refine ⟨whole, ?_⟩
    rw [whole, List.append_nil] at frame
    have taken : verdict st.respBuffer = .take (resp.serialize json) [] := by
      rw [frame]
      exact verdict_whole plain
    have once : getResponseStep json (.data piece) ⟨⟨st.respBuffer, [], .eof⟩, noResult⟩ = _ :=
      getResponseStep_take taken
    rw [Response.deserialize_serialize reads] at once
    rw [Conversation.parse, phase]
    simp only [once, whole]
  · left
    have stalled := verdict_begun plain frame whole
    refine ⟨whole, stalled, ?_⟩
    have once : getResponseStep json (.data piece) ⟨⟨st.respBuffer, [], .eof⟩, noResult⟩ = _ :=
      getResponseStep_stall stalled
    rw [Conversation.parse, phase]
    simp only [once]
    rw [← phase]

theorem Standing.parse (reads : json.ReadsBack) (standing : Standing json st)
    (moved : Conversation.parse json st = some after) :
    Standing json after ∧ after.asked = st.asked ∧ after.todo = st.todo ∧
      after.server = st.server := by
  cases standing with
  | idle phase =>
      rw [Conversation.parse, phase] at moved
      cases moved
  | waiting _ _ phase =>
      rw [Conversation.parse, phase] at moved
      cases moved
  | answered earlier req resp phase asked executed frame quiet told =>
      rcases phase with ⟨phase, -⟩ | ⟨piece, phase⟩
      · rw [Conversation.parse, phase] at moved
        cases moved
      · rcases parse_data reads phase frame with ⟨-, -, same⟩ | ⟨down, same⟩
        · rw [same] at moved
          cases moved
          refine ⟨?_, rfl, rfl, rfl⟩
          exact .answered earlier req resp (Or.inr ⟨piece, phase⟩) asked executed frame quiet told
        · rw [same] at moved
          cases moved
          refine ⟨.idle rfl down rfl quiet ?_, rfl, rfl, rfl⟩
          show Told st.closed st.asked (st.shown ++ [resp])
          rw [asked]
          exact told.answer executed
  | ended earlier req phase asked down buffer closed told =>
      rw [Conversation.parse, phase] at moved
      cases moved
      refine ⟨.idle rfl down buffer ?_ ?_, rfl, rfl, rfl⟩
      · intro open_
        have open_ : st.closed = false := open_
        rw [closed] at open_
        cases open_
      · show Told st.closed st.asked (st.shown ++ [noResult])
        rw [asked, closed]
        exact told.nothing req
  | finished earlier phase asked told =>
      rcases phase with phase | ⟨errno, phase⟩
      · rw [Conversation.parse, phase] at moved
        cases moved
      · rw [Conversation.parse, phase] at moved
        cases moved
        exact ⟨.finished earlier (Or.inl rfl) asked told, rfl, rfl, rfl⟩

/-! ## The server moves -/

variable (json) in
theorem serverRound_kept (arriving : List Piece) (st : State) :
    let after := serverRound json arriving st
    after.phase = st.phase ∧ after.respBuffer = st.respBuffer ∧ after.up = st.up ∧
      after.todo = st.todo ∧ after.asked = st.asked ∧ after.shown = st.shown ∧
      (after.closed = st.closed ∨ after.closed = true) := by
  unfold serverRound
  split
  · exact ⟨rfl, rfl, rfl, rfl, rfl, rfl, Or.inl rfl⟩
  · exact ⟨rfl, rfl, rfl, rfl, rfl, rfl, Or.inr rfl⟩

theorem serverRound_recv {piece : Piece} (phase : st.server.phase = .recv)
    (unsent : st.server.sent = []) :
    serverRound json [piece] st = { st with
      server := ⟨.decode, [], st.server.inbuffer ++ cString piece.bytes, [], []⟩ } := by
  simp [serverRound, getRequestStep, phase, unsent]

theorem serverRound_end (phase : st.server.phase = .recv) :
    serverRound json [] st = { st with closed := true } := by
  simp [serverRound, getRequestStep, phase]

theorem serverRound_stall (phase : st.server.phase = .decode) (unsent : st.server.sent = [])
    (stalled : verdict st.server.inbuffer = .stall) :
    serverRound json [] st = { st with
      server := ⟨.recv, [], st.server.inbuffer, st.server.jsonPackage, []⟩ } := by
  let entered : ForkState := { st.server with arriving := [] }
  have decoding : entered.phase = .decode := phase
  have once : getRequestStep json entered = _ := getRequestStep_stall decoding stalled
  rw [serverRound, once]
  simp [entered, unsent]

theorem serverRound_whole (reads : json.ReadsBack) {req : Request} {resp : Response}
    (phase : st.server.phase = .decode) (unsent : st.server.sent = [])
    (frame : st.server.inbuffer = encode (req.serialize json))
    (executed : Cal.execute req = .ok resp) :
    serverRound json [] st = { st with
      server := ⟨.decode, [], [], req.serialize json, []⟩
      down := st.down ++ encode (resp.serialize json) } := by
  have plain := reads.requestText req.x req.y req.oper.toInt32
  let entered : ForkState := { st.server with arriving := [] }
  have decoding : entered.phase = .decode := phase
  have taken : verdict entered.inbuffer = .take (req.serialize json) [] := by
    show verdict st.server.inbuffer = _
    rw [frame]
    exact verdict_whole plain
  have once : getRequestStep json entered = _ := getRequestStep_take decoding taken
  rw [excute_serialize reads executed] at once
  rw [serverRound, once]
  simp [entered, unsent, phase]

theorem serverRound_unsent (arriving : List Piece) (unsent : st.server.sent = []) :
    (serverRound json arriving st).server.sent = [] := by
  unfold serverRound
  split
  · rfl
  · exact unsent

theorem Standing.close (standing : Standing json st) :
    Standing json { st with closed := true } := by
  have vacuous : ∀ {P : Prop}, true = false → P := by
    intro _ impossible
    cases impossible
  cases standing with
  | idle phase down buffer _ told => exact .idle phase down buffer vacuous told.close
  | waiting earlier req phase asked down buffer _ told =>
      exact .waiting earlier req phase asked down buffer vacuous told.close
  | answered earlier req resp phase asked executed frame _ told =>
      exact .answered earlier req resp phase asked executed frame vacuous told
  | ended earlier req phase asked down buffer _ told =>
      exact .ended earlier req phase asked down buffer rfl told
  | finished earlier phase asked told => exact .finished earlier phase asked told.close

theorem Standing.serverRecv {size : Nat} {piece : Piece} (reads : json.ReadsBack)
    (standing : Standing json st) (open_ : st.closed = false) (phase : st.server.phase = .recv)
    (unsent : st.server.sent = []) (taken : pieceOf size st.up = some piece) :
    Standing json (serverRound json [piece] { st with up := st.up.drop size }) := by
  let before : State := { st with up := st.up.drop size }
  have moved : serverRound json [piece] before = _ := serverRound_recv phase unsent
  have nothing : st.up ≠ [] := by
    intro empty
    rw [empty, pieceOf_nil] at taken
    cases taken
  show Standing json (serverRound json [piece] before)
  rw [moved]
  cases standing with
  | idle _ _ _ quiet => exact absurd (quiet open_).1 nothing
  | waiting earlier req phase asked down buffer coming told =>
      refine .waiting earlier req phase asked down buffer ?_ told
      intro _
      refine ⟨piece_plain taken (coming open_).1 ?_, ?_⟩
      · exact (reads.requestText req.x req.y req.oper.toInt32).1
      · intro impossible
        cases impossible
  | answered _ _ _ _ _ _ _ quiet => exact absurd (quiet open_).1 nothing
  | ended _ _ _ _ _ _ closed =>
      rw [open_] at closed
      cases closed
  | finished earlier phase asked told => exact .finished earlier phase asked told

theorem Inv.parse_cases (reads : json.ReadsBack) (defined : ∀ req ∈ requests, req.Defined)
    (inv : Inv json requests st) (open_ : st.closed = false)
    (phase : st.server.phase = .decode) (busy : st.phase ≠ .left)
    (holds : ∀ errno, st.phase ≠ .parsing (.fail errno)) :
    (serverRound json [] st = { st with
        server := ⟨.recv, [], st.server.inbuffer, st.server.jsonPackage, []⟩ } ∧
      Standing json (serverRound json [] st)) ∨
    (∃ package answer : Bytes, st.phase = .calling ∧ st.server.inbuffer ≠ [] ∧
      serverRound json [] st = { st with
        server := ⟨.decode, [], [], package, []⟩
        down := answer } ∧
      Standing json (serverRound json [] st)) := by
  have unsent := inv.unsent
  have quiet_case : Quiet st → serverRound json [] st = { st with
      server := ⟨.recv, [], st.server.inbuffer, st.server.jsonPackage, []⟩ } := by
    intro quiet
    refine serverRound_stall phase unsent ?_
    rw [(quiet open_).2]
    exact verdict_without_sep rfl
  cases inv.standing with
  | idle phase down buffer quiet told =>
      left
      refine ⟨quiet_case quiet, ?_⟩
      rw [quiet_case quiet]
      exact .idle phase down buffer quiet told
  | waiting earlier req called asked down buffer coming told =>
      obtain ⟨frame, -⟩ := coming open_
      have plain := reads.requestText req.x req.y req.oper.toInt32
      by_cases whole : st.up = []
      · right
        have member : req ∈ requests := by
          rw [← inv.script, asked]
          exact List.mem_append_left _ (List.mem_append_right _ (List.mem_singleton_self _))
        obtain ⟨resp, executed⟩ := (execute_isOk_iff req).mpr (defined req member)
        rw [whole, List.append_nil] at frame
        have moved := serverRound_whole reads phase unsent frame executed
        rw [open_] at told
        refine ⟨_, _, called, encode_plain_ne_nil _ frame, moved, ?_⟩
        rw [moved]
        refine .answered earlier req resp (Or.inl ⟨called, buffer⟩) asked executed ?_ ?_ told
        · show st.respBuffer ++ (st.down ++ _) = _
          rw [buffer, down]
          rfl
        · exact fun _ => ⟨whole, rfl⟩
      · left
        have moved : serverRound json [] st = _ :=
          serverRound_stall phase unsent (verdict_begun plain frame whole)
        refine ⟨moved, ?_⟩
        rw [moved]
        exact .waiting earlier req called asked down buffer (fun _ => ⟨frame, fun _ => whole⟩) told
  | answered earlier req resp other asked executed frame quiet told =>
      left
      refine ⟨quiet_case quiet, ?_⟩
      rw [quiet_case quiet]
      exact .answered earlier req resp other asked executed frame quiet told
  | ended _ _ _ _ _ _ closed =>
      rw [open_] at closed
      cases closed
  | finished _ other =>
      rcases other with other | ⟨errno, other⟩
      · exact absurd other busy
      · exact absurd other (holds errno)

theorem Standing.finish_round (standing : Standing json st)
    (gone : st.phase = .left ∨ ∃ errno, st.phase = .parsing (.fail errno)) :
    Standing json (serverRound json [] st) := by
  obtain ⟨earlier, front, near, told⟩ := standing.earlier
  obtain ⟨phase, -, -, -, asked, shown, closed⟩ := serverRound_kept json [] st
  refine .finished earlier ?_ ?_ ?_
  · rw [phase]
    exact gone
  · rw [asked]
    exact ⟨front, near⟩
  · rw [shown]
    rcases closed with same | gone
    · rw [same]
      exact told
    · rw [gone]
      exact told.close

theorem Inv.serverParse (reads : json.ReadsBack) (defined : ∀ req ∈ requests, req.Defined)
    (inv : Inv json requests st) (open_ : st.closed = false)
    (phase : st.server.phase = .decode) : Standing json (serverRound json [] st) := by
  by_cases gone : st.phase = .left ∨ ∃ errno, st.phase = .parsing (.fail errno)
  · exact inv.standing.finish_round gone
  · rw [not_or, not_exists] at gone
    rcases inv.parse_cases reads defined open_ phase gone.1 gone.2 with
      ⟨-, standing⟩ | ⟨-, -, -, -, -, standing⟩
    · exact standing
    · exact standing

/-! ## Every run -/

theorem Inv.round {arriving : List Piece} {before : State} (inv : Inv json requests st)
    (asked : before.asked = st.asked) (todo : before.todo = st.todo)
    (server : before.server = st.server)
    (standing : Standing json (serverRound json arriving before)) :
    Inv json requests (serverRound json arriving before) := by
  obtain ⟨-, -, -, script, told, -⟩ := serverRound_kept json arriving before
  refine ⟨?_, serverRound_unsent arriving (server ▸ inv.unsent), standing⟩
  rw [script, told, asked, todo]
  exact inv.script

theorem Inv.step {event : Event} (reads : json.ReadsBack)
    (defined : ∀ req ∈ requests, req.Defined) (inv : Inv json requests st)
    (moved : Conversation.step json st event = some after) : Inv json requests after := by
  have standing := inv.standing
  cases event with
  | ask =>
      obtain ⟨stands, script, server⟩ := standing.ask moved
      exact ⟨script.trans inv.script, server ▸ inv.unsent, stands⟩
  | recv size =>
      have stands := standing.recv reads moved
      obtain ⟨-, piece, -, rfl⟩ := recv_eq_some moved
      exact ⟨inv.script, inv.unsent, stands⟩
  | eof =>
      obtain ⟨⟨phase, none, closed⟩, rfl⟩ := eof_eq_some moved
      exact ⟨inv.script, inv.unsent, standing.eof phase none closed⟩
  | fail errno =>
      obtain ⟨-, rfl⟩ := fail_eq_some moved
      exact ⟨inv.script, inv.unsent, standing.leave (Or.inr ⟨errno, rfl⟩)⟩
  | parse =>
      obtain ⟨stands, asked, todo, server⟩ := standing.parse reads moved
      refine ⟨?_, server ▸ inv.unsent, stands⟩
      rw [asked, todo]
      exact inv.script
  | quit =>
      rw [quit_eq_some moved]
      exact ⟨inv.script, inv.unsent, standing.leave (Or.inl rfl)⟩
  | serverRecv size =>
      obtain ⟨open_, phase, piece, taken, rfl⟩ := serverRecv_eq_some moved
      exact inv.round rfl rfl rfl (standing.serverRecv reads open_ phase inv.unsent taken)
  | serverEnd =>
      obtain ⟨-, phase, rfl⟩ := serverEnd_eq_some moved
      refine inv.round rfl rfl rfl ?_
      rw [serverRound_end phase]
      exact standing.close
  | serverParse =>
      obtain ⟨open_, phase, rfl⟩ := serverParse_eq_some moved
      exact inv.round rfl rfl rfl (inv.serverParse reads defined open_ phase)

theorem Inv.run {events : List Event} (reads : json.ReadsBack)
    (defined : ∀ req ∈ requests, req.Defined)
    (ran : play (Conversation.step json) (start requests) events = some st) :
    Inv json requests st :=
  Reachable.invariant (Inv json requests) (fun _ _ _ inv moved => inv.step reads defined moved)
    (inv_start requests) ⟨events, ran⟩

/-! ## A response that is cut -/

/-- The client decodes the same bytes again and again, or has left. -/
def Spinning (shown : List Response) (st : State) : Prop :=
  st.shown = shown ∧ (st.phase = .left ∨
    ∃ piece, st.phase = .parsing (.data piece) ∧ verdict st.respBuffer = .stall)

theorem Spinning.step {shown : List Response} {event : Event} (spins : Spinning shown st)
    (moved : Conversation.step json st event = some after) : Spinning shown after := by
  obtain ⟨same, stands⟩ := spins
  have kept : ∀ (arriving : List Piece) (before : State), before.shown = st.shown →
      before.phase = st.phase → before.respBuffer = st.respBuffer →
      Spinning shown (serverRound json arriving before) := by
    intro arriving before shown_ phase buffer
    obtain ⟨phase', buffer', -, -, -, shown', -⟩ := serverRound_kept json arriving before
    refine ⟨shown'.trans (shown_.trans same), ?_⟩
    rw [phase', buffer', phase, buffer]
    exact stands
  have busy : st.phase ≠ .calling ∧ st.phase ≠ .asking := by
    rcases stands with left | ⟨piece, parsing, -⟩
    · simp [left]
    · simp [parsing]
  cases event with
  | ask => exact absurd (ask_eq_some moved).1 busy.2
  | recv size => exact absurd (recv_eq_some moved).1 busy.1
  | eof => exact absurd (eof_eq_some moved).1.1 busy.1
  | fail errno => exact absurd (fail_eq_some moved).1 busy.1
  | parse =>
      rcases stands with left | ⟨piece, parsing, stalled⟩
      · rw [Conversation.step, Conversation.parse, left] at moved
        cases moved
      · have once : getResponseStep json (.data piece) ⟨⟨st.respBuffer, [], .eof⟩, noResult⟩ =
            _ := getResponseStep_stall stalled
        rw [Conversation.step, Conversation.parse, parsing] at moved
        simp only [once] at moved
        cases moved
        exact ⟨same, Or.inr ⟨piece, rfl, stalled⟩⟩
  | quit =>
      rw [quit_eq_some moved]
      exact ⟨same, Or.inl rfl⟩
  | serverRecv size =>
      obtain ⟨-, -, piece, -, rfl⟩ := serverRecv_eq_some moved
      exact kept _ _ rfl rfl rfl
  | serverEnd =>
      obtain ⟨-, -, rfl⟩ := serverEnd_eq_some moved
      exact kept _ _ rfl rfl rfl
  | serverParse =>
      obtain ⟨-, -, rfl⟩ := serverParse_eq_some moved
      exact kept _ _ rfl rfl rfl

theorem Inv.spins {size : Nat} (reads : json.ReadsBack) (inv : Inv json requests st)
    (moved : Conversation.step json st (.recv size) = some after)
    (cut : size < st.down.length) : Spinning st.shown after := by
  obtain ⟨phase, piece, taken, rfl⟩ := recv_eq_some moved
  obtain ⟨buffer, came⟩ := inv.standing.called phase
  refine ⟨rfl, Or.inr ⟨piece, rfl, ?_⟩⟩
  rcases came with ⟨down, -⟩ | ⟨_, _, resp, -, -, frame, -, -⟩
  · rw [down, pieceOf_nil] at taken
    cases taken
  · have plain := reads.responseText resp.result resp.code
    have whole : (st.respBuffer ++ cString piece.bytes) ++ st.down.drop size =
        encode (resp.serialize json) := by
      refine piece_plain taken ?_ plain.1
      rw [buffer]
      exact frame
    refine verdict_begun plain whole ?_
    rw [ne_eq, List.drop_eq_nil_iff]
    omega

theorem shown_of_spinning {shown : List Response} {later : List Event} {last : State}
    (spins : Spinning shown st) (ran : play (Conversation.step json) st later = some last) :
    last.shown = shown :=
  (Reachable.invariant (Spinning shown) (fun _ _ _ spins moved => spins.step moved) spins
    ⟨later, ran⟩).1

/-! ## A connection that holds -/

/-- The client has the whole response or none of it. -/
structure Flowing (st : State) : Prop where
  open_ : st.closed = false
  whole : st.phase = .asking ∨ st.phase = .calling ∨
    ∃ piece, st.phase = .parsing (.data piece) ∧ st.down = []

variable (json) in
def cost (req : Request) : Nat := 3 * (encode (req.serialize json)).length + 3

def Phase.rest : Phase → Nat
  | .asking => 0
  | .calling => 2
  | .parsing _ => 1
  | .left => 0

def serverRest (server : ForkState) : Nat :=
  match server.phase with
  | .recv => server.inbuffer.length
  | .decode => server.inbuffer.length + 1

variable (json) in
/-- The bytes that are still to be received, and the rounds that are still to be made. -/
def work (st : State) : Nat :=
  (st.todo.map (cost json)).sum + 3 * st.up.length + serverRest st.server + st.phase.rest

variable (json requests) in
structure Smoothly (st : State) : Prop where
  inv : Inv json requests st
  flowing : Flowing st

theorem smoothStep_eq_some {event : Event} (moved : smoothStep json st event = some after) :
    Smooth st event ∧ Conversation.step json st event = some after := by
  unfold smoothStep at moved
  split at moved
  · rename_i smooth
    exact ⟨smooth, moved⟩
  · cases moved

theorem Smoothly.step {event : Event} (reads : json.ReadsBack)
    (defined : ∀ req ∈ requests, req.Defined) (smoothly : Smoothly json requests st)
    (moved : smoothStep json st event = some after) :
    Smoothly json requests after ∧ work json after < work json st := by
  obtain ⟨smooth, moved⟩ := smoothStep_eq_some moved
  have inv := smoothly.inv.step reads defined moved
  obtain ⟨open_, whole⟩ := smoothly.flowing
  have busy : st.phase ≠ .left ∧ ∀ errno, st.phase ≠ .parsing (.fail errno) := by
    rcases whole with phase | phase | ⟨piece, phase, -⟩
    · simp [phase]
    · simp [phase]
    · simp [phase]
  cases event with
  | ask =>
      obtain ⟨phase, req, todo, script, rfl⟩ := ask_eq_some moved
      refine ⟨⟨inv, open_, Or.inr (Or.inl rfl)⟩, ?_⟩
      simp only [work, phase, script, Phase.rest, List.map_cons, List.sum_cons,
        List.length_append, cost]
      omega
  | recv size =>
      obtain ⟨phase, piece, taken, rfl⟩ := recv_eq_some moved
      have smooth : st.down.length ≤ size := smooth
      refine ⟨⟨inv, open_, Or.inr (Or.inr ⟨piece, rfl, List.drop_eq_nil_iff.mpr smooth⟩)⟩, ?_⟩
      simp only [work, phase, Phase.rest]
      omega
  | eof => cases smooth
  | fail errno => cases smooth
  | parse =>
      cases smoothly.inv.standing with
      | answered earlier req resp phase asked executed frame quiet told =>
          rcases phase with ⟨phase, -⟩ | ⟨piece, phase⟩
          · rw [Conversation.step, Conversation.parse, phase] at moved
            cases moved
          · have none : st.down = [] := by
              rcases whole with other | other | ⟨_, -, none⟩
              · rw [phase] at other
                cases other
              · rw [phase] at other
                cases other
              · exact none
            rcases parse_data reads phase frame with ⟨more, -, -⟩ | ⟨-, same⟩
            · exact absurd none more
            · rw [Conversation.step, same] at moved
              cases moved
              refine ⟨⟨inv, open_, Or.inl rfl⟩, ?_⟩
              simp only [work, phase, Phase.rest]
              omega
      | idle phase =>
          rw [Conversation.step, Conversation.parse, phase] at moved
          cases moved
      | waiting _ _ phase =>
          rw [Conversation.step, Conversation.parse, phase] at moved
          cases moved
      | ended _ _ _ _ _ _ closed =>
          rw [open_] at closed
          cases closed
      | finished _ phase =>
          rcases phase with left | ⟨errno, failed⟩
          · exact absurd left busy.1
          · exact absurd failed (busy.2 errno)
  | quit => cases smooth
  | serverRecv size =>
      obtain ⟨-, phase, piece, taken, rfl⟩ := serverRecv_eq_some moved
      have cut := congrArg List.length (pieceOf_eq_some taken)
      have nonempty := List.length_pos_of_ne_nil piece.nonempty
      have fits : (cString piece.bytes).length ≤ piece.bytes.length :=
        (List.takeWhile_prefix _).length_le
      let before : State := { st with up := st.up.drop size }
      have round : serverRound json [piece] before = _ :=
        serverRound_recv phase smoothly.inv.unsent
      rw [List.length_append] at cut
      refine ⟨⟨inv, ?_, ?_⟩, ?_⟩
      · exact (congrArg State.closed round).trans open_
      · show (serverRound json [piece] before).phase = _ ∨ _
        rw [round]
        exact whole
      · show work json (serverRound json [piece] before) < _
        rw [round]
        simp only [work, before, serverRest, phase, List.length_append]
        omega
  | serverEnd => cases smooth
  | serverParse =>
      obtain ⟨-, phase, rfl⟩ := serverParse_eq_some moved
      rcases smoothly.inv.parse_cases reads defined open_ phase busy.1 busy.2 with
        ⟨round, -⟩ | ⟨package, answer, calling, any, round, -⟩
      · rw [round] at inv ⊢
        refine ⟨⟨inv, open_, whole⟩, ?_⟩
        simp only [work, serverRest, phase]
        omega
      · rw [round] at inv ⊢
        have positive := List.length_pos_of_ne_nil any
        refine ⟨⟨inv, open_, Or.inr (Or.inl calling)⟩, ?_⟩
        simp only [work, serverRest, phase, List.length_nil]
        omega

def ShortResponses (json : JsonCpp) : Prop :=
  ∀ resp : Response, (encode (resp.serialize json)).length ≤ 1023

/-- As long as not everything is shown there is a step of a smooth run. -/
theorem Smoothly.goes_on (short : ShortResponses json) (reads : json.ReadsBack)
    (smoothly : Smoothly json requests st)
    (stuck : ∀ event, smoothStep json st event = none) : AllShown requests st := by
  obtain ⟨open_, whole⟩ := smoothly.flowing
  have never : ∀ event, Smooth st event → Conversation.step json st event = none := by
    intro event smooth
    have none := stuck event
    rwa [smoothStep, if_pos smooth] at none
  cases smoothly.inv.standing with
  | idle phase _ _ _ told =>
      cases script : st.todo with
      | nil =>
          rw [open_] at told
          have asked := smoothly.inv.script
          rw [script, List.append_nil] at asked
          refine ⟨script, ?_⟩
          rw [← asked]
          exact told.all
      | cons req todo =>
          have none := never .ask trivial
          rw [Conversation.step, Conversation.ask, phase, script] at none
          cases none
  | waiting earlier req phase asked down buffer coming told =>
      exfalso
      cases serverPhase : st.server.phase with
      | recv =>
          obtain ⟨piece, taken⟩ : ∃ piece, pieceOf 1 st.up = some piece := by
            refine exists_pieceOf ((coming open_).2 serverPhase) Nat.one_pos ?_
            exact Nat.le_trans (List.length_take_le 1 st.up) (by decide)
          have none := never (.serverRecv 1) trivial
          rw [Conversation.step, open_, serverPhase, taken] at none
          cases none
      | decode =>
          have none := never .serverParse trivial
          rw [Conversation.step, open_, serverPhase] at none
          cases none
  | answered earlier req resp phase asked executed frame quiet told =>
      exfalso
      rcases phase with ⟨phase, buffer⟩ | ⟨piece, phase⟩
      · rw [buffer] at frame
        obtain ⟨piece, taken⟩ : ∃ piece, pieceOf st.down.length st.down = some piece := by
          have any := encode_plain_ne_nil _ frame
          refine exists_pieceOf any (List.length_pos_of_ne_nil any) ?_
          rw [List.take_length]
          have fits := short resp
          rw [← frame] at fits
          exact fits
        have none := never (.recv st.down.length) (Nat.le_refl _)
        rw [Conversation.step, Conversation.recv, if_pos phase, taken] at none
        cases none
      · have none := never .parse trivial
        rcases parse_data reads phase frame with ⟨-, -, same⟩ | ⟨-, same⟩
        · rw [Conversation.step, same] at none
          cases none
        · rw [Conversation.step, same] at none
          cases none
  | ended _ _ _ _ _ _ closed =>
      rw [open_] at closed
      cases closed
  | finished _ phase =>
      rcases whole with other | other | ⟨piece, other, -⟩
      · simp [other] at phase
      · simp [other] at phase
      · simp [other] at phase

/-- What the client shows is true in every run, a response that its one `Recv` does not get
whole is never shown, and where nothing fails and none is cut all are. -/
theorem conversation_right (reads : json.ReadsBack) (defined : ∀ req ∈ requests, req.Defined) :
    (∀ events st, play (step json) (start requests) events = some st → Truthful st) ∧
    (∀ events st size after later last, play (step json) (start requests) events = some st →
      step json st (.recv size) = some after → size < st.down.length →
      play (step json) after later = some last → last.shown = st.shown) ∧
    (ShortResponses json → Completes (smoothStep json) (AllShown requests) (start requests)) := by
  refine ⟨?_, ?_, ?_⟩
  · intro events st ran
    exact (Inv.run reads defined ran).standing.truthful
  · intro events st size after later last ran moved cut continued
    exact shown_of_spinning ((Inv.run reads defined ran).spins reads moved cut) continued
  · intro short
    refine completes_of_work (Smoothly json requests) (work json) ?_ ?_ ?_ ?_
    · exact fun _ _ _ smoothly moved => (smoothly.step reads defined moved).1
    · exact fun _ _ _ smoothly moved => (smoothly.step reads defined moved).2
    · exact fun _ smoothly stuck => smoothly.goes_on short reads stuck
    · exact ⟨inv_start requests, rfl, Or.inl rfl⟩

open JsonText in
theorem jsonText_short : ShortResponses jsonText := by
  intro resp
  obtain ⟨-, resultShort⟩ := plain_intToString resp.result
  obtain ⟨-, codeShort⟩ := plain_intToString resp.code
  have sizes : (label 123 "code").length = 12 ∧ (label 44 "result").length = 14 ∧
      closing.length = 2 := by decide
  have text : (resp.serialize jsonText).length ≤ 50 := by
    rw [Response.serialize, jsonText_write, write_response]
    simp only [render, labels, List.map_cons, List.map_nil, List.zip_cons_cons,
      List.zip_nil_left, List.flatten_cons, List.flatten_nil, List.length_append, List.length_nil]
    omega
  have digits : (stdToString (resp.serialize jsonText).length).length ≤ 2 :=
    length_stdToString_le (by omega) (by omega)
  rw [length_encode]
  omega

def twoRequests : List Request := [⟨10, -7, 43⟩, ⟨1, 0, 47⟩]

theorem conversation_right_two :
    (∀ events st, play (step JsonText.jsonText) (start twoRequests) events = some st →
      Truthful st) ∧
    (∀ events st size after later last,
      play (step JsonText.jsonText) (start twoRequests) events = some st →
      step JsonText.jsonText st (.recv size) = some after → size < st.down.length →
      play (step JsonText.jsonText) after later = some last → last.shown = st.shown) ∧
    Completes (smoothStep JsonText.jsonText) (AllShown twoRequests) (start twoRequests) := by
  obtain ⟨truthful, cut, completes⟩ : _ ∧ _ ∧ _ :=
    conversation_right JsonText.jsonText_readsBack (show ∀ req ∈ twoRequests, req.Defined by decide)
  exact ⟨truthful, cut, completes jsonText_short⟩

end LinuxSystemLearning.Conversation
