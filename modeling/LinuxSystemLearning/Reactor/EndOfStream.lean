import LinuxSystemLearning.Reactor.CalculatorServer
import LinuxSystemLearning.Reactor.Turns

/-!
# Requests in front of the end of the stream

`Recver` reads until `recv` would wait and then calls the handler on what has
arrived.  Where `recv` returns 0 it deletes the connection and returns, so what was
read in the same call is not looked at.
-/

set_option autoImplicit false

namespace LinuxSystemLearning.Reactor

open LinuxSystemLearning.Cxx
open LinuxSystemLearning.Incremental
open LinuxSystemLearning.Loop
open Calculator
open Calculator.Protocol

/-- A `recv` before the stream ends or has to be waited for. -/
inductive Arrival where
  | data (piece : Piece)
  | interrupted

def Arrival.result : Arrival → RecvResult
  | .data piece => .data piece
  | .interrupted => .fail eintr

def arrived : List Arrival → Bytes
  | [] => []
  | .data piece :: arrivals => cString piece.bytes ++ arrived arrivals
  | .interrupted :: arrivals => arrived arrivals

def Event.isRecv : Event → Bool
  | .recv _ _ _ => true
  | _ => false

/-- From `st` on, `recv` on `fd` is answered by the arrivals in turn and then by
`last`. -/
def Kernel.Delivers (k : Kernel) (fd : Fd) (st : State) (arrivals : List Arrival)
    (last : RecvResult) : Prop :=
  ∀ world events, world.trace = st.world.trace ++ events →
    k.recv world fd =
      (arrivals.map Arrival.result).getD (events.countP Event.isRecv) last

def Event.input (id : ObjId) : Event → Option Bytes
  | .handler other inbuffer _ => if other = id then some inbuffer else none
  | _ => none

/-- The frames `Decode` takes off the front of a buffer, one after the other. -/
def frames (buffer : Bytes) : List Bytes :=
  (drain verdict (fun _ => .ok []) buffer : Drained UInt8 Bytes UInt8 Fault).items

/-- The frames that stand in what the handler of the connection was called on. -/
def handed (id : ObjId) (events : List Event) : List Bytes :=
  (events.filterMap (Event.input id)).flatMap frames

/-- The call returns, and before it deletes the connection it hands the handler each
frame of what has been received. -/
def HandsOver (k : Kernel) (id : ObjId) (st : State) (arrivals : List Arrival) : Prop :=
  ∃ fuel after before rest,
    Channel.recver k fuel id st = some after ∧
    after.world.trace = st.world.trace ++ (before ++ rest) ∧
    .delConnection (st.heap id).sockfd ∉ before ∧
    handed id before = frames ((st.heap id).inbuffer ++ arrived arrivals) ∧
    handed id rest = []

/-- `Decode` finds no complete frame at the front of the buffer. -/
def NoWholeFrame (buffer : Bytes) : Prop :=
  ∀ decoded, decode buffer [] = .ok decoded → decoded.ret = false

variable {k : Kernel} {id : ObjId}

/-! ## Frames -/

theorem noWholeFrame_iff (buffer : Bytes) :
    NoWholeFrame buffer ↔ ∀ package rest, verdict buffer ≠ .take package rest := by
  constructor
  · intro none package rest taken
    have accepted := none _ (decode_of_take taken [])
    cases accepted
  · intro never decoded run
    by_contra whole
    rw [Bool.not_eq_false] at whole
    exact never decoded.package decoded.buffer (by simp [verdict, run, whole])

theorem frames_eq_nil_iff (buffer : Bytes) :
    frames buffer = [] ↔ NoWholeFrame buffer := by
  rw [noWholeFrame_iff]
  constructor
  · intro none package rest taken
    have first : ∃ items, frames buffer = package :: items := drain_items_of_take taken
    rw [none] at first
    obtain ⟨items, first⟩ := first
    cases first
  · intro never
    unfold frames
    cases verdictEq : verdict buffer with
    | stall => rw [drain_stall verdictEq]
    | crash fault => rw [drain_crash verdictEq]
    | take package rest => exact absurd verdictEq (never package rest)

theorem handed_append (front back : List Event) :
    handed id (front ++ back) = handed id front ++ handed id back := by
  simp [handed]

theorem handed_none {events : List Event}
    (none : ∀ event ∈ events, event.input id = none) : handed id events = [] := by
  unfold handed
  rw [List.filterMap_eq_nil_iff.mpr none]
  rfl

/-! ## Reading -/

theorem Kernel.Delivers.first {fd : Fd} {st : State} {arrivals : List Arrival}
    {last : RecvResult} (delivers : k.Delivers fd st arrivals last) :
    k.recv st.world fd = (arrivals.map Arrival.result).getD 0 last :=
  delivers st.world [] (List.append_nil _).symm

theorem Kernel.Delivers.behind {fd : Fd} {st after : State} {arrival : Arrival}
    {arrivals : List Arrival} {last : RecvResult} {event : Event}
    (delivers : k.Delivers fd st (arrival :: arrivals) last)
    (trace : after.world.trace = st.world.trace ++ [event])
    (one : event.isRecv = true) : k.Delivers fd after arrivals last := by
  intro world more later
  rw [trace, List.append_assoc] at later
  rw [delivers world ([event] ++ more) later, List.countP_append,
    List.countP_singleton, one, if_pos rfl, Nat.add_comm]
  rfl

structure Received (k : Kernel) (id : ObjId) (st : State) (arrivals : List Arrival)
    (last : RecvResult) (now : State) (events : List Event) : Prop where
  visits : Visits (Channel.recvStep k id) st now
  trace : now.world.trace = st.world.trace ++ events
  onlyRecv : ∀ event ∈ events, event.isRecv = true
  object : now.heap id = { st.heap id with
    inbuffer := (st.heap id).inbuffer ++ arrived arrivals }
  last : k.recv now.world (st.heap id).sockfd = last

theorem exists_received (arrivals : List Arrival) {st : State} {last : RecvResult}
    (delivers : k.Delivers (st.heap id).sockfd st arrivals last) :
    ∃ now events, Received k id st arrivals last now events := by
  induction arrivals generalizing st with
  | nil =>
      refine ⟨st, [], .entry, (List.append_nil _).symm, by simp, ?_, delivers.first⟩
      simp [arrived]
  | cons arrival arrivals ih =>
      have first := delivers.first
      cases arrival with
      | interrupted =>
          let next := st.log (.recv id (st.heap id).sockfd (.fail eintr))
          have again : Channel.recvStep k id st = .next next := by
            have interrupted : k.recv st.world (st.heap id).sockfd = .fail eintr := first
            simp only [Channel.recvStep, interrupted]
            rfl
          have later : k.Delivers (next.heap id).sockfd next arrivals last :=
            delivers.behind rfl rfl
          obtain ⟨now, events, visits, trace, onlyRecv, object, stop⟩ := ih later
          refine ⟨now, .recv id (st.heap id).sockfd (.fail eintr) :: events,
            visits.behind again, ?_, ?_, object, stop⟩
          · rw [trace]
            simp [next]
          · exact List.forall_mem_cons.mpr ⟨rfl, onlyRecv⟩
      | data piece =>
          let next := (st.log (.recv id (st.heap id).sockfd (.data piece))).modify id
            fun conn => { conn with inbuffer := conn.inbuffer ++ cString piece.bytes }
          have again : Channel.recvStep k id st = .next next := by
            have data : k.recv st.world (st.heap id).sockfd = .data piece := first
            simp only [Channel.recvStep, data]
            rfl
          have grown : next.heap id = { st.heap id with
              inbuffer := (st.heap id).inbuffer ++ cString piece.bytes } := by
            simp [next]
          have sockfd : (next.heap id).sockfd = (st.heap id).sockfd := by rw [grown]
          have later : k.Delivers (next.heap id).sockfd next arrivals last := by
            rw [sockfd]
            have logged : next.world.trace = st.world.trace ++
                [.recv id (st.heap id).sockfd (.data piece)] := rfl
            exact delivers.behind logged rfl
          obtain ⟨now, events, visits, trace, onlyRecv, object, stop⟩ := ih later
          refine ⟨now, .recv id (st.heap id).sockfd (.data piece) :: events,
            visits.behind again, ?_, ?_, ?_, ?_⟩
          · rw [trace]
            simp [next]
          · exact List.forall_mem_cons.mpr ⟨rfl, onlyRecv⟩
          · rw [object, grown]
            simp [arrived]
          · rw [← sockfd]
            exact stop

theorem Event.input_of_isRecv {event : Event} (recv : event.isRecv = true) :
    event.input id = none := by
  cases event with
  | recv _ _ _ => rfl
  | _ => cases recv

variable {st now : State} {arrivals : List Arrival} {events : List Event}

theorem Received.sockfd {last : RecvResult}
    (received : Received k id st arrivals last now events) :
    (now.heap id).sockfd = (st.heap id).sockfd := by
  rw [received.object]

theorem Received.not_deleted {last : RecvResult}
    (received : Received k id st arrivals last now events) (fd : Fd) :
    .delConnection fd ∉ events := by
  intro deleted
  cases received.onlyRecv _ deleted

theorem Received.silent {last : RecvResult}
    (received : Received k id st arrivals last now events) :
    ∀ event ∈ events, event.input id = none :=
  fun event member => Event.input_of_isRecv (received.onlyRecv event member)

/-! ## Where the stream ends -/

def closedState (k : Kernel) (id : ObjId) (now : State) : State :=
  delConnection k (now.heap id).sockfd (now.log (.recv id (now.heap id).sockfd .eof))

theorem Received.closes (received : Received k id st arrivals .eof now events)
    (owner : (st.heap id).owner = .reactor) :
    Ends (Channel.recvStep k id) st (.closed (closedState k id now)) := by
  have owner' : (now.heap id).owner = .reactor := by
    rw [received.object]
    exact owner
  have ended : k.recv now.world (now.heap id).sockfd = .eof := by
    rw [received.sockfd]
    exact received.last
  rw [received.visits.ends_iff]
  apply Ends.stop
  simp only [Channel.recvStep, ended, Channel.excepter, State.log_heap, owner']
  rfl

theorem Received.closed_trace (received : Received k id st arrivals .eof now events) :
    ∃ ok, (closedState k id now).world.trace = st.world.trace ++
      ((events ++ [.recv id (st.heap id).sockfd .eof]) ++
        [.delConnection (st.heap id).sockfd, .epollCtl .del (st.heap id).sockfd ok,
          .close (st.heap id).sockfd]) := by
  obtain ⟨ok, trace⟩ := delConnection_trace k
    (now.log (.recv id (now.heap id).sockfd .eof)) (now.heap id).sockfd
  refine ⟨ok, ?_⟩
  rw [closedState, trace, State.log_world, World.log_trace, received.trace,
    received.sockfd]
  simp

/-- The call that meets the end of the stream does not come to the handler. -/
theorem Received.handsOver_iff
    (received : Received k id st arrivals .eof now events)
    (owner : (st.heap id).owner = .reactor) :
    HandsOver k id st arrivals ↔
      NoWholeFrame ((st.heap id).inbuffer ++ arrived arrivals) := by
  have ends := received.closes owner
  obtain ⟨ok, closed⟩ := received.closed_trace
  have silent : ∀ event ∈ (events ++ [.recv id (st.heap id).sockfd .eof]) ++
      [.delConnection (st.heap id).sockfd, .epollCtl .del (st.heap id).sockfd ok,
        .close (st.heap id).sockfd], event.input id = none := by
    intro event member
    simp only [List.mem_append, List.mem_cons, List.not_mem_nil, or_false] at member
    rcases member with (member | rfl) | rfl | rfl | rfl
    · exact received.silent event member
    · rfl
    · rfl
    · rfl
    · rfl
  rw [← frames_eq_nil_iff]
  constructor
  · intro handsOver
    obtain ⟨fuel, after, before, rest, returned, trace, -, given, -⟩ := handsOver
    have same : after = closedState k id now := by
      rcases Channel.recver_cases returned with ran | ⟨read, handled, ran, -⟩
      · exact Channel.RecvEnd.closed.inj ((ends_of_run _ _ _ _ ran).unique ends)
      · cases (ends_of_run _ _ _ _ ran).unique ends
    rw [same, closed] at trace
    have split := List.append_cancel_left trace
    rw [← given]
    apply handed_none
    intro event member
    apply silent
    rw [split]
    exact List.mem_append_left _ member
  · intro nothing
    obtain ⟨fuel, ran⟩ := ends.exists_run
    refine ⟨fuel, closedState k id now, _, _, by simp [Channel.recver, ran], closed, ?_,
      ?_, ?_⟩
    · simp [received.not_deleted]
    · rw [nothing]
      exact handed_none fun event member => silent event (List.mem_append_left _ member)
    · exact handed_none fun event member => silent event (List.mem_append_right _ member)

/-- The frames in front of the end of the stream are handed over exactly if there are
none. -/
theorem recver_hands_over_iff (owner : (st.heap id).owner = .reactor)
    (delivers : k.Delivers (st.heap id).sockfd st arrivals .eof) :
    HandsOver k id st arrivals ↔
      NoWholeFrame ((st.heap id).inbuffer ++ arrived arrivals) := by
  obtain ⟨now, events, received⟩ := exists_received arrivals delivers
  exact received.handsOver_iff owner

/-! ## Where the end comes in a later call -/

theorem Channel.sender_silent {fuel : Nat} {after : State}
    (returned : Channel.sender k fuel id st = some after) :
    Grows (fun event => event.input id = none) st after := by
  obtain ⟨last, ran, rfl⟩ := Channel.sender_cases returned
  have sends : ∀ before next, (Channel.sendStep k id before = .next next ∨
      Channel.sendStep k id before = .stop next) →
      Grows (fun event => event.input id = none) before next := by
    intro before next stepped
    rw [Channel.sendStep_done stepped]
    refine ⟨_, rfl, ?_⟩
    intro event member
    rw [List.mem_singleton.mp member]
    rfl
  obtain ⟨before, grows, stopped⟩ := (ends_of_run _ _ _ _ ran).invariant
    (Grows (fun event => event.input id = none) st)
    (fun before next grows again => grows.trans (sends before next (.inl again)))
    (Grows.refl _ st)
  refine (grows.trans (sends before last (.inr stopped))).trans ?_
  exact enableReadWrite_events k last _ _ true _ rfl (fun _ _ => rfl)

theorem Channel.hands_over_of_callHandler {handler : Handler} {after : State}
    (registered : (st.heap id).handler = some handler)
    (called : Channel.callHandler id st = some after) :
    ∃ events, after.world.trace = st.world.trace ++ events ∧
      (∀ fd, .delConnection fd ∉ events) ∧
      handed id events = frames (st.heap id).inbuffer := by
  rcases Channel.callHandler_cases called with
    ⟨empty, rfl⟩ | ⟨missing, -⟩ | ⟨_, response, inbuffer, -, -, -, rfl⟩
  · refine ⟨[], (List.append_nil _).symm, fun _ => List.not_mem_nil, ?_⟩
    have stalled : verdict [] = .stall := verdict_without_sep rfl
    rw [empty, frames, drain_stall stalled]
    rfl
  · rw [registered] at missing
    cases missing
  · refine ⟨[.handler id (st.heap id).inbuffer response], rfl, by simp, ?_⟩
    simp [handed, Event.input]

def waitingState (id : ObjId) (now : State) : State :=
  now.log (.recv id (now.heap id).sockfd (.fail eagain))

theorem Received.waits (received : Received k id st arrivals (.fail eagain) now events) :
    Ends (Channel.recvStep k id) st (.drained (waitingState id now)) := by
  have waits : k.recv now.world (now.heap id).sockfd = .fail eagain := by
    rw [received.sockfd]
    exact received.last
  rw [received.visits.ends_iff]
  apply Ends.stop
  simp only [Channel.recvStep, waits]
  rfl

/-- Had `recv` had to wait instead, the handler would have got everything. -/
theorem recver_hands_over_of_wait {handler : Handler}
    (registered : (st.heap id).handler = some handler)
    (delivers : k.Delivers (st.heap id).sockfd st arrivals (.fail eagain))
    {fuel : Nat} {after : State}
    (returned : Channel.recver k fuel id st = some after) :
    HandsOver k id st arrivals := by
  obtain ⟨now, events, received⟩ := exists_received arrivals delivers
  have ends := received.waits
  rcases Channel.recver_cases returned with ran | ⟨read, handled, ran, called, ended⟩
  · cases (ends_of_run _ _ _ _ ran).unique ends
  obtain rfl := Channel.RecvEnd.drained.inj ((ends_of_run _ _ _ _ ran).unique ends)
  have registered' : ((waitingState id now).heap id).handler = some handler := by
    rw [waitingState, State.log_heap, received.object]
    exact registered
  obtain ⟨answered, answering, kept, given⟩ :=
    Channel.hands_over_of_callHandler registered' called
  -- what follows the handler's answer is its delivery
  have later : Grows (fun event => event.input id = none) handled after := by
    rcases ended with ⟨-, rfl⟩ | sent
    · exact Grows.refl _ _
    · exact Channel.sender_silent sent
  obtain ⟨rest, sending, quiet⟩ := later
  refine ⟨fuel, after,
    events ++ .recv id (now.heap id).sockfd (.fail eagain) :: answered, rest, returned,
    ?_, ?_, ?_, handed_none quiet⟩
  · rw [sending, answering, waitingState, State.log_world, World.log_trace,
      received.trace]
    simp
  · simp [received.not_deleted, kept]
  · have buffer : ((waitingState id now).heap id).inbuffer =
        (st.heap id).inbuffer ++ arrived arrivals := by
      rw [waitingState, State.log_heap, received.object]
    rw [handed_append, handed_none received.silent, List.nil_append, ← buffer, ← given]
    rfl

/-! ## A client that sends and hangs up -/

/-- A client is accepted on descriptor 7, and what it sends arrives like this. -/
def streamKernel (arrivals : List Arrival) (last : RecvResult) : Kernel :=
  { Kernel.scripted [[(3, epollIn)]] [7] [] [] with
    recv := fun world _ =>
      (arrivals.map Arrival.result).getD (world.calls Event.isRecv) last }

theorem streamKernel_delivers (arrivals : List Arrival) (last : RecvResult) (fd : Fd)
    (unread : st.world.trace.countP Event.isRecv = 0) :
    (streamKernel arrivals last).Delivers fd st arrivals last := by
  intro world events trace
  simp only [streamKernel, World.calls, trace, List.countP_append, unread, Nat.zero_add]

def quietState : State :=
  ⟨∅, fun _ => Channel.added silentHandler 7, 1, bootWorld 7⟩

/-- Half a frame, and then the end. -/
theorem recver_hands_over_iff_half :
    let arrivals := [.data ⟨ascii "5\r\nhel", by decide, by decide⟩, .interrupted]
    HandsOver (streamKernel arrivals .eof) 0 quietState arrivals ↔
      NoWholeFrame ((quietState.heap 0).inbuffer ++ arrived arrivals) := by
  intro arrivals
  exact recver_hands_over_iff rfl (streamKernel_delivers arrivals .eof 7 rfl)

/-- The request `1 + 1` of a client that hangs up behind it. -/
def lastRequest : List Arrival :=
  [.data ⟨buildRequestString JsonText.jsonText 1 1 plus, by decide, by decide⟩]

theorem drops_last_request :
    ∃ st, Reachable (streamKernel lastRequest .eof) 3
        (calculator (excute JsonText.jsonText Cal.execute) 3) .waiting st ∧
      st.connections.lookup 7 = some 1 ∧
      (streamKernel lastRequest .eof).Delivers (st.heap 1).sockfd st lastRequest .eof ∧
      ¬ HandsOver (streamKernel lastRequest .eof) 1 st lastRequest := by
  have check : (loop (streamKernel lastRequest .eof) 3 1
      (boot (streamKernel lastRequest .eof) 3
        (calculator (excute JsonText.jsonText Cal.execute) 3))).any (fun st =>
      decide (st.connections.lookup 7 = some 1) &&
      decide (st.world.trace.countP Event.isRecv = 0) &&
      decide ((st.heap 1).inbuffer = [])) = true := by
    decide
  obtain ⟨st, ran, check⟩ := Option.any_eq_true _ _ |>.mp check
  simp only [Bool.and_eq_true, decide_eq_true_eq] at check
  obtain ⟨⟨found, unread⟩, empty⟩ := check
  have reached := reachable_loop ran
  have delivers : (streamKernel lastRequest .eof).Delivers (st.heap 1).sockfd st
      lastRequest .eof :=
    streamKernel_delivers lastRequest .eof (st.heap 1).sockfd unread
  refine ⟨st, reached, found, delivers, ?_⟩
  obtain ⟨now, events, received⟩ := exists_received lastRequest delivers
  rw [received.handsOver_iff ((reachable_table reached).owner 7 1 found), empty]
  intro none
  have whole : ((decode ([] ++ arrived lastRequest) []).map Decoded.ret).toOption =
      some true := by
    decide
  cases run : decode ([] ++ arrived lastRequest) [] with
  | error fault =>
      rw [run] at whole
      cases whole
  | ok decoded =>
      rw [run] at whole
      have taken : decoded.ret = true := Option.some.inj whole
      rw [none decoded run] at taken
      cases taken

end LinuxSystemLearning.Reactor
