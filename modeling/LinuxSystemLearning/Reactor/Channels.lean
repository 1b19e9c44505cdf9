import LinuxSystemLearning.Reactor.TableConsistency

/-!
# One channel among the others

A statement about each channel in the table is proved by looking at its own
`Recver` and `Sender` calls only: while another connection acts, its object and
what has passed on its wire stay as they are.  `Reachable.each_channel` is that
rule.
-/

set_option autoImplicit false

namespace LinuxSystemLearning.Reactor

open LinuxSystemLearning.Cxx
open LinuxSystemLearning.Loop

/-! ## What has passed on the wire -/

/-- What `recv` returned on the connection in this event. -/
def Event.piece (id : ObjId) : Event → List Bytes
  | .recv other _ (.data piece) => if other = id then [piece.bytes] else []
  | _ => []

def Event.response (id : ObjId) : Event → Bytes
  | .handler other _ response => if other = id then response else []
  | _ => []

def Event.accepted (id : ObjId) : Event → Bytes
  | .send other _ data (.sent count _) => if other = id then data.take count else []
  | _ => []

def receivedPieces (id : ObjId) (trace : List Event) : List Bytes :=
  trace.flatMap (Event.piece id)

def handlerOutputs (id : ObjId) (trace : List Event) : Bytes :=
  trace.flatMap (Event.response id)

def acceptedBytes (id : ObjId) (trace : List Event) : Bytes :=
  trace.flatMap (Event.accepted id)

structure Wire where
  pieces : List Bytes
  outputs : Bytes
  accepted : Bytes

def wire (id : ObjId) (st : State) : Wire where
  pieces := receivedPieces id st.world.trace
  outputs := handlerOutputs id st.world.trace
  accepted := acceptedBytes id st.world.trace

/-- The event is nothing to the connection. -/
structure Event.Silent (id : ObjId) (event : Event) : Prop where
  piece : event.piece id = []
  response : event.response id = []
  accepted : event.accepted id = []

variable {k : Kernel} {kind : Kind} {id : ObjId}

theorem wire_of_silent {st after : State} {events : List Event}
    (trace : after.world.trace = st.world.trace ++ events)
    (silent : ∀ event ∈ events, event.Silent id) : wire id after = wire id st := by
  have pieces : events.flatMap (Event.piece id) = [] :=
    List.flatMap_eq_nil_iff.mpr fun event member => (silent event member).piece
  have responses : events.flatMap (Event.response id) = [] :=
    List.flatMap_eq_nil_iff.mpr fun event member => (silent event member).response
  have accepted : events.flatMap (Event.accepted id) = [] :=
    List.flatMap_eq_nil_iff.mpr fun event member => (silent event member).accepted
  simp [wire, receivedPieces, handlerOutputs, acceptedBytes, trace, pieces, responses,
    accepted]

theorem wire_of_event {st after : State} {event : Event}
    (trace : after.world.trace = st.world.trace ++ [event]) :
    wire id after = ⟨(wire id st).pieces ++ event.piece id,
      (wire id st).outputs ++ event.response id,
      (wire id st).accepted ++ event.accepted id⟩ := by
  simp [wire, receivedPieces, handlerOutputs, acceptedBytes, trace]

@[simp] theorem wire_modify (st : State) (other : ObjId)
    (change : Connection → Connection) :
    wire id (st.modify other change) = wire id st := rfl

theorem wire_log {st : State} {event : Event} (silent : event.Silent id) :
    wire id (st.log event) = wire id st := by
  apply wire_of_silent rfl
  intro other member
  exact List.mem_singleton.mp member ▸ silent

theorem wire_delConnection (st : State) (fd : Fd) :
    wire id (delConnection k fd st) = wire id st := by
  obtain ⟨ok, trace⟩ := delConnection_trace k st fd
  apply wire_of_silent trace
  intro event member
  rcases List.mem_cons.mp member with rfl | member
  · exact ⟨rfl, rfl, rfl⟩
  rcases List.mem_cons.mp member with rfl | member
  · exact ⟨rfl, rfl, rfl⟩
  · rw [List.mem_singleton.mp member]
    exact ⟨rfl, rfl, rfl⟩

theorem wire_enableReadWrite (st : State) (fd : Fd) (readable writeable : Bool) :
    wire id (enableReadWrite k fd readable writeable st) = wire id st := by
  obtain ⟨events, trace, silent⟩ :=
    enableReadWrite_events k st (Event.Silent id) fd readable writeable ⟨rfl, rfl, rfl⟩
      (fun _ _ => ⟨rfl, rfl, rfl⟩)
  exact wire_of_silent trace silent

theorem wire_enroll {st : State} {actor : ObjId} {fd : Nat}
    (accepted : k.accept st.world (st.heap actor).sockfd = .accepted fd) :
    wire id (enroll k actor fd st) = wire id st := by
  obtain ⟨last, trace, what⟩ := enroll_trace accepted
  apply wire_of_silent trace
  intro event member
  rcases List.mem_cons.mp member with rfl | member
  · exact ⟨rfl, rfl, rfl⟩
  · rw [List.mem_singleton.mp member]
    rcases what with ⟨ok, rfl⟩ | rfl
    · exact ⟨rfl, rfl, rfl⟩
    · exact ⟨rfl, rfl, rfl⟩

theorem wire_handleDone (response inbuffer : Bytes) (st : State) :
    wire id (handleDone id response inbuffer st) =
      { wire id st with outputs := (wire id st).outputs ++ response } := by
  have trace : (handleDone id response inbuffer st).world.trace =
      st.world.trace ++ [.handler id (st.heap id).inbuffer response] := rfl
  rw [wire_of_event trace]
  simp [Event.piece, Event.response, Event.accepted]

theorem wire_sendDone (result : SendResult) (st : State) :
    wire id (sendDone id result st) =
      { wire id st with
        accepted := (wire id st).accepted ++
          (st.heap id).outbuffer.take result.count } := by
  have trace : (sendDone id result st).world.trace = st.world.trace ++
      [.send id (st.heap id).sockfd (st.heap id).outbuffer result] := rfl
  rw [wire_of_event trace]
  cases result with
  | sent count fits => simp [Event.piece, Event.response, Event.accepted, SendResult.count]
  | fail errno => simp [Event.piece, Event.response, Event.accepted, SendResult.count]

/-! ## While another connection acts -/

theorem Event.Quiet.silent {actor : ObjId} {event : Event} (quiet : event.Quiet actor)
    (different : id ≠ actor) : event.Silent id := by
  cases event with
  | recv other fd result =>
      have same : other = actor := quiet
      cases result with
      | data piece =>
          refine ⟨?_, rfl, rfl⟩
          simp [Event.piece, same, Ne.symm different]
      | eof => exact ⟨rfl, rfl, rfl⟩
      | fail errno => exact ⟨rfl, rfl, rfl⟩
  | send other fd data result => exact False.elim quiet
  | handler other inbuffer response => exact False.elim quiet
  | _ => exact ⟨rfl, rfl, rfl⟩

theorem Action.wire_others {actor : ObjId} {st after : State} (different : id ≠ actor)
    (action : Action k actor kind st after) : wire id after = wire id st := by
  cases action with
  | quiet event quiet => exact wire_log (quiet.silent different)
  | read inbuffer => rfl
  | handle response inbuffer =>
      have trace : (handleDone actor response inbuffer st).world.trace =
          st.world.trace ++ [.handler actor (st.heap actor).inbuffer response] := rfl
      rw [wire_of_event trace]
      simp [Event.piece, Event.response, Event.accepted, Ne.symm different]
  | write result =>
      have trace : (sendDone actor result st).world.trace = st.world.trace ++
          [.send actor (st.heap actor).sockfd (st.heap actor).outbuffer result] := rfl
      rw [wire_of_event trace]
      cases result with
      | sent count fits =>
          simp [Event.piece, Event.response, Event.accepted, Ne.symm different]
      | fail errno => simp [Event.piece, Event.response, Event.accepted]
  | except => exact wire_delConnection st _
  | rearm writeable => exact wire_enableReadWrite st _ true writeable
  | enroll fd accepted => exact wire_enroll accepted

theorem Actions.wire_others {actor : ObjId} {st after : State} (different : id ≠ actor)
    (actions : Actions k actor kind st after) : wire id after = wire id st := by
  refine actions.invariant (fun now => wire id now = wire id st) ?_ rfl
  intro before next same action
  exact (action.wire_others different).trans same

/-- Only the object `id` changed, and connections were only taken away. -/
structure Apart (id : ObjId) (st after : State) : Prop where
  others : ∀ other, other ≠ id → after.heap other = st.heap other
  sockfd : (after.heap id).sockfd = (st.heap id).sockfd
  connections : ∀ fd other, after.connections.lookup fd = some other →
    st.connections.lookup fd = some other

/-- No other object is registered under the descriptor. -/
def Alone (st : State) (id : ObjId) : Prop :=
  ∀ other, st.connections.lookup (st.heap id).sockfd = some other → other = id

theorem Apart.refl (id : ObjId) (st : State) : Apart id st st :=
  ⟨fun _ _ => rfl, rfl, fun _ _ found => found⟩

theorem Apart.trans {st middle after : State}
    (one : Apart id st middle) (two : Apart id middle after) :
    Apart id st after where
  others other different :=
    (two.others other different).trans (one.others other different)
  sockfd := two.sockfd.trans one.sockfd
  connections fd other found :=
    one.connections fd other (two.connections fd other found)

theorem Apart.alone {st after : State} (apart : Apart id st after)
    (alone : Alone st id) : Alone after id := by
  intro other found
  rw [apart.sockfd] at found
  exact alone other (apart.connections _ other found)

theorem Table.alone {st : State} {fd : Fd} (table : Table st)
    (found : st.connections.lookup fd = some id) : Alone st id := by
  intro other present
  rw [table.sockfd fd id found, found] at present
  exact (Option.some.inj present).symm

theorem Apart.modify (st : State) (id : ObjId) (change : Connection → Connection)
    (sockfd : (change (st.heap id)).sockfd = (st.heap id).sockfd) :
    Apart id st (st.modify id change) where
  others other different := st.modify_heap_ne id change different
  sockfd := by rw [State.modify_heap_self, sockfd]
  connections _ _ found := found

theorem Apart.log (st : State) (id : ObjId) (event : Event) :
    Apart id st (st.log event) :=
  ⟨fun _ _ => rfl, rfl, fun _ _ found => found⟩

theorem Action.apart {st after : State} (alone : Alone st id)
    (action : Action k id .channel st after) : Apart id st after := by
  cases action with
  | quiet event _ => exact Apart.log st id event
  | read inbuffer => exact Apart.modify st id _ rfl
  | handle response inbuffer =>
      exact (Apart.log st id _).trans (Apart.modify _ id _ rfl)
  | write result =>
      exact (Apart.log st id _).trans (Apart.modify _ id _ rfl)
  | except =>
      refine ⟨fun _ _ => rfl, rfl, ?_⟩
      intro fd other found
      exact (lookup_delConnection k found).2
  | rearm writeable =>
      cases present : st.connections.lookup (st.heap id).sockfd with
      | none =>
          rw [enableReadWrite_absent k true writeable present]
          exact Apart.log st id _
      | some other =>
          obtain rfl := alone other present
          obtain ⟨connections, heap, -, -⟩ :=
            enableReadWrite_present k true writeable present
          refine ⟨?_, ?_, ?_⟩
          · intro third different
            rw [heap, Function.update_of_ne different]
          · rw [heap, Function.update_self]
          · rw [connections]
            exact fun _ _ found => found

theorem Actions.apart {st after : State} (alone : Alone st id)
    (actions : Actions k id .channel st after) : Apart id st after := by
  refine actions.invariant (Apart id st) ?_ (Apart.refl id st)
  intro before next apart action
  exact apart.trans (action.apart (apart.alone alone))

/-! ## The calls of one channel -/

/-- An iteration of the reading loop adds what `recv` returned to the input and
changes nothing else of the connection. -/
theorem Channel.recvStep_adds {st after : State}
    (stepped : Channel.recvStep k id st = .next after ∨
      Channel.recvStep k id st = .stop (.drained after)) :
    ∃ got, wire id after = { wire id st with pieces := (wire id st).pieces ++ got } ∧
      after.heap id = { st.heap id with
        inbuffer := (st.heap id).inbuffer ++ (got.map cString).flatten } := by
  have tried : ∀ result, wire id (st.log (.recv id (st.heap id).sockfd result)) =
      { wire id st with
        pieces := (wire id st).pieces ++
          (Event.recv id (st.heap id).sockfd result).piece id } := by
    intro result
    have trace : (st.log (.recv id (st.heap id).sockfd result)).world.trace =
        st.world.trace ++ [.recv id (st.heap id).sockfd result] := rfl
    rw [wire_of_event trace]
    simp [Event.response, Event.accepted]
  have received := Channel.recvStep_received k id st
  rcases stepped with again | drained
  · rw [again] at received
    cases received with
    | data piece _ =>
        refine ⟨[piece.bytes], ?_, by simp⟩
        have heard := tried (.data piece)
        simpa [Event.piece] using heard
    | interrupted _ => exact ⟨[], tried (.fail eintr), by simp⟩
    | failed errno _ _ _ =>
        refine ⟨[], ?_, by simp⟩
        rw [wire_delConnection]
        exact tried (.fail errno)
  · rw [drained] at received
    cases received with
    | drained errno _ _ => exact ⟨[], tried (.fail errno), by simp⟩

theorem Channel.reading_adds {fuel : Nat} {st read : State}
    (ran : Loop.run (Channel.recvStep k id) fuel st = some (.drained read)) :
    ∃ got, wire id read = { wire id st with pieces := (wire id st).pieces ++ got } ∧
      read.heap id = { st.heap id with
        inbuffer := (st.heap id).inbuffer ++ (got.map cString).flatten } := by
  have extend : ∀ {now next : State},
      (∃ got, wire id now = { wire id st with pieces := (wire id st).pieces ++ got } ∧
        now.heap id = { st.heap id with
          inbuffer := (st.heap id).inbuffer ++ (got.map cString).flatten }) →
      (Channel.recvStep k id now = .next next ∨
        Channel.recvStep k id now = .stop (.drained next)) →
      ∃ got, wire id next = { wire id st with pieces := (wire id st).pieces ++ got } ∧
        next.heap id = { st.heap id with
          inbuffer := (st.heap id).inbuffer ++ (got.map cString).flatten } := by
    intro now next sofar stepped
    obtain ⟨got, heard, object⟩ := sofar
    obtain ⟨more, heard', object'⟩ := Channel.recvStep_adds stepped
    refine ⟨got ++ more, ?_, ?_⟩
    · rw [heard', heard, List.append_assoc]
    · rw [object', object]
      simp
  obtain ⟨last, sofar, stopped⟩ := (ends_of_run _ _ _ _ ran).invariant _
    (fun _ _ sofar again => extend sofar (.inl again)) ⟨[], by simp, by simp⟩
  exact extend sofar (.inr stopped)

theorem Channel.absent_of_closed {fuel : Nat} {st after : State}
    (ran : Loop.run (Channel.recvStep k id) fuel st = some (.closed after)) :
    after.connections.lookup (after.heap id).sockfd = none := by
  obtain ⟨last, -, stopped⟩ :=
    (ends_of_run _ _ _ _ ran).invariant (fun _ => True) (fun _ _ _ _ => trivial) trivial
  have received := Channel.recvStep_received k id last
  rw [stopped] at received
  cases received with
  | closed _ _ => exact AList.lookup_erase _ _

/-! ## A statement about each channel -/

/-- What the objects start from: they all have the handler that was registered on
the listener, and nothing was heard of those that are not made yet. -/
structure Rooted (handler : Handler) (st : State) : Prop where
  handlers : ∀ id, id < st.fresh → (st.heap id).handler = some handler
  unmade : ∀ id, st.fresh ≤ id → wire id st = ⟨[], [], []⟩

theorem Action.fresh_le {st after : State} (action : Action k id kind st after) :
    st.fresh ≤ after.fresh := by
  cases action with
  | rearm writeable => rw [enableReadWrite_fresh]
  | enroll fd accepted =>
      rw [enroll_fresh accepted]
      exact Nat.le_succ _
  | _ => exact Nat.le_refl _

/-- An accepted channel gets the listener's handler. -/
theorem Rooted.enroll {handler : Handler} {st : State} (rooted : Rooted handler st)
    (made : id < st.fresh) {fd : Nat}
    (accepted : k.accept st.world (st.heap id).sockfd = .accepted fd) :
    Rooted handler (enroll k id fd st) := by
  have handlers : ∀ conn : Connection, conn.handler = (st.heap id).handler →
      ∀ other, other < st.fresh + 1 →
        (Function.update st.heap st.fresh conn other).handler = some handler := by
    intro conn same other small
    by_cases new : other = st.fresh
    · rw [new, Function.update_self, same]
      exact rooted.handlers id made
    · rw [Function.update_of_ne new]
      exact rooted.handlers other (Nat.lt_of_le_of_ne (Nat.le_of_lt_succ small) new)
  have unmade : ∀ other, st.fresh + 1 ≤ other →
      wire other (Reactor.enroll k id fd st) = ⟨[], [], []⟩ := by
    intro other newer
    rw [wire_enroll accepted]
    exact rooted.unmade other (Nat.le_of_succ_le newer)
  cases found : st.connections.lookup (fd : Fd) with
  | none =>
      obtain ⟨-, heap, fresh, -⟩ := enroll_absent accepted found
      refine ⟨?_, ?_⟩
      · rw [heap, fresh]
        exact handlers _ rfl
      · rw [fresh]
        exact unmade
  | some other =>
      rw [enroll_present accepted found] at unmade ⊢
      exact ⟨handlers _ rfl, unmade⟩

theorem Rooted.action {handler : Handler} {st after : State}
    (rooted : Rooted handler st) (made : id < st.fresh)
    (action : Action k id kind st after) : Rooted handler after := by
  have unmade : ∀ other, st.fresh ≤ other → wire other after = ⟨[], [], []⟩ := by
    intro other newer
    have different : other ≠ id := Nat.ne_of_gt (Nat.lt_of_lt_of_le made newer)
    rw [action.wire_others different]
    exact rooted.unmade other newer
  cases action with
  | quiet event _ => exact ⟨rooted.handlers, unmade⟩
  | read inbuffer =>
      refine ⟨?_, unmade⟩
      intro other small
      rw [st.modify_keeps id _ Connection.handler rfl]
      exact rooted.handlers other small
  | handle response inbuffer =>
      refine ⟨?_, unmade⟩
      intro other small
      rw [handleDone, State.modify_keeps _ id _ Connection.handler rfl]
      exact rooted.handlers other small
  | write result =>
      refine ⟨?_, unmade⟩
      intro other small
      rw [sendDone, State.modify_keeps _ id _ Connection.handler rfl]
      exact rooted.handlers other small
  | except => exact ⟨rooted.handlers, unmade⟩
  | rearm writeable =>
      refine ⟨?_, ?_⟩
      · intro other small
        rw [enableReadWrite_keeps k Connection.handler (fun _ _ => rfl)]
        rw [enableReadWrite_fresh] at small
        exact rooted.handlers other small
      · rw [enableReadWrite_fresh]
        exact unmade
  | enroll fd accepted => exact rooted.enroll made accepted

theorem Rooted.actions {handler : Handler} {st after : State}
    (rooted : Rooted handler st) (made : id < st.fresh)
    (actions : Actions k id kind st after) : Rooted handler after := by
  have both := actions.invariant
    (fun now => Rooted handler now ∧ id < now.fresh) (by
      intro before next held action
      obtain ⟨rooted, made⟩ := held
      exact ⟨rooted.action made action, Nat.lt_of_lt_of_le made action.fresh_le⟩)
    ⟨rooted, made⟩
  exact both.1

theorem Rooted.log {handler : Handler} {st : State} (rooted : Rooted handler st)
    {event : Event} (silent : ∀ id, event.Silent id) : Rooted handler (st.log event) where
  handlers := rooted.handlers
  unmade other newer := (wire_log (silent other)).trans (rooted.unmade other newer)

theorem rooted_boot (listenfd : Fd) (handler : Handler) :
    Rooted handler (boot k listenfd handler) := by
  obtain ⟨-, heap, fresh, world⟩ := boot_state k listenfd handler
  refine ⟨?_, ?_⟩
  · intro id small
    rw [fresh] at small
    rw [Nat.lt_one_iff.mp small, heap, Function.update_self]
  · intro id _
    unfold wire
    rw [world]
    simp [bootWorld, receivedPieces, handlerOutputs, acceptedBytes, Event.piece,
      Event.response, Event.accepted]

theorem reachable_rooted {listenfd : Fd} {handler : Handler} {cursor : Cursor}
    {st : State} (reached : Reachable k listenfd handler cursor st) :
    Rooted handler st := by
  refine reached.invariant (Rooted handler) (rooted_boot listenfd handler) ?_ ?_ ?_
  · intro st ready rooted
    exact rooted.log fun _ => ⟨rfl, rfl, rfl⟩
  · intro cursor fuel fd id st after before rooted found returned
    have entered : Rooted handler (st.log (.recver id fd)) :=
      rooted.log fun _ => ⟨rfl, rfl, rfl⟩
    exact entered.actions ((reachable_table before).made fd id found)
      (actions_of_recver returned)
  · intro cursor fuel fd id st after before rooted found returned
    have entered : Rooted handler (st.log (.sender id fd)) :=
      rooted.log fun _ => ⟨rfl, rfl, rfl⟩
    exact entered.actions ((reachable_table before).made fd id found)
      (actions_of_sender returned)

def EachChannel (P : State → ObjId → Prop) (st : State) : Prop :=
  ∀ fd id, st.connections.lookup fd = some id → (st.heap id).kind = .channel → P st id

def Channel.added (handler : Handler) (sockfd : Fd) : Connection :=
  { Channel.new sockfd with owner := .reactor, handler := some handler }

theorem Action.listener_kind {st after : State} (made : id < st.fresh)
    (action : Action k id .listener st after) :
    (after.heap id).kind = (st.heap id).kind := by
  cases action with
  | quiet event _ => rfl
  | enroll fd accepted => rw [enroll_keeps_object accepted made]

section Rule

variable {handler : Handler} {P : State → ObjId → Prop}
  (frame : ∀ st after id, after.heap id = st.heap id → wire id after = wire id st →
    P st id → P after id)
  (new : ∀ st id sockfd, st.heap id = Channel.added handler sockfd →
    wire id st = ⟨[], [], []⟩ → P st id)

include frame

theorem EachChannel.log {st : State} (each : EachChannel P st) {event : Event}
    (silent : ∀ id, event.Silent id) : EachChannel P (st.log event) := by
  intro fd id found channel
  exact frame st _ id rfl (wire_log (silent id)) (each fd id found channel)

/-- In a call of a channel only its own part has to be looked at. -/
theorem EachChannel.channel {st after : State} {fd : Fd} (table : Table st)
    (each : EachChannel P st) (found : st.connections.lookup fd = some id)
    (actions : Actions k id .channel st after)
    (own : after.connections.lookup (after.heap id).sockfd = some id → P after id) :
    EachChannel P after := by
  intro other id' registered channel
  have apart := actions.apart (table.alone found)
  have before := apart.connections other id' registered
  by_cases same : id' = id
  · subst same
    apply own
    rw [apart.sockfd, table.sockfd other id' before]
    exact registered
  · have object := apart.others id' same
    rw [object] at channel
    exact frame st after id' object (actions.wire_others same)
      (each other id' before channel)

include new

/-- A listener adds channels on which nothing has happened yet. -/
theorem EachChannel.enroll {st : State} (table : Table st)
    (rooted : Rooted handler st) (made : id < st.fresh) (each : EachChannel P st)
    {fd : Nat} (accepted : k.accept st.world (st.heap id).sockfd = .accepted fd) :
    EachChannel P (enroll k id fd st) := by
  -- an entry there was before is still the same object
  have old : ∀ other id', st.connections.lookup other = some id' →
      (Reactor.enroll k id fd st).heap id' = st.heap id' →
      ((Reactor.enroll k id fd st).heap id').kind = .channel →
      P (Reactor.enroll k id fd st) id' := by
    intro other id' before object channel
    rw [object] at channel
    exact frame st _ id' object (wire_enroll accepted) (each other id' before channel)
  intro other id' registered channel
  cases found : st.connections.lookup (fd : Fd) with
  | none =>
      obtain ⟨connections, heap, -, -⟩ := enroll_absent accepted found
      rw [connections] at registered
      by_cases same : other = (fd : Fd)
      · rw [same, AList.lookup_insert] at registered
        rw [← Option.some.inj registered]
        refine new _ st.fresh fd ?_ ?_
        · rw [heap, Function.update_self, Channel.added, ← rooted.handlers id made]
          rfl
        · rw [wire_enroll accepted]
          exact rooted.unmade _ (Nat.le_refl _)
      · rw [AList.lookup_insert_ne same] at registered
        exact old other id' registered
          (enroll_keeps_object accepted (table.made other id' registered)) channel
  | some present =>
      have before : st.connections.lookup other = some id' := by
        rw [enroll_present accepted found] at registered
        exact registered
      exact old other id' before
        (enroll_keeps_object accepted (table.made other id' before)) channel

theorem EachChannel.listener {st after : State} (table : Table st)
    (rooted : Rooted handler st) (made : id < st.fresh)
    (listener : (st.heap id).kind = .listener) (each : EachChannel P st)
    (actions : Actions k id .listener st after) : EachChannel P after := by
  have all := actions.invariant
    (fun now => Table now ∧ Rooted handler now ∧ id < now.fresh ∧
      (now.heap id).kind = .listener ∧ EachChannel P now) (by
    intro before next held action
    obtain ⟨table, rooted, made, listener, each⟩ := held
    refine ⟨table.action action, rooted.action made action,
      Nat.lt_of_lt_of_le made action.fresh_le,
      (action.listener_kind made).trans listener, ?_⟩
    cases action with
    | quiet event quiet =>
        intro fd id' found channel
        have different : id' ≠ id := by
          rintro rfl
          exact absurd (listener.symm.trans channel) (by decide)
        exact frame before _ id' rfl (wire_log (quiet.silent different))
          (each fd id' found channel)
    | enroll fd accepted => exact EachChannel.enroll frame new table rooted made each accepted)
    ⟨table, rooted, made, listener, each⟩
  exact all.2.2.2.2

/-- What holds of a channel just added, is not touched by the other connections
and is kept by the channel's own calls, holds of every channel in the table
throughout every run. -/
theorem Reachable.each_channel {listenfd : Fd}
    (recvers : ∀ fuel st after id, Alone st id →
      (st.heap id).handler = some handler → P st id →
      Channel.recver k fuel id st = some after →
      after.connections.lookup (after.heap id).sockfd = some id → P after id)
    (senders : ∀ fuel st after id, Alone st id → P st id →
      Channel.sender k fuel id st = some after →
      after.connections.lookup (after.heap id).sockfd = some id → P after id)
    {cursor : Cursor} {st : State}
    (reached : Reachable k listenfd handler cursor st) : EachChannel P st := by
  refine reached.invariant (EachChannel P) ?_ ?_ ?_ ?_
  · intro fd id found channel
    obtain ⟨-, rfl⟩ := boot_entry found
    rw [(boot_state k listenfd handler).2.1, Function.update_self] at channel
    cases channel
  · intro st ready each
    exact each.log frame fun _ => ⟨rfl, rfl, rfl⟩
  · intro cursor fuel fd id st after before each found returned
    have silent : ∀ id', (Event.recver id fd).Silent id' := fun _ => ⟨rfl, rfl, rfl⟩
    have table := (SameTable.log st (.recver id fd)).table (reachable_table before)
    have rooted := (reachable_rooted before).log silent
    have entered : EachChannel P (st.log (.recver id fd)) := each.log frame silent
    have made : id < st.fresh := (reachable_table before).made fd id found
    have actions := actions_of_recver returned
    cases kind : (st.heap id).kind with
    | listener =>
        rw [State.log_heap, kind] at actions
        exact EachChannel.listener frame new table rooted made kind entered actions
    | channel =>
        rw [State.log_heap, kind] at actions
        unfold Reactor.recver at returned
        rw [State.log_heap, kind] at returned
        apply EachChannel.channel frame table entered found actions
        exact recvers fuel _ after id (table.alone found) (rooted.handlers id made)
          (entered fd id found kind) returned
  · intro cursor fuel fd id st after before each found returned
    have silent : ∀ id', (Event.sender id fd).Silent id' := fun _ => ⟨rfl, rfl, rfl⟩
    have table := (SameTable.log st (.sender id fd)).table (reachable_table before)
    have entered : EachChannel P (st.log (.sender id fd)) := each.log frame silent
    have actions := actions_of_sender returned
    unfold Reactor.sender at returned
    cases kind : (st.heap id).kind with
    | listener =>
        rw [State.log_heap, kind] at returned
        cases returned
        exact entered
    | channel =>
        rw [State.log_heap, kind] at actions returned
        apply EachChannel.channel frame table entered found actions
        exact senders fuel _ after id (table.alone found) (entered fd id found kind)
          returned

end Rule

end LinuxSystemLearning.Reactor
