import LinuxSystemLearning.Reactor.Backlog
import LinuxSystemLearning.Reactor.Channels

/-!
# What one call does to the others

A `Recver` or `Sender` call on a registered object records what objects on its own
descriptor record.  It takes no entry but its own out of the table, and where it does
so nothing is sent on the descriptor any more.
-/

set_option autoImplicit false

namespace LinuxSystemLearning.Reactor

open LinuxSystemLearning.Cxx
open LinuxSystemLearning.Loop

def Event.Calls (fd : Fd) : Event → Prop
  | .recver _ other => other = fd
  | .sender _ other => other = fd
  | _ => False

def Event.Sends (fd : Fd) : Event → Prop
  | .send _ other _ _ => other = fd
  | _ => False

/-- Nothing of the kind happens to a descriptor after its connection was deleted. -/
def Quits (late : Fd → Event → Prop) (events : List Event) : Prop :=
  events.Pairwise fun earlier later =>
    ∀ fd, earlier = .delConnection fd → ¬ late fd later

variable {k : Kernel} {id : ObjId}

/-! ## What is recorded -/

/-- What was recorded between the two states is all of one kind. -/
def Grows (P : Event → Prop) (st after : State) : Prop :=
  ∃ events, after.world.trace = st.world.trace ++ events ∧ ∀ event ∈ events, P event

theorem Grows.refl (P : Event → Prop) (st : State) : Grows P st st :=
  ⟨[], (List.append_nil _).symm, fun _ member => absurd member List.not_mem_nil⟩

theorem Grows.trans {P : Event → Prop} {st middle after : State}
    (one : Grows P st middle) (two : Grows P middle after) : Grows P st after := by
  obtain ⟨front, trace, first⟩ := one
  obtain ⟨back, trace', second⟩ := two
  refine ⟨front ++ back, by rw [trace', trace, List.append_assoc], ?_⟩
  intro event member
  rcases List.mem_append.mp member with member | member
  · exact first event member
  · exact second event member

theorem Grows.log {P : Event → Prop} {event : Event} (holds : P event) (st : State) :
    Grows P st (st.log event) := by
  refine ⟨[event], rfl, ?_⟩
  intro other member
  exact List.mem_singleton.mp member ▸ holds

/-- Recorded by an object on `fd` that deletes nothing. -/
def Event.Keeps (fd : Fd) : Event → Prop
  | .epollWait _ => False
  | .recver _ _ => False
  | .sender _ _ => False
  | .delConnection _ => False
  | .send _ other _ _ => other = fd
  | _ => True

def Event.Inner (fd : Fd) (event : Event) : Prop :=
  event.Keeps fd ∨ event = .delConnection fd

theorem Quits.of_keeps {late : Fd → Event → Prop} {fd : Fd} {events : List Event}
    (keeps : ∀ event ∈ events, event.Keeps fd) : Quits late events := by
  refine List.pairwise_of_forall_mem_list ?_
  intro earlier member later _ other deleted
  subst deleted
  exact False.elim (keeps _ member)

theorem Quits.of_grows {late : Fd → Event → Prop} {fd : Fd} {st after : State}
    {events : List Event} (grows : Grows (Event.Keeps fd) st after)
    (trace : after.world.trace = st.world.trace ++ events) : Quits late events := by
  obtain ⟨events', trace', keeps⟩ := grows
  rw [trace'] at trace
  exact List.append_cancel_left trace ▸ Quits.of_keeps keeps

theorem Event.Inner.not_calls {fd other : Fd} {event : Event} (inner : event.Inner fd) :
    ¬ event.Calls other := by
  rcases inner with keeps | rfl
  · cases event <;> first | exact fun calls => calls | exact fun _ => keeps
  · exact fun calls => calls

/-! ## One call -/

/-- A call on the object `id` is over: it recorded what objects on its descriptor
record, and only its own entry may be gone. -/
structure Turn (id : ObjId) (st after : State) : Prop where
  sockfd : (after.heap id).sockfd = (st.heap id).sockfd
  recorded : ∃ events, after.world.trace = st.world.trace ++ events ∧
    (∀ event ∈ events, event.Inner (st.heap id).sockfd) ∧
    (.delConnection (st.heap id).sockfd ∈ events →
      after.connections.lookup (st.heap id).sockfd = none)
  others : ∀ fd, fd ≠ (st.heap id).sockfd → ∀ other,
    st.connections.lookup fd = some other → after.connections.lookup fd = some other
  own : after.connections.lookup (st.heap id).sockfd =
      st.connections.lookup (st.heap id).sockfd ∨
    after.connections.lookup (st.heap id).sockfd = none

theorem Turn.trans {st middle after : State} (one : Turn id st middle)
    (two : Turn id middle after) : Turn id st after := by
  obtain ⟨sockfd, ⟨front, trace, first, gone⟩, others, own⟩ := one
  obtain ⟨sockfd', ⟨back, trace', second, gone'⟩, others', own'⟩ := two
  rw [sockfd] at sockfd' second gone' others' own'
  refine ⟨sockfd', ⟨front ++ back, by rw [trace', trace, List.append_assoc], ?_, ?_⟩,
    fun fd different other found => others' fd different other
      (others fd different other found), ?_⟩
  · intro event member
    rcases List.mem_append.mp member with member | member
    · exact first event member
    · exact second event member
  · intro deleted
    rcases List.mem_append.mp deleted with deleted | deleted
    · rcases own' with same | none
      · rw [same]
        exact gone deleted
      · exact none
    · exact gone' deleted
  · rcases own' with same | none
    · rw [same]
      exact own
    · exact .inr none

/-- Nothing is deleted and the table is left alone. -/
structure Spares (id : ObjId) (st after : State) : Prop where
  sockfd : (after.heap id).sockfd = (st.heap id).sockfd
  connections : after.connections = st.connections
  grows : Grows (Event.Keeps (st.heap id).sockfd) st after

theorem Spares.refl (id : ObjId) (st : State) : Spares id st st :=
  ⟨rfl, rfl, Grows.refl _ st⟩

theorem Spares.trans {st middle after : State} (one : Spares id st middle)
    (two : Spares id middle after) : Spares id st after := by
  obtain ⟨sockfd, connections, grows⟩ := one
  obtain ⟨sockfd', connections', grows'⟩ := two
  rw [sockfd] at grows'
  exact ⟨sockfd'.trans sockfd, connections'.trans connections, grows.trans grows'⟩

theorem Spares.log {st : State} {event : Event}
    (keeps : event.Keeps (st.heap id).sockfd) : Spares id st (st.log event) :=
  ⟨rfl, rfl, Grows.log keeps st⟩

theorem Spares.modify (st : State) (change : Connection → Connection)
    (sockfd : (change (st.heap id)).sockfd = (st.heap id).sockfd) :
    Spares id st (st.modify id change) :=
  ⟨by rw [State.modify_heap_self, sockfd], rfl, Grows.refl _ _⟩

theorem Spares.turn {st after : State} (spares : Spares id st after) :
    Turn id st after := by
  obtain ⟨sockfd, connections, events, trace, keeps⟩ := spares
  refine ⟨sockfd, ⟨events, trace, fun event member => .inl (keeps event member), ?_⟩,
    ?_, ?_⟩
  · exact fun deleted => False.elim (keeps _ deleted)
  · rw [connections]
    exact fun _ _ _ found => found
  · rw [connections]
    exact .inl rfl

theorem Turn.refl (id : ObjId) (st : State) : Turn id st st :=
  (Spares.refl id st).turn

theorem Turn.delConnection (st : State) (id : ObjId) :
    Turn id st (delConnection k (st.heap id).sockfd st) := by
  obtain ⟨ok, trace⟩ := delConnection_trace k st (st.heap id).sockfd
  refine ⟨rfl, ⟨_, trace, ?_, fun _ => AList.lookup_erase _ _⟩, ?_, .inr
    (AList.lookup_erase _ _)⟩
  · intro event member
    rcases List.mem_cons.mp member with rfl | member
    · exact .inr rfl
    rcases List.mem_cons.mp member with rfl | member
    · exact .inl trivial
    · rw [List.mem_singleton.mp member]
      exact .inl trivial
  · intro fd different other found
    rw [delConnection_connections, AList.lookup_erase_ne different]
    exact found

/-! ## The calls of a channel -/

/-- An error deletes the connection, and the loop goes on or is left. -/
theorem Channel.turn_of_recvStep {st after : State}
    (stepped : Channel.recvStep k id st = .next after ∨
      Channel.recvStep k id st = .stop (.drained after) ∨
      Channel.recvStep k id st = .stop (.closed after)) : Turn id st after := by
  have tried : ∀ result, Spares id st (st.log (.recv id (st.heap id).sockfd result)) :=
    fun _ => Spares.log trivial
  have received := Channel.recvStep_received k id st
  rcases stepped with again | drained | closed
  · rw [again] at received
    cases received with
    | data piece _ => exact ((tried _).trans (Spares.modify _ _ rfl)).turn
    | interrupted _ => exact (tried _).turn
    | failed errno _ _ _ => exact (tried _).turn.trans (Turn.delConnection _ id)
  · rw [drained] at received
    cases received with
    | drained errno _ _ => exact (tried _).turn
  · rw [closed] at received
    cases received with
    | closed _ _ => exact (tried _).turn.trans (Turn.delConnection _ id)

theorem Channel.turn_of_reading {fuel : Nat} {st after : State}
    (ran : Loop.run (Channel.recvStep k id) fuel st = some (.drained after) ∨
      Loop.run (Channel.recvStep k id) fuel st = some (.closed after)) :
    Turn id st after := by
  have keeps : ∀ before next, Turn id st before →
      Channel.recvStep k id before = .next next → Turn id st next :=
    fun before next turn again => turn.trans (Channel.turn_of_recvStep (.inl again))
  rcases ran with ran | ran
  · obtain ⟨last, turn, stopped⟩ :=
      (ends_of_run _ _ _ _ ran).invariant (Turn id st) keeps (Turn.refl id st)
    exact turn.trans (Channel.turn_of_recvStep (.inr (.inl stopped)))
  · obtain ⟨last, turn, stopped⟩ :=
      (ends_of_run _ _ _ _ ran).invariant (Turn id st) keeps (Turn.refl id st)
    exact turn.trans (Channel.turn_of_recvStep (.inr (.inr stopped)))

theorem Channel.spares_of_callHandler {st after : State}
    (ran : Channel.callHandler id st = some after) : Spares id st after := by
  rcases Channel.callHandler_cases ran with
    ⟨-, rfl⟩ | ⟨-, rfl⟩ | ⟨handler, response, inbuffer, -, -, -, rfl⟩
  · exact Spares.refl id _
  · exact Spares.modify _ _ rfl
  · refine Spares.trans (Spares.log ?_) (Spares.modify _ _ rfl)
    exact trivial

theorem Channel.spares_of_sendStep {st after : State}
    (stepped : Channel.sendStep k id st = .next after ∨
      Channel.sendStep k id st = .stop after) : Spares id st after := by
  rw [Channel.sendStep_done stepped]
  refine Spares.trans (Spares.log ?_) (Spares.modify _ _ rfl)
  exact rfl

theorem Channel.spares_of_sender {fuel : Nat} {st after : State}
    (returned : Channel.sender k fuel id st = some after) : Spares id st after := by
  obtain ⟨last, ran, rfl⟩ := Channel.sender_cases returned
  obtain ⟨before, spares, stopped⟩ :=
    (ends_of_run _ _ _ _ ran).invariant (Spares id st)
      (fun before next spares again =>
        spares.trans (Channel.spares_of_sendStep (.inl again))) (Spares.refl id st)
  have sent := spares.trans (Channel.spares_of_sendStep (.inr stopped))
  refine sent.trans ⟨enableReadWrite_keeps k Connection.sockfd (fun _ _ => rfl) _ _ _ _,
    enableReadWrite_connections k _ _ _, ?_⟩
  exact enableReadWrite_events k last _ _ true _ trivial (fun _ _ => trivial)

theorem Channel.turn_of_recver {fuel : Nat} {st after : State}
    (returned : Channel.recver k fuel id st = some after) : Turn id st after := by
  rcases Channel.recver_cases returned with
    ran | ⟨read, handled, ran, called, ⟨-, rfl⟩ | sent⟩
  · exact Channel.turn_of_reading (.inr ran)
  · exact (Channel.turn_of_reading (.inl ran)).trans
      (Channel.spares_of_callHandler called).turn
  · exact (Channel.turn_of_reading (.inl ran)).trans
      ((Channel.spares_of_callHandler called).trans
        (Channel.spares_of_sender sent)).turn

/-- A reading loop that is left has met no fatal error, so it deletes nothing before
`recv` returns 0. -/
theorem Channel.spares_before_end (closed : k.ClosedFails) {st : State}
    {result : Channel.RecvEnd} (ends : Ends (Channel.recvStep k id) st result)
    (alive : result ≠ .crashed) :
    ∃ last, Spares id st last ∧ Channel.recvStep k id last = .stop result := by
  obtain ⟨last, held, stopped⟩ := ends.invariant
    (fun now => Spares id st now ∧ Ends (Channel.recvStep k id) now result) (by
    intro before next held again
    obtain ⟨spares, ends⟩ := held
    have visits : Visits (Channel.recvStep k id) before next := .next .entry again
    refine ⟨spares.trans ?_, (visits.ends_iff result).mp ends⟩
    have received := Channel.recvStep_received k id before
    rw [again] at received
    cases received with
    | data piece _ =>
        refine Spares.trans (Spares.log ?_) (Spares.modify _ _ rfl)
        exact trivial
    | interrupted _ => exact Spares.log trivial
    | failed errno fatal fails _ =>
        exact absurd (Channel.crashed_of_fatal closed .entry fails fatal ends) alive)
    ⟨Spares.refl id st, ends⟩
  exact ⟨last, held.1, stopped⟩

/-- Where the connection is deleted, `Recver` returns at once. -/
theorem Channel.recver_quits (closed : k.ClosedFails) {fuel : Nat} {st after : State}
    (returned : Channel.recver k fuel id st = some after) {events : List Event}
    (trace : after.world.trace = st.world.trace ++ events) :
    Quits Event.Sends events := by
  rcases Channel.recver_cases returned with
    ran | ⟨read, handled, ran, called, ended⟩
  · obtain ⟨last, spares, stopped⟩ := Channel.spares_before_end closed
      (ends_of_run _ _ _ _ ran) (fun other => by cases other)
    have received := Channel.recvStep_received k id last
    rw [stopped] at received
    cases received with
    | closed _ _ =>
        obtain ⟨-, -, front, trace', keeps⟩ := spares
        obtain ⟨ok, deleted⟩ := delConnection_trace k
          (last.log (.recv id (last.heap id).sockfd .eof)) (last.heap id).sockfd
        rw [deleted, State.log_world, World.log_trace, trace', List.append_assoc,
          List.append_assoc] at trace
        rw [← List.append_cancel_left trace]
        refine List.pairwise_append.mpr ⟨Quits.of_keeps keeps, ?_, ?_⟩
        · simp [Event.Sends]
        · intro earlier member later _ fd deleted
          subst deleted
          exact False.elim (keeps _ member)
  · obtain ⟨last, spares, stopped⟩ := Channel.spares_before_end closed
      (ends_of_run _ _ _ _ ran) (fun other => by cases other)
    have reading : Spares id st read := by
      have received := Channel.recvStep_received k id last
      rw [stopped] at received
      cases received with
      | drained errno _ _ => exact spares.trans (Spares.log trivial)
    have handling := reading.trans (Channel.spares_of_callHandler called)
    rcases ended with ⟨-, rfl⟩ | sent
    · exact Quits.of_grows handling.grows trace
    · exact Quits.of_grows (handling.trans (Channel.spares_of_sender sent)).grows trace

/-! ## The calls of the listener -/

theorem enroll_keeps_entry {st : State} {fd : Nat}
    (accepted : k.accept st.world (st.heap id).sockfd = .accepted fd) {other : Fd}
    {entry : ObjId} (registered : st.connections.lookup other = some entry) :
    (enroll k id fd st).connections.lookup other = some entry := by
  cases present : st.connections.lookup (fd : Fd) with
  | none =>
      have different : other ≠ fd := by
        rintro rfl
        rw [present] at registered
        cases registered
      rw [(enroll_absent accepted present).1, AList.lookup_insert_ne different]
      exact registered
  | some _ =>
      rw [enroll_present accepted present]
      exact registered

structure Serving (id : ObjId) (fd : Fd) (st : State) : Prop where
  owner : (st.heap id).owner = .reactor
  made : id < st.fresh
  sockfd : (st.heap id).sockfd = fd
  found : st.connections.lookup fd = some id

theorem Serving.enroll {st : State} {listenfd : Fd} (serving : Serving id listenfd st)
    {fd : Nat} (accepted : k.accept st.world (st.heap id).sockfd = .accepted fd) :
    Serving id listenfd (enroll k id fd st) := by
  have object := enroll_keeps_object accepted serving.made
  refine ⟨?_, ?_, ?_, enroll_keeps_entry accepted serving.found⟩
  · rw [object]
    exact serving.owner
  · exact Nat.lt_of_lt_of_le serving.made (Action.enroll fd accepted).fresh_le
  · rw [object]
    exact serving.sockfd

/-- Nothing is deleted and every entry stays. -/
structure Adds (id : ObjId) (st after : State) : Prop where
  sockfd : (after.heap id).sockfd = (st.heap id).sockfd
  entries : ∀ fd entry, st.connections.lookup fd = some entry →
    after.connections.lookup fd = some entry
  grows : Grows (Event.Keeps (st.heap id).sockfd) st after

theorem Adds.trans {st middle after : State} (one : Adds id st middle)
    (two : Adds id middle after) : Adds id st after := by
  obtain ⟨sockfd, entries, grows⟩ := one
  obtain ⟨sockfd', entries', grows'⟩ := two
  rw [sockfd] at grows'
  exact ⟨sockfd'.trans sockfd,
    fun fd entry found => entries' fd entry (entries fd entry found), grows.trans grows'⟩

theorem Adds.turn {st after : State} {listenfd : Fd} (serving : Serving id listenfd st)
    (adds : Adds id st after) : Turn id st after := by
  obtain ⟨sockfd, entries, events, trace, keeps⟩ := adds
  have found := serving.found
  rw [← serving.sockfd] at found
  refine ⟨sockfd, ⟨events, trace, fun event member => .inl (keeps event member),
    fun deleted => False.elim (keeps _ deleted)⟩, fun fd _ => entries fd, .inl ?_⟩
  rw [found]
  exact entries _ _ found

theorem Adds.enroll {st : State} (made : id < st.fresh) {fd : Nat}
    (accepted : k.accept st.world (st.heap id).sockfd = .accepted fd) :
    Adds id st (enroll k id fd st) := by
  obtain ⟨last, trace, what⟩ := enroll_trace accepted
  refine ⟨by rw [enroll_keeps_object accepted made],
    fun _ _ found => enroll_keeps_entry accepted found, _, trace, ?_⟩
  intro event member
  rcases List.mem_cons.mp member with rfl | member
  · exact trivial
  · rw [List.mem_singleton.mp member]
    rcases what with ⟨ok, rfl⟩ | rfl
    · exact trivial
    · exact trivial

theorem Listener.adds_of_recvStep {st after : State} {listenfd : Fd}
    (serving : Serving id listenfd st)
    (stepped : Listener.recvStep k id st = .next after ∨
      Listener.recvStep k id st = .stop (some after)) :
    Adds id st after ∧ Serving id listenfd after := by
  have failed : ∀ errno, after = st.log (.accept (st.heap id).sockfd (.fail errno)) →
      Adds id st after ∧ Serving id listenfd after := by
    rintro errno rfl
    refine ⟨⟨rfl, fun _ _ found => found, Grows.log ?_ st⟩, serving.owner,
      serving.made, serving.sockfd, serving.found⟩
    exact trivial
  cases answer : k.accept st.world (st.heap id).sockfd with
  | accepted fd =>
      rw [Listener.recvStep_accepted serving.owner serving.made answer] at stepped
      have same : enroll k id fd st = after := by
        simpa using stepped
      subst same
      exact ⟨Adds.enroll serving.made answer, serving.enroll answer⟩
  | fail errno =>
      apply failed errno
      by_cases interrupted : errno = eintr
      · subst interrupted
        rw [Listener.recvStep_interrupted answer] at stepped
        exact Eq.symm (by simpa using stepped)
      · rw [Listener.recvStep_over interrupted answer] at stepped
        exact Eq.symm (by simpa using stepped)

theorem Listener.adds_of_recver {fuel : Nat} {st after : State} {listenfd : Fd}
    (serving : Serving id listenfd st)
    (returned : Listener.recver k fuel id st = some after) : Adds id st after := by
  obtain ⟨_, ran, rfl⟩ := Option.bind_eq_some_iff.mp returned
  have start : Adds id st st := ⟨rfl, fun _ _ found => found, Grows.refl _ st⟩
  obtain ⟨last, ⟨adds, serving⟩, stopped⟩ := (ends_of_run _ _ _ _ ran).invariant
    (fun now => Adds id st now ∧ Serving id listenfd now) (by
    intro before next held again
    obtain ⟨one, kept⟩ := Listener.adds_of_recvStep held.2 (.inl again)
    exact ⟨held.1.trans one, kept⟩) ⟨start, serving⟩
  exact adds.trans (Listener.adds_of_recvStep serving (.inr stopped)).1

/-! ## The virtual calls -/

variable {fd : Fd} {st after : State}

theorem Table.serving (table : Table st)
    (found : st.connections.lookup fd = some id) : Serving id fd st :=
  ⟨table.owner fd id found, table.made fd id found, table.sockfd fd id found, found⟩

theorem Table.log (table : Table st) (event : Event) : Table (st.log event) :=
  (SameTable.log st event).table table

theorem turn_of_recver {fuel : Nat} (table : Table st)
    (found : st.connections.lookup fd = some id)
    (returned : recver k fuel id st = some after) : Turn id st after := by
  unfold recver at returned
  split at returned
  · have serving := table.serving found
    exact (Listener.adds_of_recver serving returned).turn serving
  · exact Channel.turn_of_recver returned

theorem spares_of_sender {fuel : Nat}
    (returned : sender k fuel id st = some after) : Spares id st after := by
  unfold sender at returned
  split at returned
  · cases returned
    exact Spares.refl id st
  · exact Channel.spares_of_sender returned

/-- A listener has nothing to send, and a channel that is deleted sends nothing. -/
theorem recver_quits (closed : k.ClosedFails) {fuel : Nat} (table : Table st)
    (found : st.connections.lookup fd = some id)
    (returned : recver k fuel id st = some after) {events : List Event}
    (trace : after.world.trace = st.world.trace ++ events) :
    Quits Event.Sends events := by
  unfold recver at returned
  split at returned
  · exact Quits.of_grows
      (Listener.adds_of_recver (table.serving found) returned).grows trace
  · exact Channel.recver_quits closed returned trace

end LinuxSystemLearning.Reactor
