import LinuxSystemLearning.Reactor.Turns

/-!
# One batch of ready events

The dispatcher walks what `epoll_wait` reported and looks each descriptor up by its
number.  While it does so connections are deleted, descriptors closed, and accepted
again under the same numbers.  A call for one descriptor can delete that descriptor
only and adds under numbers that are not registered, so what a number stood for when
`epoll_wait` returned, it stands for until its turn is over.
-/

set_option autoImplicit false

namespace LinuxSystemLearning.Reactor

/-- What `epoll_wait` can report: descriptors that have an interest, each once. -/
structure Reported (world : World) (ready : List (Fd × Mask)) : Prop where
  distinct : (ready.map Prod.fst).Nodup
  interested : ∀ event ∈ ready, (world.interest event.1).isSome = true

/-- The calls of a batch that was reported in `st`. -/
structure Faithful (k : Kernel) (st : State) (events : List Event) : Prop where
  registered : ∀ id fd, .recver id fd ∈ events ∨ .sender id fd ∈ events →
    st.connections.lookup fd = some id
  /-- What is accepted in the batch has a new name. -/
  accepted : ∀ id fd, st.fresh ≤ id → .recver id fd ∉ events ∧ .sender id fd ∉ events
  removed : Quits Event.Calls events
  /-- Nor does `Recver` itself call `Sender` then. -/
  silent : k.ClosedFails → Quits Event.Sends events

variable {k : Kernel} {id : ObjId} {fd : Fd} {st after : State}

/-! ## The turn of one ready event -/

theorem Quits.of_inner {events : List Event}
    (inner : ∀ event ∈ events, event.Inner fd) : Quits Event.Calls events :=
  List.pairwise_of_forall_mem_list fun _ _ later member _ _ =>
    (inner later member).not_calls

theorem Quits.cons {late : Fd → Event → Prop} {event : Event} {events : List Event}
    (other : ∀ fd, event ≠ .delConnection fd) (quits : Quits late events) :
    Quits late (event :: events) :=
  List.Pairwise.cons (fun _ _ fd deleted => absurd deleted (other fd)) quits

/-- The dispatcher has come past `fd`, where `id` is registered, with one call or
none. -/
structure Passed (k : Kernel) (id : ObjId) (fd : Fd) (st after : State)
    (events : List Event) : Prop where
  trace : after.world.trace = st.world.trace ++ events
  within : ∀ event ∈ events, event = .recver id fd ∨ event = .sender id fd ∨
    event.Inner fd
  others : ∀ other, other ≠ fd → ∀ entry, st.connections.lookup other = some entry →
    after.connections.lookup other = some entry
  own : after.connections.lookup fd = st.connections.lookup fd ∨
    after.connections.lookup fd = none
  gone : .delConnection fd ∈ events → after.connections.lookup fd = none
  removed : Quits Event.Calls events
  silent : k.ClosedFails → Quits Event.Sends events

theorem Passed.uncalled (k : Kernel) (id : ObjId) (fd : Fd) (st : State) :
    Passed k id fd st st [] where
  trace := (List.append_nil _).symm
  within _ member := absurd member List.not_mem_nil
  others _ _ _ found := found
  own := .inl rfl
  gone member := absurd member List.not_mem_nil
  removed := List.Pairwise.nil
  silent _ := List.Pairwise.nil

theorem passed_of_dispatchIn {fuel : Nat} {mask : Mask} (table : Table st)
    (found : st.connections.lookup fd = some id)
    (returned : dispatchIn k fuel fd mask st = some after) :
    ∃ events, Passed k id fd st after events := by
  unfold dispatchIn at returned
  split at returned
  · rw [found] at returned
    have sockfd : ((st.log (.recver id fd)).heap id).sockfd = fd :=
      table.sockfd fd id found
    obtain ⟨-, ⟨events, trace, inner, gone⟩, others, own⟩ :=
      turn_of_recver (table.log _) found returned
    rw [sockfd] at inner gone others own
    refine ⟨.recver id fd :: events, ⟨?_, ?_, others, ?_, ?_, ?_, ?_⟩⟩
    · rw [trace, State.log_world, World.log_trace, List.append_assoc]
      rfl
    · intro event member
      rcases List.mem_cons.mp member with rfl | member
      · exact .inl rfl
      · exact .inr (.inr (inner event member))
    · exact own
    · intro deleted
      exact gone ((List.mem_cons.mp deleted).resolve_left (by simp))
    · exact Quits.cons (fun _ => by simp) (Quits.of_inner inner)
    · intro closed
      exact Quits.cons (fun _ => by simp)
        (recver_quits closed (table.log _) found returned trace)
  · cases returned
    exact ⟨[], Passed.uncalled k id fd _⟩

theorem passed_of_dispatchOut {fuel : Nat} {mask : Mask} (table : Table st)
    (own : st.connections.lookup fd = some id ∨ st.connections.lookup fd = none)
    (returned : dispatchOut k fuel fd mask st = some after) :
    ∃ events, Passed k id fd st after events ∧
      (st.connections.lookup fd = none → events = []) := by
  unfold dispatchOut at returned
  split at returned
  · rcases own with found | missing
    · rw [found] at returned
      have sockfd : ((st.log (.sender id fd)).heap id).sockfd = fd :=
        table.sockfd fd id found
      obtain ⟨-, connections, events, trace, keeps⟩ := spares_of_sender returned
      rw [sockfd] at keeps
      have entries : after.connections = st.connections := connections
      refine ⟨.sender id fd :: events, ⟨?_, ?_, ?_, ?_, ?_, ?_, ?_⟩, ?_⟩
      · rw [trace, State.log_world, World.log_trace, List.append_assoc]
        rfl
      · intro event member
        rcases List.mem_cons.mp member with rfl | member
        · exact .inr (.inl rfl)
        · exact .inr (.inr (.inl (keeps event member)))
      · rw [entries]
        exact fun _ _ _ registered => registered
      · rw [entries]
        exact .inl rfl
      · intro deleted
        have member := (List.mem_cons.mp deleted).resolve_left (by simp)
        exact False.elim (keeps _ member)
      · exact Quits.cons (fun _ => by simp) (Quits.of_keeps keeps)
      · exact fun _ => Quits.cons (fun _ => by simp) (Quits.of_keeps keeps)
      · intro missing
        rw [found] at missing
        cases missing
    · rw [missing] at returned
      cases returned
      exact ⟨[], Passed.uncalled k id fd _, fun _ => rfl⟩
  · cases returned
    exact ⟨[], Passed.uncalled k id fd _, fun _ => rfl⟩

/-- Once the connection is deleted, its turn has nothing more to call. -/
theorem Passed.andThen {middle : State} {front back : List Event}
    (one : Passed k id fd st middle front) (two : Passed k id fd middle after back)
    (silent : middle.connections.lookup fd = none → back = []) :
    Passed k id fd st after (front ++ back) := by
  have apart : ∀ late : Fd → Event → Prop, ∀ earlier ∈ front, ∀ later ∈ back,
      ∀ other, earlier = .delConnection other → ¬ late other later := by
    rintro late _ member later member' other rfl
    have same : other = fd := by
      rcases one.within _ member with call | call | keeps | deleted
      · cases call
      · cases call
      · exact False.elim keeps
      · exact Event.delConnection.inj deleted
    rw [same] at member
    rw [silent (one.gone member)] at member'
    exact absurd member' List.not_mem_nil
  refine ⟨?_, ?_, ?_, ?_, ?_, ?_, ?_⟩
  · rw [two.trace, one.trace, List.append_assoc]
  · intro event member
    rcases List.mem_append.mp member with member | member
    · exact one.within event member
    · exact two.within event member
  · intro other different entry found
    exact two.others other different entry (one.others other different entry found)
  · rcases two.own with same | none
    · rw [same]
      exact one.own
    · exact .inr none
  · intro deleted
    rcases List.mem_append.mp deleted with deleted | deleted
    · rcases two.own with same | none
      · rw [same]
        exact one.gone deleted
      · exact none
    · exact two.gone deleted
  · exact List.pairwise_append.mpr ⟨one.removed, two.removed, apart Event.Calls⟩
  · exact fun closed =>
      List.pairwise_append.mpr ⟨one.silent closed, two.silent closed, apart Event.Sends⟩

/-! ## The walk over the batch -/

theorem Table.of_actions {kind : Kind} (table : Table st)
    (actions : Actions k id kind st after) : Table after :=
  actions.invariant Table (fun _ _ table action => table.action action) table

theorem table_of_dispatchIn {fuel : Nat} {mask : Mask} (table : Table st)
    (returned : dispatchIn k fuel fd mask st = some after) : Table after := by
  rcases dispatchIn_cases k returned with rfl | ⟨id, -, returned⟩
  · exact table
  · exact (table.log _).of_actions (actions_of_recver returned)

theorem table_of_dispatchOut {fuel : Nat} {mask : Mask} (table : Table st)
    (returned : dispatchOut k fuel fd mask st = some after) : Table after := by
  rcases dispatchOut_cases k returned with rfl | ⟨id, -, returned⟩
  · exact table
  · exact (table.log _).of_actions (actions_of_sender returned)

/-- The event has to do with a descriptor whose turn it is. -/
def Event.About (fd : Fd) (event : Event) : Prop :=
  event = .delConnection fd ∨ event.Calls fd ∨ event.Sends fd

structure Walked (k : Kernel) (fds : List Fd) (st after : State)
    (events : List Event) : Prop where
  trace : after.world.trace = st.world.trace ++ events
  calls : ∀ id fd, .recver id fd ∈ events ∨ .sender id fd ∈ events →
    st.connections.lookup fd = some id
  turns : ∀ event ∈ events, ∀ fd, event.About fd → fd ∈ fds
  removed : Quits Event.Calls events
  silent : k.ClosedFails → Quits Event.Sends events

theorem Passed.about {events : List Event} (passed : Passed k id fd st after events)
    {event : Event} (member : event ∈ events) {other : Fd} (about : event.About other) :
    other = fd := by
  rcases passed.within event member with rfl | rfl | keeps | rfl
  · rcases about with deleted | call | send
    · cases deleted
    · exact call.symm
    · exact False.elim send
  · rcases about with deleted | call | send
    · cases deleted
    · exact call.symm
    · exact False.elim send
  · rcases about with rfl | call | send
    · exact False.elim keeps
    · exact absurd call (Event.Inner.not_calls (.inl keeps))
    · cases event with
      | send _ _ _ _ => exact send.symm.trans keeps
      | _ => exact False.elim send
  · rcases about with deleted | call | send
    · exact (Event.delConnection.inj deleted).symm
    · exact False.elim call
    · exact False.elim send

theorem Passed.calls {events : List Event} (passed : Passed k id fd st after events)
    {other : ObjId} {fd' : Fd}
    (call : .recver other fd' ∈ events ∨ .sender other fd' ∈ events) :
    other = id ∧ fd' = fd := by
  rcases call with member | member
  · rcases passed.within _ member with same | same | keeps | deleted
    · exact Event.recver.inj same
    · cases same
    · exact False.elim keeps
    · cases deleted
  · rcases passed.within _ member with same | same | keeps | deleted
    · cases same
    · exact Event.sender.inj same
    · exact False.elim keeps
    · cases deleted

theorem Walked.cons {middle : State} {front back : List Event} {fds : List Fd}
    (found : st.connections.lookup fd = some id) (unlike : fd ∉ fds)
    (one : Passed k id fd st middle front) (rest : Walked k fds middle after back)
    (same : ∀ other ∈ fds, middle.connections.lookup other =
      st.connections.lookup other) :
    Walked k (fd :: fds) st after (front ++ back) := by
  have apart : ∀ late : Fd → Event → Prop,
      (∀ event other, late other event → event.About other) →
      ∀ earlier ∈ front, ∀ later ∈ back, ∀ other, earlier = .delConnection other →
        ¬ late other later := by
    intro late about earlier member later member' other deleted happens
    have here := one.about member (.inl deleted)
    have there := rest.turns later member' other (about later other happens)
    exact unlike (here ▸ there)
  refine ⟨?_, ?_, ?_, ?_, ?_⟩
  · rw [rest.trace, one.trace, List.append_assoc]
  · intro other fd' call
    simp only [List.mem_append] at call
    rcases call with (member | member) | (member | member)
    · obtain ⟨rfl, rfl⟩ := one.calls (.inl member)
      exact found
    · have registered := rest.calls other fd' (.inl member)
      rw [same fd' (rest.turns _ member fd' (.inr (.inl rfl)))] at registered
      exact registered
    · obtain ⟨rfl, rfl⟩ := one.calls (.inr member)
      exact found
    · have registered := rest.calls other fd' (.inr member)
      rw [same fd' (rest.turns _ member fd' (.inr (.inl rfl)))] at registered
      exact registered
  · intro event member other about
    rcases List.mem_append.mp member with member | member
    · exact List.mem_cons.mpr (.inl (one.about member about))
    · exact List.mem_cons_of_mem _ (rest.turns event member other about)
  · exact List.pairwise_append.mpr ⟨one.removed, rest.removed,
      apart Event.Calls fun _ _ call => .inr (.inl call)⟩
  · exact fun closed => List.pairwise_append.mpr ⟨one.silent closed, rest.silent closed,
      apart Event.Sends fun _ _ send => .inr (.inr send)⟩

theorem walked_of_dispatcher {fuel : Nat} (ready : List (Fd × Mask))
    {st after : State} (table : Table st)
    (registered : ∀ event ∈ ready, (st.connections.lookup event.1).isSome = true)
    (distinct : (ready.map Prod.fst).Nodup)
    (returned : dispatcher k fuel ready st = some after) :
    ∃ events, Walked k (ready.map Prod.fst) st after events := by
  induction ready generalizing st with
  | nil =>
      cases returned
      refine ⟨[], (List.append_nil _).symm, ?_, ?_, List.Pairwise.nil,
        fun _ => List.Pairwise.nil⟩
      · simp
      · simp
  | cons event ready ih =>
      obtain ⟨fd, mask⟩ := event
      obtain ⟨received, first, returned⟩ := Option.bind_eq_some_iff.mp returned
      obtain ⟨middle, second, returned⟩ := Option.bind_eq_some_iff.mp returned
      obtain ⟨unlike, distinct⟩ := List.nodup_cons.mp distinct
      obtain ⟨id, found⟩ :=
        Option.isSome_iff_exists.mp (registered (fd, mask) List.mem_cons_self)
      obtain ⟨front, one⟩ := passed_of_dispatchIn table found first
      have own := one.own
      rw [found] at own
      have table' := table_of_dispatchIn table first
      obtain ⟨back, two, silent⟩ := passed_of_dispatchOut table' own second
      have passed := one.andThen two silent
      have same : ∀ other ∈ ready.map Prod.fst,
          middle.connections.lookup other = st.connections.lookup other := by
        intro other member
        obtain ⟨event, within, rfl⟩ := List.mem_map.mp member
        obtain ⟨entry, present⟩ := Option.isSome_iff_exists.mp
          (registered event (List.mem_cons_of_mem _ within))
        rw [present]
        apply passed.others event.1 ?_ entry present
        rintro rfl
        exact unlike member
      obtain ⟨events, rest⟩ := ih (table_of_dispatchOut table' second) (by
        intro event within
        rw [same event.1 (List.mem_map_of_mem within)]
        exact registered event (List.mem_cons_of_mem _ within)) distinct returned
      exact ⟨_, Walked.cons found unlike passed rest same⟩

/-- Whatever is deleted, accepted and accepted again during a batch, the calls made for
a descriptor are made on the connection that was registered under it when
`epoll_wait` returned. -/
theorem batch_calls_registered {listenfd : Fd} {handler : Handler}
    (reached : Reachable k listenfd handler .waiting st)
    (reported : Reported st.world (Epoller.waitEvents k st.world).1)
    {fuel : Nat} (returned : loopOnce k fuel st = some after) :
    ∃ events, after.world.trace = st.world.trace ++
        .epollWait (Epoller.waitEvents k st.world).1 :: events ∧
      Faithful k st events := by
  let woken : State := { st with world := (Epoller.waitEvents k st.world).2 }
  have table : Table woken := (reachable_table reached).log _
  have registered : ∀ event ∈ (Epoller.waitEvents k st.world).1,
      (woken.connections.lookup event.1).isSome = true := by
    intro event member
    apply AList.lookup_isSome.mpr
    exact (reachable_held reached).interested _ (reported.interested event member)
  obtain ⟨events, walked⟩ :=
    walked_of_dispatcher _ table registered reported.distinct returned
  refine ⟨events, ?_, walked.calls, ?_, walked.removed, walked.silent⟩
  · rw [walked.trace]
    simp [woken, Epoller.waitEvents]
  · intro id fd new
    have older : ¬ st.connections.lookup fd = some id := by
      intro found
      exact absurd ((reachable_table reached).made fd id found) (Nat.not_lt.mpr new)
    exact ⟨fun member => older (walked.calls id fd (.inl member)),
      fun member => older (walked.calls id fd (.inr member))⟩

/-- The client on descriptor 7 hangs up, and the next one gets its number. -/
def reuseKernel : Kernel :=
  Kernel.scripted [[(3, epollIn)], [(7, epollIn ||| epollOut), (3, epollIn)]] [7, 7, 7]
    [.eof] []

theorem batch_calls_registered_reused :
    ∃ (st after : State) (events : List Event),
      st.connections.lookup 7 = some 1 ∧
      after.connections.lookup 7 = some 2 ∧
      after.world.trace = st.world.trace ++
        .epollWait (Epoller.waitEvents reuseKernel st.world).1 :: events ∧
      Faithful reuseKernel st events := by
  have check : (loop reuseKernel 3 1 (boot reuseKernel 3 silentHandler)).any (fun st =>
      decide (st.connections.lookup 7 = some 1) &&
      decide (((Epoller.waitEvents reuseKernel st.world).1.map Prod.fst).Nodup) &&
      ((Epoller.waitEvents reuseKernel st.world).1.all fun event =>
        (st.world.interest event.1).isSome) &&
      (loopOnce reuseKernel 3 st).any (fun after =>
        decide (after.connections.lookup 7 = some 2))) = true := by
    decide
  obtain ⟨st, ran, check⟩ := Option.any_eq_true _ _ |>.mp check
  simp only [Bool.and_eq_true, decide_eq_true_eq, List.all_eq_true] at check
  obtain ⟨⟨⟨found, distinct⟩, interested⟩, dispatched⟩ := check
  obtain ⟨after, returned, reused⟩ := Option.any_eq_true _ _ |>.mp dispatched
  obtain ⟨events, trace, faithful⟩ :=
    batch_calls_registered (reachable_loop ran) ⟨distinct, interested⟩ returned
  exact ⟨st, after, events, found, of_decide_eq_true reused, trace, faithful⟩

end LinuxSystemLearning.Reactor
