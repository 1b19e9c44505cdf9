import LinuxSystemLearning.Reactor.Actions

/-!
# The table, the interest list and the open descriptors

Three views of one set: the keys of `_connections`, the descriptors registered
with epoll and the descriptors open.  `Table` is what every action keeps whatever
the kernel answers, `Synced` what it keeps while `epoll_ctl` succeeds, and
`Consistent` needs an `accept` that returns descriptors that are not open.
-/

set_option autoImplicit false

namespace LinuxSystemLearning.Reactor

open LinuxSystemLearning.Cxx

/-- Every entry of the table is an object of this reactor under its own
descriptor. -/
structure Table (st : State) : Prop where
  sockfd : ∀ fd id, st.connections.lookup fd = some id → (st.heap id).sockfd = fd
  owner : ∀ fd id, st.connections.lookup fd = some id →
    (st.heap id).owner = .reactor
  made : ∀ fd id, st.connections.lookup fd = some id → id < st.fresh

def CtlSucceeded (st : State) : Prop :=
  ∀ op fd, .epollCtl op fd false ∉ st.world.trace

def Event.failedCtl : Event → Bool
  | .epollCtl _ _ ok => !ok
  | _ => false

instance (st : State) : Decidable (CtlSucceeded st) :=
  decidable_of_iff (st.world.trace.all fun event => !event.failedCtl) (by
    rw [List.all_eq_true]
    constructor
    · intro none_failed op fd member
      simpa [Event.failedCtl] using none_failed _ member
    · intro succeeded event member
      cases event with
      | epollCtl op fd ok =>
          cases ok with
          | true => rfl
          | false => exact absurd member (succeeded op fd)
      | _ => rfl)

def Synced (st : State) : Prop :=
  ∀ fd id, st.connections.lookup fd = some id →
    st.world.interest fd = some (st.heap id).events

def Kernel.AcceptsFresh (k : Kernel) : Prop :=
  ∀ world fd newfd, k.accept world fd = .accepted newfd → world.opened newfd = false

structure Consistent (st : State) : Prop extends Table st where
  registered : ∀ fd, fd ∈ st.connections ↔ st.world.opened fd = true
  interested : ∀ fd, fd ∈ st.connections ↔ (st.world.interest fd).isSome = true
  synced : Synced st
  edgeTriggered : ∀ fd id, st.connections.lookup fd = some id →
    (st.heap id).events.has epollIn = true ∧ (st.heap id).events.has epollEt = true
  neverExists : ∀ fd, .connExists fd ∉ st.world.trace

/-! ## What every action keeps -/

/-- Only the buffers of objects changed. -/
structure SameTable (st after : State) : Prop where
  connections : after.connections = st.connections
  fresh : after.fresh = st.fresh
  sockfd : ∀ id, (after.heap id).sockfd = (st.heap id).sockfd
  owner : ∀ id, (after.heap id).owner = (st.heap id).owner
  events : ∀ id, (after.heap id).events = (st.heap id).events
  opened : after.world.opened = st.world.opened
  interest : after.world.interest = st.world.interest

theorem SameTable.table {st after : State} (same : SameTable st after)
    (table : Table st) : Table after where
  sockfd fd id found := by
    rw [same.connections] at found
    rw [same.sockfd]
    exact table.sockfd fd id found
  owner fd id found := by
    rw [same.connections] at found
    rw [same.owner]
    exact table.owner fd id found
  made fd id found := by
    rw [same.connections] at found
    rw [same.fresh]
    exact table.made fd id found

theorem SameTable.log (st : State) (event : Event) : SameTable st (st.log event) :=
  ⟨rfl, rfl, fun _ => rfl, fun _ => rfl, fun _ => rfl, rfl, rfl⟩

theorem SameTable.modify (st : State) (id : ObjId)
    (change : Connection → Connection)
    (sockfd : (change (st.heap id)).sockfd = (st.heap id).sockfd)
    (owner : (change (st.heap id)).owner = (st.heap id).owner)
    (events : (change (st.heap id)).events = (st.heap id).events) :
    SameTable st (st.modify id change) :=
  ⟨rfl, rfl, st.modify_keeps id change _ sockfd, st.modify_keeps id change _ owner,
    st.modify_keeps id change _ events, rfl, rfl⟩

theorem SameTable.trans {st middle after : State} (one : SameTable st middle)
    (two : SameTable middle after) : SameTable st after where
  connections := two.connections.trans one.connections
  fresh := two.fresh.trans one.fresh
  sockfd id := (two.sockfd id).trans (one.sockfd id)
  owner id := (two.owner id).trans (one.owner id)
  events id := (two.events id).trans (one.events id)
  opened := two.opened.trans one.opened
  interest := two.interest.trans one.interest

theorem SameTable.sendDone (st : State) (id : ObjId) (result : SendResult) :
    SameTable st (sendDone id result st) :=
  (SameTable.log st _).trans (SameTable.modify _ id _ rfl rfl rfl)

theorem SameTable.handleDone (st : State) (id : ObjId) (response inbuffer : Bytes) :
    SameTable st (handleDone id response inbuffer st) :=
  (SameTable.log st _).trans (SameTable.modify _ id _ rfl rfl rfl)

variable {k : Kernel} {kind : Kind}

theorem Table.delConnection {st : State} (table : Table st) (fd : Fd) :
    Table (delConnection k fd st) := by
  have before : ∀ other id,
      (Reactor.delConnection k fd st).connections.lookup other = some id →
        st.connections.lookup other = some id := by
    intro other id found
    rw [delConnection_connections] at found
    by_cases same : other = fd
    · rw [same, AList.lookup_erase] at found
      cases found
    · rwa [AList.lookup_erase_ne same] at found
  exact ⟨fun other id found => table.sockfd other id (before other id found),
    fun other id found => table.owner other id (before other id found),
    fun other id found => table.made other id (before other id found)⟩

theorem Table.enableReadWrite {st : State} (table : Table st) (fd : Fd)
    (readable writeable : Bool) :
    Table (enableReadWrite k fd readable writeable st) where
  sockfd other id found := by
    rw [enableReadWrite_connections] at found
    rw [enableReadWrite_keeps k Connection.sockfd (fun _ _ => rfl)]
    exact table.sockfd other id found
  owner other id found := by
    rw [enableReadWrite_connections] at found
    rw [enableReadWrite_keeps k Connection.owner (fun _ _ => rfl)]
    exact table.owner other id found
  made other id found := by
    rw [enableReadWrite_connections] at found
    rw [enableReadWrite_fresh]
    exact table.made other id found

/-- Adding a new object under a descriptor the table does not have. -/
theorem Table.insert {st after : State} (table : Table st) {fd : Fd}
    {conn : Connection} (absent : st.connections.lookup fd = none)
    (connections : after.connections = st.connections.insert fd st.fresh)
    (heap : after.heap = Function.update st.heap st.fresh conn)
    (fresh : after.fresh = st.fresh + 1) (sockfd : conn.sockfd = fd)
    (owner : conn.owner = .reactor) : Table after := by
  have entry : ∀ other id, after.connections.lookup other = some id →
      (other = fd ∧ id = st.fresh) ∨
        (st.connections.lookup other = some id ∧ id < st.fresh) := by
    intro other id found
    rw [connections] at found
    by_cases same : other = fd
    · rw [same, AList.lookup_insert] at found
      exact .inl ⟨same, (Option.some.inj found).symm⟩
    · rw [AList.lookup_insert_ne same] at found
      exact .inr ⟨found, table.made other id found⟩
  refine ⟨fun other id found => ?_, fun other id found => ?_,
    fun other id found => ?_⟩
  · rw [heap]
    rcases entry other id found with ⟨rfl, rfl⟩ | ⟨old, older⟩
    · simp [sockfd]
    · rw [Function.update_of_ne (Nat.ne_of_lt older)]
      exact table.sockfd other id old
  · rw [heap]
    rcases entry other id found with ⟨rfl, rfl⟩ | ⟨old, older⟩
    · simp [owner]
    · rw [Function.update_of_ne (Nat.ne_of_lt older)]
      exact table.owner other id old
  · rw [fresh]
    rcases entry other id found with ⟨rfl, rfl⟩ | ⟨old, older⟩
    · exact Nat.lt_succ_self _
    · exact Nat.lt_succ_of_lt older

theorem Table.unused {st after : State} (table : Table st) {conn : Connection}
    (connections : after.connections = st.connections)
    (heap : after.heap = Function.update st.heap st.fresh conn)
    (fresh : after.fresh = st.fresh + 1) : Table after := by
  have older : ∀ fd id, after.connections.lookup fd = some id →
      after.heap id = st.heap id := by
    intro fd id found
    rw [connections] at found
    rw [heap, Function.update_of_ne (Nat.ne_of_lt (table.made fd id found))]
  refine ⟨fun fd id found => ?_, fun fd id found => ?_, fun fd id found => ?_⟩
  · rw [older fd id found]
    exact table.sockfd fd id (connections ▸ found)
  · rw [older fd id found]
    exact table.owner fd id (connections ▸ found)
  · rw [fresh]
    exact Nat.lt_succ_of_lt (table.made fd id (connections ▸ found))

theorem Table.action {id : ObjId} {st after : State} (table : Table st)
    (action : Action k id kind st after) : Table after := by
  cases action with
  | quiet event _ => exact (SameTable.log st event).table table
  | read inbuffer => exact (SameTable.modify st id _ rfl rfl rfl).table table
  | handle response inbuffer =>
      exact (SameTable.handleDone st id response inbuffer).table table
  | write result => exact (SameTable.sendDone st id result).table table
  | except => exact table.delConnection _
  | rearm writeable => exact table.enableReadWrite _ true writeable
  | enroll fd accepted =>
      cases found : st.connections.lookup (fd : Fd) with
      | none =>
          obtain ⟨connections, heap, fresh, -⟩ := enroll_absent accepted found
          exact table.insert found connections heap fresh rfl rfl
      | some other =>
          rw [enroll_present accepted found]
          exact table.unused rfl rfl rfl

/-! ## The recorded and the registered masks -/

theorem Action.trace_prefix {id : ObjId} {st after : State}
    (action : Action k id kind st after) : st.world.trace <+: after.world.trace := by
  cases action with
  | quiet event _ => exact List.prefix_append _ _
  | read inbuffer => exact List.prefix_rfl
  | handle response inbuffer => exact List.prefix_append _ _
  | write result => exact List.prefix_append _ _
  | except =>
      obtain ⟨ok, trace⟩ := delConnection_trace k st (st.heap id).sockfd
      rw [trace]
      exact List.prefix_append _ _
  | rearm writeable =>
      obtain ⟨rest, trace, -⟩ :=
        enableReadWrite_trace k st (st.heap id).sockfd true writeable
      rw [trace]
      exact List.prefix_append _ _
  | enroll fd accepted =>
      obtain ⟨last, trace, -⟩ := enroll_trace accepted
      rw [trace]
      exact List.prefix_append _ _

theorem CtlSucceeded.of_prefix {st after : State} (succeeded : CtlSucceeded after)
    (grown : st.world.trace <+: after.world.trace) : CtlSucceeded st := by
  intro op fd member
  exact succeeded op fd (grown.subset member)

theorem epollCtl_of_succeeded {world : World} {op : CtlOp} {fd : Fd}
    (succeeded : ∀ op' fd',
      .epollCtl op' fd' false ∉ (world.epollCtl k op fd).trace) :
    (world.epollCtl k op fd).interest =
      Function.update world.interest fd (World.interestAfter op) := by
  apply World.epollCtl_interest_of_ok
  by_contra failed
  rw [Bool.not_eq_true] at failed
  exact succeeded op fd (by simp [failed])

theorem SameTable.synced {st after : State} (same : SameTable st after)
    (synced : Synced st) : Synced after := by
  intro fd id found
  rw [same.connections] at found
  rw [same.interest, same.events]
  exact synced fd id found

theorem Synced.delConnection {st : State} (synced : Synced st) (fd : Fd) :
    Synced (delConnection k fd st) := by
  intro other id found
  obtain ⟨different, found⟩ := lookup_delConnection k found
  rw [delConnection_interest, if_neg different]
  exact synced other id found

theorem Synced.rearm {st : State} (table : Table st) (synced : Synced st) (fd : Fd)
    (writeable : Bool)
    (succeeded : CtlSucceeded (enableReadWrite k fd true writeable st)) :
    Synced (enableReadWrite k fd true writeable st) := by
  cases present : st.connections.lookup fd with
  | none =>
      rw [enableReadWrite_absent k true writeable present]
      exact (SameTable.log st _).synced synced
  | some id =>
      obtain ⟨connections, heap, -, world⟩ :=
        enableReadWrite_present k true writeable present
      unfold CtlSucceeded at succeeded
      rw [world] at succeeded
      have interest := epollCtl_of_succeeded succeeded
      intro other id' found
      rw [connections] at found
      rw [world, interest, heap]
      by_cases same : other = fd
      · subst same
        rw [present] at found
        cases found
        simp [World.interestAfter]
      · -- another descriptor is another object
        have different : id' ≠ id := by
          rintro rfl
          apply same
          rw [← table.sockfd other id' found, table.sockfd fd id' present]
        rw [Function.update_of_ne same, Function.update_of_ne different]
        exact synced other id' found

theorem Synced.enroll {st : State} {id : ObjId} (table : Table st)
    (synced : Synced st) {fd : Nat}
    (accepted : k.accept st.world (st.heap id).sockfd = .accepted fd)
    (succeeded : CtlSucceeded (enroll k id fd st)) :
    Synced (enroll k id fd st) := by
  cases present : st.connections.lookup (fd : Fd) with
  | some other =>
      rw [enroll_present accepted present]
      intro fd' id' found
      have older : id' ≠ st.fresh := Nat.ne_of_lt (table.made fd' id' found)
      simp only [State.log_world, State.log_heap, acceptedState, acceptedWorld,
        World.log_interest, Function.update_of_ne older]
      exact synced fd' id' found
  | none =>
      obtain ⟨connections, heap, -, world⟩ := enroll_absent accepted present
      unfold CtlSucceeded at succeeded
      rw [world] at succeeded
      have interest := epollCtl_of_succeeded succeeded
      intro other id' found
      rw [connections] at found
      rw [world, interest, heap]
      by_cases same : other = (fd : Fd)
      · rw [same, AList.lookup_insert] at found
        cases found
        simp [same, World.interestAfter, Listener.channelFor]
      · rw [AList.lookup_insert_ne same] at found
        have older : id' ≠ st.fresh := Nat.ne_of_lt (table.made other id' found)
        rw [Function.update_of_ne same, Function.update_of_ne older]
        exact synced other id' found

theorem Synced.action {id : ObjId} {st after : State} (table : Table st)
    (synced : Synced st) (action : Action k id kind st after)
    (succeeded : CtlSucceeded after) : Synced after := by
  cases action with
  | quiet event _ => exact (SameTable.log st event).synced synced
  | read inbuffer => exact (SameTable.modify st id _ rfl rfl rfl).synced synced
  | handle response inbuffer =>
      exact (SameTable.handleDone st id response inbuffer).synced synced
  | write result => exact (SameTable.sendDone st id result).synced synced
  | except => exact synced.delConnection _
  | rearm writeable => exact Synced.rearm table synced _ writeable succeeded
  | enroll fd accepted => exact Synced.enroll table synced accepted succeeded

/-! ## The three views -/

theorem SameTable.consistent {st after : State} (same : SameTable st after)
    (consistent : Consistent st)
    (neverExists : ∀ fd, .connExists fd ∉ after.world.trace) :
    Consistent after where
  toTable := same.table consistent.toTable
  registered fd := by
    rw [same.connections, same.opened]
    exact consistent.registered fd
  interested fd := by
    rw [same.connections, same.interest]
    exact consistent.interested fd
  synced := same.synced consistent.synced
  edgeTriggered fd id found := by
    rw [same.connections] at found
    rw [same.events]
    exact consistent.edgeTriggered fd id found
  neverExists := neverExists

theorem Consistent.delConnection {st : State} (consistent : Consistent st)
    (fd : Fd) : Consistent (delConnection k fd st) where
  toTable := consistent.toTable.delConnection fd
  registered other := by
    rw [delConnection_connections, delConnection_opened, AList.mem_erase]
    by_cases same : other = fd
    · simp [same]
    · simp [same, consistent.registered other]
  interested other := by
    rw [delConnection_connections, delConnection_interest, AList.mem_erase]
    by_cases same : other = fd
    · simp [same]
    · simp [same, consistent.interested other]
  synced := consistent.synced.delConnection fd
  edgeTriggered other id found := by
    exact consistent.edgeTriggered other id (lookup_delConnection k found).2
  neverExists other := by
    obtain ⟨ok, trace⟩ := delConnection_trace k st fd
    rw [trace]
    simp [consistent.neverExists other]

theorem readWriteMask_edgeTriggered (writeable : Bool) :
    (readWriteMask true writeable).has epollIn = true ∧
      (readWriteMask true writeable).has epollEt = true := by
  cases writeable <;> decide

theorem newMask_edgeTriggered :
    (epollIn ||| epollEt).has epollIn = true ∧
      (epollIn ||| epollEt).has epollEt = true := by
  decide

theorem Consistent.rearm {st : State} (consistent : Consistent st) (fd : Fd)
    (writeable : Bool)
    (succeeded : CtlSucceeded (enableReadWrite k fd true writeable st)) :
    Consistent (enableReadWrite k fd true writeable st) := by
  have synced :=
    Synced.rearm consistent.toTable consistent.synced fd writeable succeeded
  cases present : st.connections.lookup fd with
  | none =>
      rw [enableReadWrite_absent k true writeable present]
      apply (SameTable.log st _).consistent consistent
      intro other
      simp [consistent.neverExists other]
  | some id =>
      obtain ⟨connections, heap, fresh, world⟩ :=
        enableReadWrite_present k true writeable present
      unfold CtlSucceeded at succeeded
      rw [world] at succeeded
      have interest := epollCtl_of_succeeded succeeded
      have member : fd ∈ st.connections := AList.lookup_isSome.mp (by simp [present])
      refine ⟨consistent.toTable.enableReadWrite fd true writeable, fun other => ?_,
        fun other => ?_, synced, fun other id' found => ?_, fun other => ?_⟩
      · rw [connections, world]
        exact consistent.registered other
      · rw [connections, world, interest]
        by_cases same : other = fd
        · simp [same, member, World.interestAfter]
        · rw [Function.update_of_ne same]
          exact consistent.interested other
      · rw [connections] at found
        rw [heap]
        by_cases same : id' = id
        · subst same
          simpa using readWriteMask_edgeTriggered writeable
        · rw [Function.update_of_ne same]
          exact consistent.edgeTriggered other id' found
      · rw [world]
        simp [consistent.neverExists other]

theorem Consistent.enroll {st : State} {id : ObjId} (fresh : k.AcceptsFresh)
    (consistent : Consistent st) {fd : Nat}
    (accepted : k.accept st.world (st.heap id).sockfd = .accepted fd)
    (succeeded : CtlSucceeded (enroll k id fd st)) :
    Consistent (enroll k id fd st) := by
  have synced :=
    Synced.enroll consistent.toTable consistent.synced accepted succeeded
  have notMember : (fd : Fd) ∉ st.connections := by
    rw [consistent.registered, fresh _ _ _ accepted]
    simp
  have absent : st.connections.lookup (fd : Fd) = none :=
    AList.lookup_eq_none.mpr notMember
  obtain ⟨connections, heap, made, world⟩ := enroll_absent accepted absent
  unfold CtlSucceeded at succeeded
  rw [world] at succeeded
  have interest := epollCtl_of_succeeded succeeded
  refine ⟨consistent.toTable.insert absent connections heap made rfl rfl,
    fun other => ?_, fun other => ?_, synced, fun other id' found => ?_,
    fun other => ?_⟩
  · rw [connections, world, AList.mem_insert]
    by_cases same : other = (fd : Fd)
    · simp [same, acceptedWorld]
    · simp [same, acceptedWorld, consistent.registered other]
  · rw [connections, world, interest, AList.mem_insert]
    by_cases same : other = (fd : Fd)
    · simp [same, World.interestAfter]
    · rw [Function.update_of_ne same]
      simp [same, acceptedWorld, consistent.interested other]
  · rw [connections] at found
    rw [heap]
    by_cases same : other = (fd : Fd)
    · rw [same, AList.lookup_insert] at found
      cases found
      rw [Function.update_self]
      exact newMask_edgeTriggered
    · rw [AList.lookup_insert_ne same] at found
      rw [Function.update_of_ne (Nat.ne_of_lt (consistent.made other id' found))]
      exact consistent.edgeTriggered other id' found
  · rw [world]
    simp [acceptedWorld, consistent.neverExists other]

theorem Event.Quiet.not_connExists {id : ObjId} {event : Event}
    (quiet : event.Quiet id) (fd : Fd) : .connExists fd ≠ event := by
  rintro rfl
  exact quiet

theorem Consistent.action {id : ObjId} {st after : State} (fresh : k.AcceptsFresh)
    (consistent : Consistent st) (action : Action k id kind st after)
    (succeeded : CtlSucceeded after) : Consistent after := by
  cases action with
  | quiet event quiet =>
      apply (SameTable.log st event).consistent consistent
      intro fd
      simp [consistent.neverExists fd, quiet.not_connExists fd]
  | read inbuffer =>
      exact (SameTable.modify st id _ rfl rfl rfl).consistent consistent
        consistent.neverExists
  | handle response inbuffer =>
      apply (SameTable.handleDone st id response inbuffer).consistent consistent
      intro fd
      simp [handleDone, consistent.neverExists fd]
  | write result =>
      apply (SameTable.sendDone st id result).consistent consistent
      intro fd
      simp [sendDone, consistent.neverExists fd]
  | except => exact consistent.delConnection _
  | rearm writeable => exact consistent.rearm _ writeable succeeded
  | enroll fd accepted => exact consistent.enroll fresh accepted succeeded

/-! ## Every run -/

theorem boot_entry {listenfd fd : Fd} {handler : Handler} {id : ObjId}
    (found : (boot k listenfd handler).connections.lookup fd = some id) :
    fd = listenfd ∧ id = 0 := by
  rw [(boot_state k listenfd handler).1] at found
  by_cases same : fd = listenfd
  · rw [same, AList.lookup_insert] at found
    exact ⟨same, (Option.some.inj found).symm⟩
  · rw [AList.lookup_insert_ne same, AList.lookup_empty] at found
    cases found

theorem table_boot (listenfd : Fd) (handler : Handler) :
    Table (boot k listenfd handler) := by
  obtain ⟨-, heap, fresh, -⟩ := boot_state k listenfd handler
  refine ⟨fun fd id found => ?_, fun fd id found => ?_, fun fd id found => ?_⟩
  · obtain ⟨rfl, rfl⟩ := boot_entry found
    rw [heap]
    rfl
  · obtain ⟨rfl, rfl⟩ := boot_entry found
    rw [heap]
    rfl
  · obtain ⟨rfl, rfl⟩ := boot_entry found
    rw [fresh]
    exact Nat.zero_lt_one

theorem synced_boot (listenfd : Fd) (handler : Handler)
    (succeeded : CtlSucceeded (boot k listenfd handler)) :
    Synced (boot k listenfd handler) := by
  obtain ⟨-, heap, -, world⟩ := boot_state k listenfd handler
  unfold CtlSucceeded at succeeded
  rw [world] at succeeded
  have interest := epollCtl_of_succeeded succeeded
  intro fd id found
  obtain ⟨rfl, rfl⟩ := boot_entry found
  rw [world, interest, heap]
  simp [World.interestAfter, Listener.new]

theorem consistent_boot (listenfd : Fd) (handler : Handler)
    (succeeded : CtlSucceeded (boot k listenfd handler)) :
    Consistent (boot k listenfd handler) := by
  have synced := synced_boot listenfd handler succeeded
  obtain ⟨connections, heap, -, world⟩ := boot_state k listenfd handler
  unfold CtlSucceeded at succeeded
  rw [world] at succeeded
  have interest := epollCtl_of_succeeded succeeded
  refine ⟨table_boot listenfd handler, fun fd => ?_, fun fd => ?_, synced,
    fun fd id found => ?_, fun fd => ?_⟩
  · rw [connections, world, AList.mem_insert]
    simp [bootWorld]
  · rw [connections, world, interest, AList.mem_insert]
    by_cases same : fd = listenfd
    · simp [same, World.interestAfter]
    · rw [Function.update_of_ne same]
      simp [same, bootWorld]
  · obtain ⟨rfl, rfl⟩ := boot_entry found
    rw [heap, Function.update_self]
    exact newMask_edgeTriggered
  · rw [world]
    simp [bootWorld]

theorem reachable_table {listenfd : Fd} {handler : Handler} {cursor : Cursor}
    {st : State} (reached : Reachable k listenfd handler cursor st) : Table st :=
  reached.invariant_of_actions Table (table_boot listenfd handler)
    fun _ _ _ _ table action => table.action action

theorem reachable_synced {listenfd : Fd} {handler : Handler} {cursor : Cursor}
    {st : State} (reached : Reachable k listenfd handler cursor st)
    (succeeded : CtlSucceeded st) : Synced st := by
  have both := reached.invariant_of_actions
    (fun st => Table st ∧ (CtlSucceeded st → Synced st))
    ⟨table_boot listenfd handler, synced_boot listenfd handler⟩ (by
      intro id kind st after held action
      refine ⟨held.1.action action, ?_⟩
      intro succeeded
      have earlier := succeeded.of_prefix action.trace_prefix
      exact Synced.action held.1 (held.2 earlier) action succeeded)
  exact both.2 succeeded

theorem table_consistency (fresh : k.AcceptsFresh) {listenfd : Fd}
    {handler : Handler} {cursor : Cursor} {st : State}
    (reached : Reachable k listenfd handler cursor st)
    (succeeded : CtlSucceeded st) : Consistent st := by
  have held := reached.invariant_of_actions
    (fun st => CtlSucceeded st → Consistent st)
    (consistent_boot listenfd handler) (by
      intro id kind st after held action succeeded
      have earlier := succeeded.of_prefix action.trace_prefix
      exact (held earlier).action fresh action succeeded)
  exact held succeeded

theorem scripted_acceptsFresh (ready : List (List (Fd × Mask)))
    (accepts : List Nat) (recvs : List RecvResult) (sends : List SendResult) :
    (Kernel.scripted ready accepts recvs sends).AcceptsFresh := by
  intro world fd newfd accepted
  simp only [Kernel.scripted] at accepted
  split at accepted
  · cases accepted
  · split at accepted
    · cases accepted
    · rename_i closed
      cases accepted
      simpa using closed

theorem table_consistency_accepting :
    let k := Kernel.scripted [[(3, epollIn)]] [7] [] []
    ∃ st, Reachable k 3 (fun _ _ => some ([], [])) (.out 3 epollIn []) st ∧
      (st.connections.lookup 7).isSome = true ∧ Consistent st := by
  intro k
  let st := boot k 3 (fun _ _ => some ([], []))
  let polled : State := { st with world := (Epoller.waitEvents k st.world).2 }
  have waited : Reachable k 3 (fun _ _ => some ([], [])) (.turn [(3, epollIn)]) polled :=
    .wait .boot
  have ran : ∃ after, dispatchIn k 3 3 (widen epollIn) polled = some after ∧
      CtlSucceeded after ∧ (after.connections.lookup 7).isSome = true := by
    have check : (dispatchIn k 3 3 (widen epollIn) polled).any (fun after =>
        decide (CtlSucceeded after) && (after.connections.lookup 7).isSome) = true := by
      decide
    simpa [Option.any_eq_true] using check
  obtain ⟨after, ran, succeeded, found⟩ := ran
  exact ⟨after, .recver waited ran, found,
    table_consistency (scripted_acceptsFresh _ _ _ _) (.recver waited ran) succeeded⟩

end LinuxSystemLearning.Reactor
