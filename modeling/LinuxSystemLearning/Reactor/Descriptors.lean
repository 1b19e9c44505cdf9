import LinuxSystemLearning.Reactor.TableConsistency

/-!
# The descriptors of the registered connections

`Consistent` needs every `epoll_ctl` to succeed.  Whatever the kernel answers, the
three views stand in one order: a descriptor with an interest is one of the table,
and a descriptor of the table is open.
-/

set_option autoImplicit false

namespace LinuxSystemLearning.Reactor

structure Held (st : State) : Prop where
  opened : ∀ fd, fd ∈ st.connections → st.world.opened fd = true
  interested : ∀ fd, (st.world.interest fd).isSome = true → fd ∈ st.connections

variable {k : Kernel} {kind : Kind} {id : ObjId}

/-- Whether or not it succeeds, `epoll_ctl` gives an interest to its descriptor only. -/
theorem World.epollCtl_interest_ne {world : World} {op : CtlOp} {fd other : Fd}
    (different : other ≠ fd) :
    (world.epollCtl k op fd).interest other = world.interest other := by
  unfold World.epollCtl
  dsimp only
  split
  · exact Function.update_of_ne different _ _
  · rfl

theorem SameTable.held {st after : State} (same : SameTable st after)
    (held : Held st) : Held after where
  opened fd member := by
    rw [same.connections] at member
    rw [same.opened]
    exact held.opened fd member
  interested fd some := by
    rw [same.interest] at some
    rw [same.connections]
    exact held.interested fd some

theorem Held.delConnection {st : State} (held : Held st) (fd : Fd) :
    Held (delConnection k fd st) where
  opened other member := by
    rw [delConnection_connections, AList.mem_erase] at member
    rw [delConnection_opened, Function.update_of_ne member.1]
    exact held.opened other member.2
  interested other some := by
    rw [delConnection_interest] at some
    rw [delConnection_connections, AList.mem_erase]
    split at some
    · cases some
    · rename_i different
      exact ⟨different, held.interested other some⟩

theorem Held.enableReadWrite {st : State} (held : Held st) (fd : Fd)
    (readable writeable : Bool) :
    Held (enableReadWrite k fd readable writeable st) := by
  cases present : st.connections.lookup fd with
  | none =>
      rw [enableReadWrite_absent k readable writeable present]
      exact (SameTable.log st _).held held
  | some id =>
      obtain ⟨connections, -, -, world⟩ :=
        enableReadWrite_present k readable writeable present
      refine ⟨fun other member => ?_, fun other some => ?_⟩
      · rw [connections] at member
        rw [world]
        exact held.opened other member
      · rw [connections]
        rw [world] at some
        by_cases same : other = fd
        · rw [same]
          exact AList.lookup_isSome.mp (by simp [present])
        · rw [World.epollCtl_interest_ne same] at some
          exact held.interested other some

theorem Held.insert {st after : State} (held : Held st) {fd : Fd} {id : ObjId}
    {op : CtlOp} {world : World}
    (connections : after.connections = st.connections.insert fd id)
    (ctl : after.world = world.epollCtl k op fd)
    (opened : world.opened = Function.update st.world.opened fd true)
    (interest : world.interest = st.world.interest) : Held after := by
  refine ⟨fun other member => ?_, fun other some => ?_⟩
  · rw [connections, AList.mem_insert] at member
    rw [ctl, World.epollCtl_opened, opened]
    rcases member with rfl | old
    · exact Function.update_self _ _ _
    · by_cases same : other = fd
      · rw [same, Function.update_self]
      · rw [Function.update_of_ne same]
        exact held.opened other old
  · rw [connections, AList.mem_insert]
    rw [ctl] at some
    by_cases same : other = fd
    · exact .inl same
    · rw [World.epollCtl_interest_ne same, interest] at some
      exact .inr (held.interested other some)

theorem Held.enroll {st : State} (held : Held st) {fd : Nat}
    (accepted : k.accept st.world (st.heap id).sockfd = .accepted fd) :
    Held (enroll k id fd st) := by
  cases found : st.connections.lookup (fd : Fd) with
  | none =>
      obtain ⟨connections, -, -, world⟩ := enroll_absent accepted found
      exact held.insert connections world rfl rfl
  | some other =>
      rw [enroll_present accepted found]
      refine ⟨fun fd' member => ?_, held.interested⟩
      have before := held.opened fd' member
      by_cases same : fd' = (fd : Fd)
      · simp [acceptedState, acceptedWorld, same]
      · simpa [acceptedState, acceptedWorld, same] using before

theorem Held.action {st after : State} (held : Held st)
    (action : Action k id kind st after) : Held after := by
  cases action with
  | quiet event _ => exact (SameTable.log st event).held held
  | read inbuffer => exact (SameTable.modify st id _ rfl rfl rfl).held held
  | handle response inbuffer =>
      exact (SameTable.handleDone st id response inbuffer).held held
  | write result => exact (SameTable.sendDone st id result).held held
  | except => exact held.delConnection _
  | rearm writeable => exact held.enableReadWrite _ true writeable
  | enroll fd accepted => exact held.enroll accepted

theorem held_boot (listenfd : Fd) (handler : Handler) :
    Held (boot k listenfd handler) := by
  obtain ⟨connections, -, -, world⟩ := boot_state k listenfd handler
  refine ⟨fun fd member => ?_, fun fd some => ?_⟩
  · rw [connections, AList.mem_insert] at member
    rw [world]
    rcases member with rfl | none
    · simp [bootWorld]
    · exact absurd none (AList.notMem_empty _)
  · rw [connections, AList.mem_insert]
    rw [world] at some
    by_cases same : fd = listenfd
    · exact .inl same
    · rw [World.epollCtl_interest_ne same] at some
      cases some

theorem reachable_held {listenfd : Fd} {handler : Handler} {cursor : Cursor}
    {st : State} (reached : Reachable k listenfd handler cursor st) : Held st :=
  reached.invariant_of_actions Held (held_boot listenfd handler)
    fun _ _ _ _ held action => held.action action

end LinuxSystemLearning.Reactor
