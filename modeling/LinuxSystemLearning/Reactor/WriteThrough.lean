import LinuxSystemLearning.Library.Interleaving
import LinuxSystemLearning.Reactor.Descriptors

/-!
# Writing through to a kernel that may refuse

`AddConnection` and `EnableReadWrite` change the table and the recorded masks and
write them through to epoll.  The helper that calls `epoll_ctl` logs a failure and
returns nothing, so the callers go on as if it had succeeded.
-/

set_option autoImplicit false

namespace LinuxSystemLearning.Reactor

open Interleaving

/-- A call on the reactor.  The connection that is added is a new object for a
descriptor that was just opened. -/
inductive Operation where
  | addConnection (conn : Connection)
  | enableReadWrite (sockfd : Fd) (readable writeable : Bool)
  | delConnection (sockfd : Fd)

def World.opening (fd : Fd) (world : World) : World :=
  { world with opened := Function.update world.opened fd true }

variable (k : Kernel)

def operate (st : State) : Operation → State
  | .addConnection conn =>
      let (id, st) := (st.onWorld (World.opening conn.sockfd)).make conn
      addConnection k id st
  | .enableReadWrite sockfd readable writeable =>
      enableReadWrite k sockfd readable writeable st
  | .delConnection sockfd => delConnection k sockfd st

def operateStep (st : State) (operation : Operation) : Option State :=
  some (operate k st operation)

/-- The connection is not refused as a duplicate, and its registration fails. -/
def AddFails (st : State) (conn : Connection) : Prop :=
  st.connections.lookup conn.sockfd = none ∧
    k.epollCtl (st.world.opening conn.sockfd) (.add conn.events) conn.sockfd = false

/-- Behind the operation every recorded mask is the registered one, and a connection
that could not be registered is neither in the table nor open. -/
structure WrittenThrough (st : State) (operation : Operation) : Prop where
  synced : Synced (operate k st operation)
  undone : ∀ conn, operation = .addConnection conn → AddFails k st conn →
    (operate k st operation).connections = st.connections ∧
      (operate k st operation).world.opened conn.sockfd = false

/-- The kernel does what the operation asks it for, or it was asked for nothing new. -/
def Answered (st : State) : Operation → Prop
  | .addConnection conn =>
      (st.connections.lookup conn.sockfd).isSome = true ∨
        k.epollCtl (st.world.opening conn.sockfd) (.add conn.events) conn.sockfd = true
  | .enableReadWrite sockfd readable writeable =>
      ∀ id, st.connections.lookup sockfd = some id →
        (st.heap id).events = readWriteMask readable writeable ∨
          k.epollCtl (st.world.log (.enableReadWrite sockfd readable writeable))
            (.mod (readWriteMask readable writeable)) sockfd = true
  | .delConnection _ => True

variable {k} {st : State}

/-! ## `AddConnection` -/

def madeState (st : State) (conn : Connection) : State :=
  ((st.onWorld (World.opening conn.sockfd)).make conn).2

theorem madeState_new (conn : Connection) :
    (madeState st conn).heap st.fresh = conn := by
  simp [madeState, State.make]

theorem operate_duplicate {conn : Connection}
    (present : (st.connections.lookup conn.sockfd).isSome = true) :
    operate k st (.addConnection conn) =
      (madeState st conn).log (.connExists conn.sockfd) := by
  have made : (madeState st conn).heap st.fresh = conn := madeState_new conn
  have taken : isConnectionExists ((madeState st conn).heap st.fresh).sockfd
      (madeState st conn) = true := by
    rw [made]
    exact present
  have refused := addConnection_exists k taken
  rw [made] at refused
  exact refused

theorem operate_new {conn : Connection}
    (absent : st.connections.lookup conn.sockfd = none) :
    (operate k st (.addConnection conn)).connections =
        st.connections.insert conn.sockfd st.fresh ∧
      (operate k st (.addConnection conn)).heap =
        Function.update st.heap st.fresh { conn with owner := .reactor } ∧
      (operate k st (.addConnection conn)).fresh = st.fresh + 1 ∧
      (operate k st (.addConnection conn)).world =
        (st.world.opening conn.sockfd).epollCtl k (.add conn.events) conn.sockfd := by
  have made : (madeState st conn).heap st.fresh = conn := madeState_new conn
  have missing : isConnectionExists ((madeState st conn).heap st.fresh).sockfd
      (madeState st conn) = false := by
    rw [made]
    exact Option.isSome_eq_false_iff.mpr (Option.isNone_iff_eq_none.mpr absent)
  obtain ⟨connections, heap, fresh, world⟩ := addConnection_new k missing
  rw [made] at connections heap world
  refine ⟨connections, ?_, fresh, world⟩
  rw [show operate k st (.addConnection conn) =
    Reactor.addConnection k st.fresh (madeState st conn) from rfl, heap]
  exact Function.update_idem _ _ _

theorem Table.operate (table : Table st) (operation : Operation) :
    Table (operate k st operation) := by
  cases operation with
  | addConnection conn =>
      cases found : st.connections.lookup conn.sockfd with
      | none =>
          obtain ⟨connections, heap, fresh, -⟩ := operate_new (k := k) found
          exact table.insert found connections heap fresh rfl rfl
      | some other =>
          rw [operate_duplicate (by simp [found])]
          exact table.unused rfl rfl rfl
  | enableReadWrite sockfd readable writeable =>
      exact table.enableReadWrite sockfd readable writeable
  | delConnection sockfd => exact table.delConnection sockfd

/-- The other entries keep their masks, so only the new one has to be looked at. -/
theorem synced_add_iff (table : Table st) (synced : Synced st) {conn : Connection}
    (absent : st.connections.lookup conn.sockfd = none) :
    Synced (operate k st (.addConnection conn)) ↔
      (operate k st (.addConnection conn)).world.interest conn.sockfd =
        some conn.events := by
  obtain ⟨connections, heap, -, world⟩ := operate_new (k := k) absent
  constructor
  · intro after
    have entry := after conn.sockfd st.fresh
      (by rw [connections, AList.lookup_insert])
    rw [heap, Function.update_self] at entry
    exact entry
  · intro new fd id found
    by_cases same : fd = conn.sockfd
    · rw [connections, same, AList.lookup_insert] at found
      cases found
      rw [same, heap, Function.update_self]
      exact new
    · rw [connections, AList.lookup_insert_ne same] at found
      rw [world, World.epollCtl_interest_ne same, heap,
        Function.update_of_ne (Nat.ne_of_lt (table.made fd id found))]
      exact synced fd id found

theorem writtenThrough_add_iff (table : Table st) (synced : Synced st)
    (conn : Connection) :
    WrittenThrough k st (.addConnection conn) ↔ Answered k st (.addConnection conn) := by
  cases found : st.connections.lookup conn.sockfd with
  | some other =>
      refine iff_of_true ⟨?_, ?_⟩ (.inl (by simp [found]))
      · rw [operate_duplicate (by simp [found])]
        intro fd id entry
        have older : id ≠ st.fresh := Nat.ne_of_lt (table.made fd id entry)
        have kept : (madeState st conn).heap id = st.heap id :=
          Function.update_of_ne older _ _
        rw [State.log_heap, kept]
        exact synced fd id entry
      · rintro _ ⟨⟩ ⟨missing, -⟩
        rw [found] at missing
        cases missing
  | none =>
      obtain ⟨connections, -, -, world⟩ := operate_new (k := k) found
      cases answer : k.epollCtl (st.world.opening conn.sockfd) (.add conn.events)
          conn.sockfd with
      | true =>
          refine iff_of_true ⟨?_, ?_⟩ (.inr answer)
          · rw [synced_add_iff table synced found, world,
              World.epollCtl_interest_of_ok k _ answer, Function.update_self]
            rfl
          · rintro _ ⟨⟩ ⟨-, failed⟩
            rw [answer] at failed
            cases failed
      | false =>
          apply iff_of_false
          · intro written
            have unchanged := (written.undone conn rfl ⟨found, answer⟩).1
            rw [connections] at unchanged
            have entry := AList.lookup_insert (a := conn.sockfd) (b := st.fresh)
              st.connections
            rw [unchanged, found] at entry
            cases entry
          · rintro (present | succeeded)
            · rw [found] at present
              cases present
            · rw [answer] at succeeded
              cases succeeded

/-! ## `EnableReadWrite` -/

theorem synced_enable_iff (table : Table st) (synced : Synced st) {fd : Fd}
    {id : ObjId} (present : st.connections.lookup fd = some id)
    (readable writeable : Bool) :
    Synced (enableReadWrite k fd readable writeable st) ↔
      (enableReadWrite k fd readable writeable st).world.interest fd =
        some (readWriteMask readable writeable) := by
  obtain ⟨connections, heap, -, world⟩ :=
    enableReadWrite_present k readable writeable present
  constructor
  · intro after
    have entry := after fd id (by rw [connections]; exact present)
    rw [heap, Function.update_self] at entry
    exact entry
  · intro new other id' found
    rw [connections] at found
    by_cases same : other = fd
    · subst same
      rw [present] at found
      cases found
      rw [heap, Function.update_self]
      exact new
    · have different : id' ≠ id := by
        rintro rfl
        apply same
        rw [← table.sockfd other id' found, table.sockfd fd id' present]
      rw [world, World.epollCtl_interest_ne same, heap, Function.update_of_ne different]
      exact synced other id' found

/-- A refusal leaves the registered mask, which is the one recorded before. -/
theorem writtenThrough_enable_iff (table : Table st) (synced : Synced st) (fd : Fd)
    (readable writeable : Bool) :
    WrittenThrough k st (.enableReadWrite fd readable writeable) ↔
      Answered k st (.enableReadWrite fd readable writeable) := by
  have only : WrittenThrough k st (.enableReadWrite fd readable writeable) ↔
      Synced (enableReadWrite k fd readable writeable st) :=
    ⟨fun written => written.synced, fun after => ⟨after, fun _ other => by cases other⟩⟩
  rw [only]
  cases present : st.connections.lookup fd with
  | none =>
      apply iff_of_true
      · rw [enableReadWrite_absent k readable writeable present]
        exact (SameTable.log st _).synced synced
      · intro id found
        rw [present] at found
        cases found
  | some id =>
      have world := (enableReadWrite_present k readable writeable present).2.2.2
      rw [synced_enable_iff table synced present readable writeable, world]
      have answered : Answered k st (.enableReadWrite fd readable writeable) ↔
          ((st.heap id).events = readWriteMask readable writeable ∨
            k.epollCtl (st.world.log (.enableReadWrite fd readable writeable))
              (.mod (readWriteMask readable writeable)) fd = true) := by
        constructor
        · exact fun answered => answered id present
        · intro answered other found
          rw [present] at found
          cases found
          exact answered
      rw [answered]
      cases answer : k.epollCtl (st.world.log (.enableReadWrite fd readable writeable))
          (.mod (readWriteMask readable writeable)) fd with
      | true =>
          rw [World.epollCtl_interest_of_ok k _ answer, Function.update_self]
          simp [World.interestAfter]
      | false =>
          have kept : ((st.world.log (.enableReadWrite fd readable writeable)).epollCtl k
              (.mod (readWriteMask readable writeable)) fd).interest fd =
                some (st.heap id).events := by
            simp only [World.epollCtl, answer]
            exact synced fd id present
          rw [kept]
          simp

/-! ## Runs -/

theorem writtenThrough_iff (table : Table st) (synced : Synced st)
    (operation : Operation) :
    WrittenThrough k st operation ↔ Answered k st operation := by
  cases operation with
  | addConnection conn => exact writtenThrough_add_iff table synced conn
  | enableReadWrite sockfd readable writeable =>
      exact writtenThrough_enable_iff table synced sockfd readable writeable
  | delConnection sockfd =>
      refine iff_of_true ⟨synced.delConnection sockfd, ?_⟩ trivial
      intro conn other
      cases other

/-- From an empty reactor on, every operation is written through exactly if the kernel
never refuses a registration or a change of mask. -/
theorem operations_write_through_iff (k : Kernel) (heap : ObjId → Connection)
    (fresh : ObjId) (world : World) (operations : List Operation) :
    Throughout (operateStep k) (WrittenThrough k) ⟨∅, heap, fresh, world⟩ operations ↔
      Throughout (operateStep k) (Answered k) ⟨∅, heap, fresh, world⟩ operations := by
  have nothing : ∀ fd id, ¬ (AList.lookup fd (∅ : AList fun _ : Fd => ObjId)) = some id := by
    intro fd id found
    rw [AList.lookup_empty] at found
    cases found
  refine throughout_iff (fun st => Table st ∧ Synced st) ?_ ?_ ?_ operations
  · intro st operation held
    exact writtenThrough_iff held.1 held.2 operation
  · intro st operation after held written stepped
    cases stepped
    exact ⟨held.1.operate operation, written.synced⟩
  · exact ⟨⟨fun fd id found => absurd found (nothing fd id),
      fun fd id found => absurd found (nothing fd id),
      fun fd id found => absurd found (nothing fd id)⟩,
      fun fd id found => absurd found (nothing fd id)⟩

def fullKernel : Kernel :=
  { Kernel.scripted [] [] [] [] with epollCtl := fun _ _ _ => false }

/-- The channel on descriptor 7 is in the table and open, and not registered. -/
theorem keeps_refused_connection :
    ¬ Throughout (operateStep fullKernel) (WrittenThrough fullKernel)
      ⟨∅, fun _ => Channel.new 7, 0, bootWorld 3⟩ [.addConnection (Channel.new 7)] := by
  intro written
  have undone := written.1.undone (Channel.new 7) rfl ⟨AList.lookup_empty 7, rfl⟩
  exact absurd undone.2 (by decide)

end LinuxSystemLearning.Reactor
