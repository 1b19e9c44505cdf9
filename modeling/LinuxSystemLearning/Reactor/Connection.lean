import LinuxSystemLearning.Reactor.Kernel
import Mathlib.Data.List.AList

/-!
# Connections and the reactor's table

`Connection` with the members its two subclasses share, and the operations of
`Reactor` that change the table `_connections`.  Objects live in a heap that
nothing is removed from: an object that the table lets go of is destroyed in the
program, and a call still running on it goes on reading the memory as it stood.
-/

set_option autoImplicit false

namespace LinuxSystemLearning.Reactor

open LinuxSystemLearning.Cxx

/-- `handler_t`.  It may answer differently each time, and need not return; what
it leaves in `inbuffer` is the second part of its result. -/
abbrev Handler := List Event → Bytes → Option (Bytes × Bytes)

inductive Kind where
  | listener
  | channel
  deriving DecidableEq

inductive Owner where
  | nullptr
  | reactor
  deriving DecidableEq

/-- `sockfd` is what `GetSockFd()` returns; a `Listener` has no buffers and does
not touch them. -/
structure Connection where
  kind : Kind
  sockfd : Fd
  events : Mask
  owner : Owner
  handler : Option Handler
  inbuffer : Bytes
  outbuffer : Bytes

def Channel.new (sockfd : Fd) : Connection :=
  ⟨.channel, sockfd, epollIn ||| epollEt, .nullptr, none, [], []⟩

/-- `std::make_shared<Listener>(port)` when the listening socket is `sockfd`. -/
def Listener.new (sockfd : Fd) : Connection :=
  ⟨.listener, sockfd, epollIn ||| epollEt, .nullptr, none, [], []⟩

structure State where
  connections : AList fun _ : Fd => ObjId
  heap : ObjId → Connection
  fresh : ObjId
  world : World

namespace State

def log (event : Event) (st : State) : State :=
  { st with world := st.world.log event }

def modify (id : ObjId) (change : Connection → Connection) (st : State) : State :=
  { st with heap := Function.update st.heap id (change (st.heap id)) }

def make (conn : Connection) (st : State) : ObjId × State :=
  (st.fresh, { st with
    heap := Function.update st.heap st.fresh conn
    fresh := st.fresh + 1 })

def onWorld (change : World → World) (st : State) : State :=
  { st with world := change st.world }

section

variable (st : State) (event : Event) (id : ObjId)
  (change : Connection → Connection) (conn : Connection) (f : World → World)

@[simp] theorem log_connections : (st.log event).connections = st.connections := rfl
@[simp] theorem log_heap : (st.log event).heap = st.heap := rfl
@[simp] theorem log_fresh : (st.log event).fresh = st.fresh := rfl
@[simp] theorem log_world : (st.log event).world = st.world.log event := rfl

@[simp] theorem modify_connections :
    (st.modify id change).connections = st.connections := rfl
@[simp] theorem modify_fresh : (st.modify id change).fresh = st.fresh := rfl
@[simp] theorem modify_world : (st.modify id change).world = st.world := rfl

@[simp] theorem modify_heap_self :
    (st.modify id change).heap id = change (st.heap id) := by
  simp [modify]

theorem modify_heap_ne {other : ObjId} (different : other ≠ id) :
    (st.modify id change).heap other = st.heap other := by
  simp [modify, Function.update_of_ne different]

/-- A modification shows only in the members it changes. -/
theorem modify_keeps {γ : Type} (member : Connection → γ)
    (same : member (change (st.heap id)) = member (st.heap id)) (other : ObjId) :
    member ((st.modify id change).heap other) = member (st.heap other) := by
  by_cases here : other = id
  · rw [here, modify_heap_self, same]
  · rw [modify_heap_ne st id change here]

@[simp] theorem onWorld_connections :
    (st.onWorld f).connections = st.connections := rfl
@[simp] theorem onWorld_heap : (st.onWorld f).heap = st.heap := rfl
@[simp] theorem onWorld_fresh : (st.onWorld f).fresh = st.fresh := rfl
@[simp] theorem onWorld_world : (st.onWorld f).world = f st.world := rfl

end

end State

/-! ## `Reactor` -/

section

variable (k : Kernel)

def isConnectionExists (sockfd : Fd) (st : State) : Bool :=
  (st.connections.lookup sockfd).isSome

def addConnection (id : ObjId) (st : State) : State :=
  let sockfd := (st.heap id).sockfd
  if isConnectionExists sockfd st then
    st.log (.connExists sockfd)
  else
    let st := st.onWorld (Epoller.addEvent k sockfd (st.heap id).events)
    let st := st.modify id fun conn => { conn with owner := .reactor }
    { st with connections := st.connections.insert sockfd id }

def delConnection (sockfd : Fd) (st : State) : State :=
  let st := st.log (.delConnection sockfd)
  let st := st.onWorld (Epoller.delEvent k sockfd)
  let st := { st with connections := st.connections.erase sockfd }
  st.onWorld (World.close sockfd)

def readWriteMask (readable writeable : Bool) : Mask :=
  epollEt ||| (if readable then epollIn else 0) |||
    (if writeable then epollOut else 0)

def enableReadWrite (sockfd : Fd) (readable writeable : Bool) (st : State) : State :=
  let st := st.log (.enableReadWrite sockfd readable writeable)
  match st.connections.lookup sockfd with
  | none => st
  | some id =>
      let newEvent := readWriteMask readable writeable
      let st := st.modify id fun conn => { conn with events := newEvent }
      st.onWorld (Epoller.modEvent k sockfd newEvent)

/-! ## What the operations do -/

variable {st : State}

theorem addConnection_exists {id : ObjId}
    (present : isConnectionExists (st.heap id).sockfd st = true) :
    addConnection k id st = st.log (.connExists (st.heap id).sockfd) := by
  simp [addConnection, present]

theorem addConnection_new {id : ObjId}
    (absent : isConnectionExists (st.heap id).sockfd st = false) :
    (addConnection k id st).connections =
        st.connections.insert (st.heap id).sockfd id ∧
      (addConnection k id st).heap = Function.update st.heap id
        { st.heap id with owner := .reactor } ∧
      (addConnection k id st).fresh = st.fresh ∧
      (addConnection k id st).world = st.world.epollCtl k
        (.add (st.heap id).events) (st.heap id).sockfd := by
  unfold addConnection
  rw [if_neg (by simp [absent])]
  exact ⟨rfl, rfl, rfl, rfl⟩

@[simp] theorem delConnection_connections (sockfd : Fd) :
    (delConnection k sockfd st).connections = st.connections.erase sockfd := rfl

@[simp] theorem delConnection_heap (sockfd : Fd) :
    (delConnection k sockfd st).heap = st.heap := rfl

@[simp] theorem delConnection_fresh (sockfd : Fd) :
    (delConnection k sockfd st).fresh = st.fresh := rfl

/-- What is left in the table is what was there under another descriptor. -/
theorem lookup_delConnection {sockfd fd : Fd} {id : ObjId}
    (found : (delConnection k sockfd st).connections.lookup fd = some id) :
    fd ≠ sockfd ∧ st.connections.lookup fd = some id := by
  have different : fd ≠ sockfd := by
    rintro rfl
    rw [delConnection_connections, AList.lookup_erase] at found
    cases found
  rw [delConnection_connections, AList.lookup_erase_ne different] at found
  exact ⟨different, found⟩

variable (st) in
theorem delConnection_trace (sockfd : Fd) :
    ∃ ok, (delConnection k sockfd st).world.trace = st.world.trace ++
      [.delConnection sockfd, .epollCtl .del sockfd ok, .close sockfd] :=
  ⟨k.epollCtl (st.world.log (.delConnection sockfd)) .del sockfd, by
    simp [delConnection, Epoller.delEvent]⟩

@[simp] theorem delConnection_opened (sockfd : Fd) :
    (delConnection k sockfd st).world.opened =
      Function.update st.world.opened sockfd false := rfl

/-- Whether or not `epoll_ctl` succeeds, closing takes the descriptor off the
interest list. -/
theorem delConnection_interest (sockfd fd : Fd) :
    (delConnection k sockfd st).world.interest fd =
      if fd = sockfd then none else st.world.interest fd := by
  by_cases same : fd = sockfd
  · simp [delConnection, same]
  · simp only [delConnection, State.onWorld_world, World.close_interest,
      Function.update_of_ne same, if_neg same, Epoller.delEvent, World.epollCtl]
    split
    · simp [Function.update_of_ne same]
    · rfl

theorem enableReadWrite_absent {sockfd : Fd} (readable writeable : Bool)
    (absent : st.connections.lookup sockfd = none) :
    enableReadWrite k sockfd readable writeable st =
      st.log (.enableReadWrite sockfd readable writeable) := by
  simp [enableReadWrite, absent]

theorem enableReadWrite_present {sockfd : Fd} {id : ObjId}
    (readable writeable : Bool)
    (present : st.connections.lookup sockfd = some id) :
    (enableReadWrite k sockfd readable writeable st).connections =
        st.connections ∧
      (enableReadWrite k sockfd readable writeable st).heap =
        Function.update st.heap id
          { st.heap id with events := readWriteMask readable writeable } ∧
      (enableReadWrite k sockfd readable writeable st).fresh = st.fresh ∧
      (enableReadWrite k sockfd readable writeable st).world =
        (st.world.log (.enableReadWrite sockfd readable writeable)).epollCtl k
          (.mod (readWriteMask readable writeable)) sockfd := by
  unfold enableReadWrite
  simp only [State.log_connections, present]
  exact ⟨rfl, rfl, rfl, rfl⟩

variable (st) in
theorem enableReadWrite_trace (sockfd : Fd) (readable writeable : Bool) :
    ∃ rest, (enableReadWrite k sockfd readable writeable st).world.trace =
        st.world.trace ++ .enableReadWrite sockfd readable writeable :: rest ∧
      ∀ event ∈ rest, ∃ op ok, event = .epollCtl op sockfd ok := by
  cases found : st.connections.lookup sockfd with
  | none =>
      rw [enableReadWrite_absent k _ _ found]
      exact ⟨[], rfl, by simp⟩
  | some id =>
      rw [(enableReadWrite_present k _ _ found).2.2.2, World.epollCtl_trace,
        World.log_trace, List.append_assoc, List.singleton_append]
      refine ⟨_, rfl, ?_⟩
      intro event member
      exact ⟨_, _, List.mem_singleton.mp member⟩

variable (st) in
/-- What holds of the call and of an `epoll_ctl` on the descriptor holds of all it logs. -/
theorem enableReadWrite_events (good : Event → Prop) (sockfd : Fd)
    (readable writeable : Bool)
    (asked : good (.enableReadWrite sockfd readable writeable))
    (ctl : ∀ op ok, good (.epollCtl op sockfd ok)) :
    ∃ events, (enableReadWrite k sockfd readable writeable st).world.trace =
        st.world.trace ++ events ∧ ∀ event ∈ events, good event := by
  obtain ⟨rest, trace, only⟩ := enableReadWrite_trace k st sockfd readable writeable
  refine ⟨_, trace, ?_⟩
  intro event member
  rcases List.mem_cons.mp member with rfl | member
  · exact asked
  · obtain ⟨op, ok, rfl⟩ := only event member
    exact ctl op ok

theorem enableReadWrite_keeps {γ : Type} (member : Connection → γ)
    (same : ∀ conn events, member { conn with events := events } = member conn)
    (sockfd : Fd) (readable writeable : Bool) (other : ObjId) :
    member ((enableReadWrite k sockfd readable writeable st).heap other) =
      member (st.heap other) := by
  cases found : st.connections.lookup sockfd with
  | none =>
      rw [enableReadWrite_absent k _ _ found]
      rfl
  | some id =>
      rw [(enableReadWrite_present k _ _ found).2.1]
      by_cases here : other = id
      · rw [here, Function.update_self, same]
      · rw [Function.update_of_ne here]

@[simp] theorem enableReadWrite_fresh (sockfd : Fd) (readable writeable : Bool) :
    (enableReadWrite k sockfd readable writeable st).fresh = st.fresh := by
  cases found : st.connections.lookup sockfd with
  | none => rw [enableReadWrite_absent k _ _ found]; rfl
  | some id => exact (enableReadWrite_present k _ _ found).2.2.1

@[simp] theorem enableReadWrite_connections (sockfd : Fd)
    (readable writeable : Bool) :
    (enableReadWrite k sockfd readable writeable st).connections =
      st.connections := by
  cases found : st.connections.lookup sockfd with
  | none => rw [enableReadWrite_absent k _ _ found]; rfl
  | some id => exact (enableReadWrite_present k _ _ found).1

end

end LinuxSystemLearning.Reactor
