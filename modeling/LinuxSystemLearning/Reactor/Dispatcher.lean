import LinuxSystemLearning.Reactor.Listener

/-!
# `Reactor::Dispatcher` and `Reactor::Loop`

The dispatcher walks a snapshot of the ready events and looks every descriptor up
again before each of the two calls it makes for it.  `Reachable` are the states
a run of the loop passes through, from `main`'s first `AddConnection` on, after
each `Recver` and `Sender` call.
-/

set_option autoImplicit false

namespace LinuxSystemLearning.Reactor

variable (k : Kernel)

/-! ## The virtual calls -/

def recver (fuel : Nat) (id : ObjId) (st : State) : Option State :=
  match (st.heap id).kind with
  | .listener => Listener.recver k fuel id st
  | .channel => Channel.recver k fuel id st

def sender (fuel : Nat) (id : ObjId) (st : State) : Option State :=
  match (st.heap id).kind with
  | .listener => some st
  | .channel => Channel.sender k fuel id st

/-! ## `Dispatcher` -/

/-- Errors and hang-ups are turned into readiness. -/
def widen (events : Mask) : Mask :=
  let events := if events.has epollErr then events ||| (epollIn ||| epollOut) else events
  if events.has epollHup then events ||| (epollIn ||| epollOut) else events

def dispatchIn (fuel : Nat) (sockfd : Fd) (events : Mask) (st : State) :
    Option State :=
  if events.has epollIn then
    match st.connections.lookup sockfd with
    | none => some st
    | some id => recver k fuel id (st.log (.recver id sockfd))
  else some st

def dispatchOut (fuel : Nat) (sockfd : Fd) (events : Mask) (st : State) :
    Option State :=
  if events.has epollOut then
    match st.connections.lookup sockfd with
    | none => some st
    | some id => sender k fuel id (st.log (.sender id sockfd))
  else some st

theorem dispatchIn_cases {fuel : Nat} {sockfd : Fd} {events : Mask} {st after : State}
    (returned : dispatchIn k fuel sockfd events st = some after) :
    after = st ∨ ∃ id, st.connections.lookup sockfd = some id ∧
      recver k fuel id (st.log (.recver id sockfd)) = some after := by
  unfold dispatchIn at returned
  split at returned
  · cases found : st.connections.lookup sockfd with
    | none =>
        rw [found] at returned
        exact .inl (Option.some.inj returned).symm
    | some id =>
        rw [found] at returned
        exact .inr ⟨id, rfl, returned⟩
  · exact .inl (Option.some.inj returned).symm

theorem dispatchOut_cases {fuel : Nat} {sockfd : Fd} {events : Mask} {st after : State}
    (returned : dispatchOut k fuel sockfd events st = some after) :
    after = st ∨ ∃ id, st.connections.lookup sockfd = some id ∧
      sender k fuel id (st.log (.sender id sockfd)) = some after := by
  unfold dispatchOut at returned
  split at returned
  · cases found : st.connections.lookup sockfd with
    | none =>
        rw [found] at returned
        exact .inl (Option.some.inj returned).symm
    | some id =>
        rw [found] at returned
        exact .inr ⟨id, rfl, returned⟩
  · exact .inl (Option.some.inj returned).symm

def dispatcher (fuel : Nat) : List (Fd × Mask) → State → Option State
  | [], st => some st
  | (sockfd, events) :: ready, st => do
      let st ← dispatchIn k fuel sockfd (widen events) st
      let st ← dispatchOut k fuel sockfd (widen events) st
      dispatcher fuel ready st

/-! ## `Loop` -/

def loopOnce (fuel : Nat) (st : State) : Option State :=
  let (ready, world) := Epoller.waitEvents k st.world
  dispatcher k fuel ready { st with world := world }

def loopRounds (fuel : Nat) : Nat → State → Option State
  | 0, st => some st
  | rounds + 1, st => do loopRounds fuel rounds (← loopOnce k fuel st)

def loop (fuel rounds : Nat) (st : State) : Option State :=
  if st.connections.entries.isEmpty then some st
  else loopRounds k fuel rounds st

/-- The world in which only the listening socket is open. -/
def bootWorld (sockfd : Fd) : World := ⟨fun fd => fd == sockfd, fun _ => none, []⟩

/-- What `main` sets up: the listener on the listening socket `sockfd`, with the
handler, as the first connection. -/
def boot (sockfd : Fd) (handler : Handler) : State :=
  addConnection k 0
    { connections := ∅
      heap := fun _ => { Listener.new sockfd with handler := some handler }
      fresh := 1
      world := bootWorld sockfd }

/-! ## Runs -/

/-- Where a run stands: before `epoll_wait`, before the `EPOLLIN` part of the
next event, or before the `EPOLLOUT` part of one. -/
inductive Cursor where
  | waiting
  | turn (ready : List (Fd × Mask))
  | out (sockfd : Fd) (events : Mask) (ready : List (Fd × Mask))

inductive Reachable (listenfd : Fd) (handler : Handler) : Cursor → State → Prop where
  | boot : Reachable listenfd handler .waiting (boot k listenfd handler)
  | wait {st : State} (before : Reachable listenfd handler .waiting st) :
      Reachable listenfd handler (.turn (Epoller.waitEvents k st.world).1)
        { st with world := (Epoller.waitEvents k st.world).2 }
  | recver {sockfd : Fd} {events : Mask} {ready : List (Fd × Mask)}
      {fuel : Nat} {st after : State}
      (before : Reachable listenfd handler (.turn ((sockfd, events) :: ready)) st)
      (returned : dispatchIn k fuel sockfd (widen events) st = some after) :
      Reachable listenfd handler (.out sockfd events ready) after
  | sender {sockfd : Fd} {events : Mask} {ready : List (Fd × Mask)}
      {fuel : Nat} {st after : State}
      (before : Reachable listenfd handler (.out sockfd events ready) st)
      (returned : dispatchOut k fuel sockfd (widen events) st = some after) :
      Reachable listenfd handler (.turn ready) after
  | done {st : State} (before : Reachable listenfd handler (.turn []) st) :
      Reachable listenfd handler .waiting st

variable {k} {listenfd : Fd} {handler : Handler}

variable (k) in
theorem boot_state (listenfd : Fd) (handler : Handler) :
    (boot k listenfd handler).connections = AList.insert listenfd 0 ∅ ∧
      (boot k listenfd handler).heap = Function.update
        (fun _ => { Listener.new listenfd with handler := some handler }) 0
        { Listener.new listenfd with handler := some handler, owner := .reactor } ∧
      (boot k listenfd handler).fresh = 1 ∧
      (boot k listenfd handler).world = (bootWorld listenfd).epollCtl k
        (.add (epollIn ||| epollEt)) listenfd :=
  addConnection_new k (by simp [isConnectionExists])

theorem reachable_dispatcher {fuel : Nat} {ready : List (Fd × Mask)}
    {st after : State} (before : Reachable k listenfd handler (.turn ready) st)
    (returned : dispatcher k fuel ready st = some after) :
    Reachable k listenfd handler .waiting after := by
  induction ready generalizing st with
  | nil =>
      cases returned
      exact .done before
  | cons event ready ih =>
      obtain ⟨sockfd, events⟩ := event
      obtain ⟨middle, received, rest⟩ := Option.bind_eq_some_iff.mp returned
      obtain ⟨last, sent, rest⟩ := Option.bind_eq_some_iff.mp rest
      exact ih (.sender (.recver before received) sent) rest

/-- Every state the loop is in between two rounds is reached. -/
theorem reachable_loopRounds {fuel rounds : Nat} {st after : State}
    (before : Reachable k listenfd handler .waiting st)
    (returned : loopRounds k fuel rounds st = some after) :
    Reachable k listenfd handler .waiting after := by
  induction rounds generalizing st with
  | zero =>
      cases returned
      exact before
  | succ rounds ih =>
      obtain ⟨middle, once, rest⟩ := Option.bind_eq_some_iff.mp returned
      exact ih (reachable_dispatcher (.wait before) once) rest

theorem reachable_loop {fuel rounds : Nat} {after : State}
    (returned : loop k fuel rounds (boot k listenfd handler) = some after) :
    Reachable k listenfd handler .waiting after := by
  unfold loop at returned
  split at returned
  · cases returned
    exact .boot
  · exact reachable_loopRounds .boot returned

/-- What holds when the loop is entered and is kept by `epoll_wait` and by every
call on a registered connection that returns, holds throughout every run. -/
theorem Reachable.invariant (Inv : State → Prop)
    (start : Inv (Reactor.boot k listenfd handler))
    (waits : ∀ st ready, Inv st → Inv (st.log (.epollWait ready)))
    (recvers : ∀ cursor fuel sockfd id st after,
      Reachable k listenfd handler cursor st → Inv st →
      st.connections.lookup sockfd = some id →
      Reactor.recver k fuel id (st.log (.recver id sockfd)) = some after → Inv after)
    (senders : ∀ cursor fuel sockfd id st after,
      Reachable k listenfd handler cursor st → Inv st →
      st.connections.lookup sockfd = some id →
      Reactor.sender k fuel id (st.log (.sender id sockfd)) = some after → Inv after)
    {cursor : Cursor} {st : State}
    (reached : Reachable k listenfd handler cursor st) : Inv st := by
  induction reached with
  | boot => exact start
  | wait _ ih => exact waits _ _ ih
  | @recver sockfd events ready fuel st after before returned ih =>
      rcases dispatchIn_cases k returned with rfl | ⟨id, found, returned⟩
      · exact ih
      · exact recvers _ fuel sockfd id st after before ih found returned
  | @sender sockfd events ready fuel st after before returned ih =>
      rcases dispatchOut_cases k returned with rfl | ⟨id, found, returned⟩
      · exact ih
      · exact senders _ fuel sockfd id st after before ih found returned
  | done _ ih => exact ih

end LinuxSystemLearning.Reactor
