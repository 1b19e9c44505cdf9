import LinuxSystemLearning.Reactor.Descriptors
import LinuxSystemLearning.Reactor.FatalReceive

/-!
# What `Listener::Recver` leaves in the backlog

The listening socket is registered edge-triggered, so a connection that is still
pending when `Recver` returns is not reported again.  The loop takes an error that
`accept` reports about one connection for the end of the backlog: it is left there,
and what stands behind that connection stays.
-/

set_option autoImplicit false

namespace LinuxSystemLearning.Reactor

open LinuxSystemLearning.Loop

def econnaborted : Nat := 103

/-- An `accept` made while connections are pending. -/
inductive Attempt where
  | accepted (fd : Nat)
  | interrupted
  | aborted (errno : Nat) (fatal : Fatal errno)

namespace Attempt

def result : Attempt → AcceptResult
  | .accepted fd => .accepted fd
  | .interrupted => .fail eintr
  | .aborted errno _ => .fail errno

/-- It takes a connection off the backlog. -/
def pending : Attempt → Bool
  | .accepted _ => true
  | .interrupted => false
  | .aborted _ _ => true

def descriptor : Attempt → Option Nat
  | .accepted fd => some fd
  | _ => none

/-- The attempts behind the first that fails for its connection. -/
def behindFailure : List Attempt → List Attempt
  | [] => []
  | .aborted _ _ :: rest => rest
  | .accepted _ :: rest => behindFailure rest
  | .interrupted :: rest => behindFailure rest

/-- The descriptors accepted in front of it. -/
def beforeFailure : List Attempt → List Nat
  | [] => []
  | .aborted _ _ :: _ => []
  | .accepted fd :: rest => fd :: beforeFailure rest
  | .interrupted :: rest => beforeFailure rest

def NobodyBehind (attempts : List Attempt) : Prop :=
  ∀ attempt ∈ behindFailure attempts, attempt.pending = false

end Attempt

def Event.isAccept : Event → Bool
  | .accept _ _ => true
  | _ => false

def Event.acceptedFd : Event → Option Nat
  | .accept _ (.accepted fd) => some fd
  | _ => none

def Event.registers : Event → Option (Fd × Mask)
  | .epollCtl (.add events) fd _ => some (fd, events)
  | _ => none

/-- From `st` on, `accept` on `fd` is answered by the attempts in turn, and then
there is nothing to accept. -/
def Kernel.AcceptsInTurn (k : Kernel) (fd : Fd) (st : State)
    (attempts : List Attempt) : Prop :=
  ∀ world events, world.trace = st.world.trace ++ events →
    k.accept world fd =
      (attempts.map Attempt.result).getD (events.countP Event.isAccept) (.fail eagain)

/-- Each of the descriptors got a channel of its own, with the handler of `id`, and
nothing else changed in the table. -/
structure Enrolled (id : ObjId) (fds : List Nat) (st after : State) : Prop where
  separate : fds.Nodup
  objects : after.fresh = st.fresh + fds.length
  channels : ∀ fd ∈ fds, st.connections.lookup (fd : Fd) = none ∧
    ∃ channel, st.fresh ≤ channel ∧
      after.connections.lookup (fd : Fd) = some channel ∧
      after.heap channel = ⟨.channel, fd, epollIn ||| epollEt, .reactor,
        (st.heap id).handler, [], []⟩
  others : ∀ fd : Fd, (∀ new ∈ fds, fd ≠ (new : Fd)) →
    after.connections.lookup fd = st.connections.lookup fd
  older : ∀ other, other < st.fresh → after.heap other = st.heap other

/-- The call returns with nobody pending, and every accepted descriptor was added
once, as a channel with the listener's handler. -/
def EmptiesBacklog (k : Kernel) (id : ObjId) (st : State)
    (attempts : List Attempt) : Prop :=
  ∃ fuel after events,
    Listener.recver k fuel id st = some after ∧
    after.world.trace = st.world.trace ++ events ∧
    (∀ attempt ∈ attempts.drop (events.countP Event.isAccept),
      attempt.pending = false) ∧
    Enrolled id (events.filterMap Event.acceptedFd) st after ∧
    events.filterMap Event.registers =
      (events.filterMap Event.acceptedFd).map fun fd =>
        ((fd : Fd), epollIn ||| epollEt)

variable {k : Kernel} {id : ObjId}

/-! ## The answers of `accept` -/

theorem Kernel.AcceptsInTurn.first {fd : Fd} {st : State} {attempts : List Attempt}
    (answers : k.AcceptsInTurn fd st attempts) :
    k.accept st.world fd = (attempts.map Attempt.result).getD 0 (.fail eagain) :=
  answers st.world [] (List.append_nil _).symm

theorem Kernel.AcceptsInTurn.behind {fd : Fd} {st after : State} {attempt : Attempt}
    {attempts : List Attempt} {events : List Event}
    (answers : k.AcceptsInTurn fd st (attempt :: attempts))
    (trace : after.world.trace = st.world.trace ++ events)
    (one : events.countP Event.isAccept = 1) :
    k.AcceptsInTurn fd after attempts := by
  intro world more later
  rw [trace, List.append_assoc] at later
  rw [answers world (events ++ more) later, List.countP_append, one, Nat.add_comm]
  rfl

/-! ## One iteration -/

/-- What the loop relies on in the state it is entered in. -/
structure Listening (id : ObjId) (st : State) : Prop where
  owner : (st.heap id).owner = .reactor
  made : id < st.fresh
  held : Held st

theorem Listener.recvStep_accepted {st : State} {fd : Nat}
    (registered : (st.heap id).owner = .reactor) (made : id < st.fresh)
    (accepted : k.accept st.world (st.heap id).sockfd = .accepted fd) :
    Listener.recvStep k id st = .next (enroll k id fd st) := by
  have world : TcpSocket.accept k (st.heap id).sockfd st.world =
      ((fd : Int), (st.world.accept k (st.heap id).sockfd).2) := by
    simp [TcpSocket.accept, World.accept, accepted]
  have codes : (fd : Int) ≠ acceptErr ∧ (fd : Int) ≠ acceptContinue ∧
      (fd : Int) ≠ acceptDone := by
    unfold acceptErr acceptContinue acceptDone
    omega
  have owner : ((st.make (Listener.channelFor (st.heap id) fd)).2.heap id).owner =
      .reactor := by
    simp only [State.make, Function.update_of_ne (Nat.ne_of_lt made)]
    exact registered
  simp only [State.make] at owner
  simp only [Listener.recvStep, world, if_neg codes.1, if_neg codes.2.1,
    if_neg codes.2.2, State.make, owner]
  rfl

theorem Listener.recvStep_interrupted {st : State}
    (interrupted : k.accept st.world (st.heap id).sockfd = .fail eintr) :
    Listener.recvStep k id st =
      .next (st.log (.accept (st.heap id).sockfd (.fail eintr))) := by
  simp only [Listener.recvStep, TcpSocket.accept, World.accept, interrupted]
  rfl

/-- An error that is not a wait is the end of the loop like `EAGAIN` is. -/
theorem Listener.recvStep_over {st : State} {errno : Nat} (other : errno ≠ eintr)
    (failed : k.accept st.world (st.heap id).sockfd = .fail errno) :
    Listener.recvStep k id st =
      .stop (some (st.log (.accept (st.heap id).sockfd (.fail errno)))) := by
  simp only [Listener.recvStep, TcpSocket.accept, World.accept, failed]
  by_cases wait : errno = eagain ∨ errno = ewouldblock
  · rw [if_pos wait]
    rfl
  · rw [if_neg wait, if_neg other]
    rfl

theorem Listening.absent {st : State} (listening : Listening id st) {fd : Nat}
    (closed : st.world.opened fd = false) :
    st.connections.lookup (fd : Fd) = none := by
  apply AList.lookup_eq_none.mpr
  intro member
  rw [listening.held.opened fd member] at closed
  cases closed

/-- The state behind an accepted connection, and what was recorded on the way. -/
theorem Listening.enroll {st : State} (listening : Listening id st) {fd : Nat}
    (accepted : k.accept st.world (st.heap id).sockfd = .accepted fd)
    (absent : st.connections.lookup (fd : Fd) = none) :
    Listening id (enroll k id fd st) ∧
      (enroll k id fd st).heap id = st.heap id ∧
      (∀ other : Fd, other ≠ fd →
        (enroll k id fd st).world.opened other = st.world.opened other) := by
  obtain ⟨-, -, fresh, world⟩ := enroll_absent accepted absent
  have same := enroll_keeps_object accepted listening.made
  refine ⟨⟨?_, ?_, listening.held.enroll accepted⟩, same, ?_⟩
  · rw [same]
    exact listening.owner
  · rw [fresh]
    exact Nat.lt_succ_of_lt listening.made
  · intro other different
    rw [world]
    exact Function.update_of_ne different _ _

theorem enroll_events {st : State} {fd : Nat}
    (accepted : k.accept st.world (st.heap id).sockfd = .accepted fd)
    (absent : st.connections.lookup (fd : Fd) = none) :
    ∃ events, (enroll k id fd st).world.trace = st.world.trace ++ events ∧
      events.countP Event.isAccept = 1 ∧
      events.filterMap Event.acceptedFd = [fd] ∧
      events.filterMap Event.registers = [((fd : Fd), epollIn ||| epollEt)] := by
  rw [(enroll_absent accepted absent).2.2.2, World.epollCtl_trace, acceptedWorld,
    World.log_trace, List.append_assoc]
  exact ⟨_, rfl, rfl, rfl, rfl⟩

/-! ## The objects made on the way -/

theorem Enrolled.none {st after : State}
    (connections : after.connections = st.connections)
    (heap : after.heap = st.heap) (fresh : after.fresh = st.fresh) :
    Enrolled id [] st after where
  separate := List.nodup_nil
  objects := fresh
  channels _ member := absurd member List.not_mem_nil
  others _ _ := by rw [connections]
  older _ _ := by rw [heap]

theorem Enrolled.cons {st after : State} {fd : Nat} {fds : List Nat}
    (made : id < st.fresh)
    (accepted : k.accept st.world (st.heap id).sockfd = .accepted fd)
    (absent : st.connections.lookup (fd : Fd) = Option.none)
    (later : Enrolled id fds (enroll k id fd st) after) :
    Enrolled id (fd :: fds) st after := by
  obtain ⟨connections, heap, fresh, -⟩ := enroll_absent accepted absent
  have newer : ∀ new ∈ fds, new ≠ fd := by
    rintro new member rfl
    have missing := (later.channels new member).1
    rw [connections, AList.lookup_insert] at missing
    cases missing
  have different : ∀ new ∈ fds, (fd : Fd) ≠ (new : Fd) := by
    intro new member same
    exact newer new member (Int.ofNat_inj.mp same.symm)
  have handler : ((enroll k id fd st).heap id).handler = (st.heap id).handler := by
    rw [enroll_keeps_object accepted made]
  refine ⟨?_, ?_, ?_, ?_, ?_⟩
  · exact List.nodup_cons.mpr ⟨fun member => newer fd member rfl, later.separate⟩
  · rw [later.objects, fresh, List.length_cons, Nat.add_right_comm, Nat.add_assoc]
  · intro new member
    rcases List.mem_cons.mp member with rfl | member
    · refine ⟨absent, st.fresh, Nat.le_refl _, ?_, ?_⟩
      · rw [later.others new different, connections, AList.lookup_insert]
      · rw [later.older st.fresh (by rw [fresh]; exact Nat.lt_succ_self _), heap,
          Function.update_self]
        rfl
    · obtain ⟨missing, channel, older, registered, object⟩ :=
        later.channels new member
      rw [connections, AList.lookup_insert_ne (different new member).symm] at missing
      rw [handler] at object
      rw [fresh] at older
      exact ⟨missing, channel, Nat.le_of_succ_le older, registered, object⟩
  · intro other apart
    rw [later.others other fun new member => apart new (List.mem_cons_of_mem _ member),
      connections, AList.lookup_insert_ne (apart fd List.mem_cons_self)]
  · intro other small
    rw [later.older other (by rw [fresh]; exact Nat.lt_succ_of_lt small), heap,
      Function.update_of_ne (Nat.ne_of_lt small)]

/-! ## The whole loop -/

/-- The loop is left in `after`, at the first failure or at the end of the backlog. -/
structure Turned (k : Kernel) (id : ObjId) (attempts : List Attempt)
    (st after : State) (events : List Event) : Prop where
  ends : Ends (Listener.recvStep k id) st (some after)
  trace : after.world.trace = st.world.trace ++ events
  left : attempts.drop (events.countP Event.isAccept) = Attempt.behindFailure attempts
  accepted : events.filterMap Event.acceptedFd = Attempt.beforeFailure attempts
  registered : events.filterMap Event.registers =
    (Attempt.beforeFailure attempts).map fun fd => ((fd : Fd), epollIn ||| epollEt)
  enrolled : Enrolled id (Attempt.beforeFailure attempts) st after

theorem Turned.over {st : State} {attempts : List Attempt} {errno : Nat}
    (other : errno ≠ eintr)
    (failed : k.accept st.world (st.heap id).sockfd = .fail errno)
    (left : attempts.drop 1 = Attempt.behindFailure attempts)
    (nobody : Attempt.beforeFailure attempts = []) :
    Turned k id attempts st (st.log (.accept (st.heap id).sockfd (.fail errno)))
      [.accept (st.heap id).sockfd (.fail errno)] where
  ends := .stop (Listener.recvStep_over other failed)
  trace := rfl
  left := left
  accepted := nobody.symm
  registered := by rw [nobody]; rfl
  enrolled := by
    rw [nobody]
    exact Enrolled.none rfl rfl rfl

theorem exists_turned (attempts : List Attempt) {st : State}
    (listening : Listening id st)
    (distinct : (attempts.filterMap Attempt.descriptor).Nodup)
    (closed : ∀ fd ∈ attempts.filterMap Attempt.descriptor,
      st.world.opened (fd : Fd) = false)
    (answers : k.AcceptsInTurn (st.heap id).sockfd st attempts) :
    ∃ after events, Turned k id attempts st after events := by
  induction attempts generalizing st with
  | nil => exact ⟨_, _, Turned.over (by decide) answers.first rfl rfl⟩
  | cons attempt attempts ih =>
      have first := answers.first
      cases attempt with
      | aborted errno fatal => exact ⟨_, _, Turned.over fatal.2 first rfl rfl⟩
      | interrupted =>
          let again := st.log (.accept (st.heap id).sockfd (.fail eintr))
          have later : k.AcceptsInTurn (again.heap id).sockfd again attempts :=
            answers.behind rfl rfl
          have listening' : Listening id again :=
            ⟨listening.owner, listening.made, (SameTable.log st _).held listening.held⟩
          obtain ⟨after, events, turned⟩ := ih listening' distinct closed later
          refine ⟨after, .accept (st.heap id).sockfd (.fail eintr) :: events,
            .next (Listener.recvStep_interrupted first) turned.ends, ?_, ?_,
            turned.accepted, turned.registered, ?_⟩
          · rw [turned.trace]
            simp [again]
          · rw [List.countP_cons_of_pos rfl]
            exact turned.left
          · obtain ⟨separate, objects, channels, others, older⟩ := turned.enrolled
            exact ⟨separate, objects, channels, others, older⟩
      | accepted fd =>
          have absent := listening.absent (closed fd List.mem_cons_self)
          obtain ⟨listening', same, opened⟩ := listening.enroll first absent
          obtain ⟨recorded, trace, one, descriptors, registers⟩ :=
            enroll_events first absent
          obtain ⟨unlike, distinct⟩ := List.nodup_cons.mp distinct
          have later := answers.behind trace one
          rw [← same] at later
          obtain ⟨after, events, turned⟩ := ih listening' distinct (by
            intro new member
            rw [opened new fun equal => unlike (Int.ofNat_inj.mp equal ▸ member)]
            exact closed new (List.mem_cons_of_mem _ member)) later
          refine ⟨after, recorded ++ events,
            .next (Listener.recvStep_accepted listening.owner listening.made first)
              turned.ends, ?_, ?_, ?_, ?_,
            Enrolled.cons listening.made first absent turned.enrolled⟩
          · rw [turned.trace, trace, List.append_assoc]
          · rw [List.countP_append, one, Nat.add_comm]
            exact turned.left
          · rw [List.filterMap_append, descriptors, turned.accepted]
            rfl
          · rw [List.filterMap_append, registers, turned.registered]
            rfl

theorem Turned.emptiesBacklog_iff {attempts : List Attempt} {st after : State}
    {events : List Event} (turned : Turned k id attempts st after events) :
    EmptiesBacklog k id st attempts ↔ Attempt.NobodyBehind attempts := by
  constructor
  · intro empties
    obtain ⟨fuel, after', events', returned, trace, nobody, -⟩ := empties
    obtain ⟨last, ran, rfl⟩ := Option.bind_eq_some_iff.mp returned
    have same := turned.ends.unique (ends_of_run _ _ _ _ ran)
    cases same
    rw [turned.trace] at trace
    rw [← List.append_cancel_left trace, turned.left] at nobody
    exact nobody
  · intro nobody
    obtain ⟨fuel, ran⟩ := turned.ends.exists_run
    refine ⟨fuel, after, events, ?_, turned.trace, ?_, ?_, ?_⟩
    · simp [Listener.recver, ran]
    · rw [turned.left]
      exact nobody
    · rw [turned.accepted]
      exact turned.enrolled
    · rw [turned.registered, turned.accepted]

/-! ## The listener of a running reactor -/

theorem reachable_listening {listenfd fd : Fd} {handler : Handler} {cursor : Cursor}
    {st : State} (reached : Reachable k listenfd handler cursor st)
    (found : st.connections.lookup fd = some id) : Listening id st where
  owner := (reachable_table reached).owner fd id found
  made := (reachable_table reached).made fd id found
  held := reachable_held reached

/-- What `accept` returns in the call was not open and is not returned twice. -/
theorem listener_empties_backlog_iff {listenfd fd : Fd} {handler : Handler}
    {cursor : Cursor} {st : State} (reached : Reachable k listenfd handler cursor st)
    (found : st.connections.lookup fd = some id)
    (attempts : List Attempt)
    (distinct : (attempts.filterMap Attempt.descriptor).Nodup)
    (closed : ∀ new ∈ attempts.filterMap Attempt.descriptor,
      st.world.opened (new : Fd) = false)
    (answers : k.AcceptsInTurn fd (st.log (.recver id fd)) attempts) :
    EmptiesBacklog k id (st.log (.recver id fd)) attempts ↔
      Attempt.NobodyBehind attempts := by
  have listening := reachable_listening reached found
  have entered : Listening id (st.log (.recver id fd)) :=
    ⟨listening.owner, listening.made, (SameTable.log st _).held listening.held⟩
  have sockfd : ((st.log (.recver id fd)).heap id).sockfd = fd :=
    (reachable_table reached).sockfd fd id found
  nth_rewrite 1 [← sockfd] at answers
  obtain ⟨after, events, turned⟩ := exists_turned attempts entered distinct closed answers
  exact turned.emptiesBacklog_iff

/-- A listener on descriptor 3 whose first `accept`s are answered by the attempts. -/
def backlogKernel (attempts : List Attempt) : Kernel :=
  { Kernel.scripted [[(3, epollIn)]] [] [] [] with
    accept := fun world _ =>
      (attempts.map Attempt.result).getD (world.calls Event.isAccept) (.fail eagain) }

def backlogState (attempts : List Attempt) : State :=
  { boot (backlogKernel attempts) 3 silentHandler with
    world := (Epoller.waitEvents (backlogKernel attempts)
      (boot (backlogKernel attempts) 3 silentHandler).world).2 }

theorem backlogState_reachable (attempts : List Attempt) :
    Reachable (backlogKernel attempts) 3 silentHandler (.turn [(3, epollIn)])
      (backlogState attempts) :=
  .wait .boot

theorem backlogState_found (attempts : List Attempt) :
    (backlogState attempts).connections.lookup 3 = some 0 := by
  show (boot (backlogKernel attempts) 3 silentHandler).connections.lookup 3 = some 0
  rw [(boot_state (backlogKernel attempts) 3 silentHandler).1, AList.lookup_insert]

theorem backlogState_answers (attempts : List Attempt) :
    (backlogKernel attempts).AcceptsInTurn 3
      ((backlogState attempts).log (.recver 0 3)) attempts := by
  intro world events trace
  have none_yet : ((backlogState attempts).log (.recver 0 3)).world.trace.countP
      Event.isAccept = 0 := rfl
  simp only [backlogKernel, World.calls, trace, List.countP_append, none_yet,
    Nat.zero_add]

/-- Two clients, with an interruption between them. -/
theorem listener_empties_backlog_iff_two :
    let attempts := [.accepted 7, .interrupted, .accepted 8]
    EmptiesBacklog (backlogKernel attempts) 0
        ((backlogState attempts).log (.recver 0 3)) attempts ↔
      Attempt.NobodyBehind attempts := by
  intro attempts
  apply listener_empties_backlog_iff (backlogState_reachable attempts)
    (backlogState_found attempts)
  · decide
  · decide
  · exact backlogState_answers attempts

/-- The first connection is reset before it is accepted, and the second is left
waiting. -/
theorem strands_second_connection :
    let attempts := [.aborted econnaborted (by decide), .accepted 7]
    Reachable (backlogKernel attempts) 3 silentHandler (.turn [(3, epollIn)])
        (backlogState attempts) ∧
      (backlogState attempts).connections.lookup 3 = some 0 ∧
      (backlogKernel attempts).AcceptsInTurn 3
        ((backlogState attempts).log (.recver 0 3)) attempts ∧
      ¬ EmptiesBacklog (backlogKernel attempts) 0
        ((backlogState attempts).log (.recver 0 3)) attempts := by
  intro attempts
  have answers := backlogState_answers attempts
  refine ⟨backlogState_reachable attempts, backlogState_found attempts, answers, ?_⟩
  have listening :=
    reachable_listening (backlogState_reachable attempts) (backlogState_found attempts)
  have called : Listening 0 ((backlogState attempts).log (.recver 0 3)) :=
    ⟨listening.owner, listening.made, (SameTable.log _ _).held listening.held⟩
  obtain ⟨after, events, turned⟩ :=
    exists_turned attempts called (by decide) (by decide) answers
  rw [turned.emptiesBacklog_iff]
  intro nobody
  exact absurd (nobody (.accepted 7) List.mem_cons_self) (by decide)

end LinuxSystemLearning.Reactor
