import LinuxSystemLearning.Reactor.Dispatcher
import Mathlib.Logic.Relation

/-!
# What a call can do

`Recver` and `Sender` are loops over a handful of actions on the state.  Here the
calls are taken apart into these actions once, so that what every action keeps,
every call keeps, however often its loops go round.
-/

set_option autoImplicit false

namespace LinuxSystemLearning.Reactor

open LinuxSystemLearning.Cxx
open LinuxSystemLearning.Loop

/-- Events of the object `id` that only say that something was tried. -/
def Event.Quiet (id : ObjId) : Event → Prop
  | .recv other _ _ => other = id
  | .recver _ _ => True
  | .sender _ _ => True
  | .epollWait _ => True
  | .accept _ (.fail _) => True
  | _ => False

/-- The channel for `fd`, accepted on the listener `id`, is made and added. -/
def enroll (k : Kernel) (id : ObjId) (fd : Nat) (st : State) : State :=
  let world := (st.world.accept k (st.heap id).sockfd).2
  let made := State.make (Listener.channelFor (st.heap id) fd)
    { st with world := world }
  addConnection k made.1 made.2

/-- A `send` of the connection `id` was answered with `result`. -/
def sendDone (id : ObjId) (result : SendResult) (st : State) : State :=
  (st.log (.send id (st.heap id).sockfd (st.heap id).outbuffer result)).modify id
    fun conn => { conn with outbuffer := conn.outbuffer.drop result.count }

/-- The handler of the connection `id` answered `response` and left `inbuffer`. -/
def handleDone (id : ObjId) (response inbuffer : Bytes) (st : State) : State :=
  (st.log (.handler id (st.heap id).inbuffer response)).modify id fun conn =>
    { conn with
      inbuffer := inbuffer
      outbuffer := conn.outbuffer ++ response }

/-- What the object `id`, a connection of the given kind, can do to the state. -/
inductive Action (k : Kernel) (id : ObjId) : Kind → State → State → Prop where
  | quiet {kind : Kind} {st : State} (event : Event) (quiet : event.Quiet id) :
      Action k id kind st (st.log event)
  | read {st : State} (inbuffer : Bytes) :
      Action k id .channel st
        (st.modify id fun conn => { conn with inbuffer := inbuffer })
  | handle {st : State} (response inbuffer : Bytes) :
      Action k id .channel st (handleDone id response inbuffer st)
  | write {st : State} (result : SendResult) :
      Action k id .channel st (sendDone id result st)
  | except {st : State} :
      Action k id .channel st (delConnection k (st.heap id).sockfd st)
  | rearm {st : State} (writeable : Bool) :
      Action k id .channel st (enableReadWrite k (st.heap id).sockfd true writeable st)
  | enroll {st : State} (fd : Nat)
      (accepted : k.accept st.world (st.heap id).sockfd = .accepted fd) :
      Action k id .listener st (enroll k id fd st)

abbrev Actions (k : Kernel) (id : ObjId) (kind : Kind) : State → State → Prop :=
  Relation.ReflTransGen (Action k id kind)

variable {k : Kernel} {id : ObjId} {kind : Kind}

theorem Actions.invariant (Inv : State → Prop)
    (keeps : ∀ st after, Inv st → Action k id kind st after → Inv after)
    {st after : State} (actions : Actions k id kind st after) (start : Inv st) :
    Inv after := by
  induction actions with
  | refl => exact start
  | tail _ action ih => exact keeps _ _ ih action

theorem actions_of_run {Result : Type} {body : State → Step State Result}
    (nexts : ∀ st after, body st = .next after → Actions k id kind st after)
    {fuel : Nat} {st : State} {result : Result}
    (done : Loop.run body fuel st = some result) :
    ∃ last, Actions k id kind st last ∧ body last = .stop result := by
  have ends := ends_of_run body fuel st result done
  refine ends.invariant (Actions k id kind st) ?_ .refl
  intro before after actions again
  exact actions.trans (nexts before after again)

/-! ## `Channel` -/

/-- What an iteration of the reading loop can do, by the answer of `recv`. -/
inductive Channel.Received (k : Kernel) (id : ObjId) (st : State) :
    Step State Channel.RecvEnd → Prop where
  | data (piece : Piece)
      (result : k.recv st.world (st.heap id).sockfd = .data piece) :
      Received k id st (.next
        ((st.log (.recv id (st.heap id).sockfd (.data piece))).modify id fun conn =>
          { conn with inbuffer := conn.inbuffer ++ cString piece.bytes }))
  | drained (errno : Nat) (wait : errno = eagain ∨ errno = ewouldblock)
      (result : k.recv st.world (st.heap id).sockfd = .fail errno) :
      Received k id st (.stop
        (.drained (st.log (.recv id (st.heap id).sockfd (.fail errno)))))
  | interrupted (result : k.recv st.world (st.heap id).sockfd = .fail eintr) :
      Received k id st (.next (st.log (.recv id (st.heap id).sockfd (.fail eintr))))
  | closed (result : k.recv st.world (st.heap id).sockfd = .eof)
      (owner : (st.heap id).owner = .reactor) :
      Received k id st (.stop (.closed
        (delConnection k (st.heap id).sockfd
          (st.log (.recv id (st.heap id).sockfd .eof)))))
  | failed (errno : Nat) (fatal : Fatal errno)
      (result : k.recv st.world (st.heap id).sockfd = .fail errno)
      (owner : (st.heap id).owner = .reactor) :
      Received k id st (.next
        (delConnection k (st.heap id).sockfd
          (st.log (.recv id (st.heap id).sockfd (.fail errno)))))
  | crashed (owner : (st.heap id).owner = .nullptr) :
      Received k id st (.stop .crashed)

variable (k id) in
theorem Channel.recvStep_received (st : State) :
    Channel.Received k id st (Channel.recvStep k id st) := by
  cases result : k.recv st.world (st.heap id).sockfd with
  | data piece =>
      simp only [Channel.recvStep, result]
      exact .data piece result
  | eof =>
      simp only [Channel.recvStep, Channel.excepter, result, State.log_heap]
      cases owner : (st.heap id).owner with
      | nullptr => exact .crashed owner
      | reactor => exact .closed result owner
  | fail errno =>
      simp only [Channel.recvStep, Channel.excepter, result, State.log_heap]
      by_cases wait : errno = eagain ∨ errno = ewouldblock
      · rw [if_pos wait]
        exact .drained errno wait result
      rw [if_neg wait]
      by_cases interrupted : errno = eintr
      · rw [if_pos interrupted]
        subst interrupted
        exact .interrupted result
      rw [if_neg interrupted]
      cases owner : (st.heap id).owner with
      | nullptr => exact .crashed owner
      | reactor => exact .failed errno ⟨wait, interrupted⟩ result owner

theorem Channel.actions_of_recvStep {st after : State}
    (stepped : Channel.recvStep k id st = .next after ∨
      Channel.recvStep k id st = .stop (.drained after) ∨
      Channel.recvStep k id st = .stop (.closed after)) :
    Actions k id .channel st after := by
  have received := Channel.recvStep_received k id st
  have tried : ∀ result, Action k id .channel st
      (st.log (.recv id (st.heap id).sockfd result)) := fun _ => .quiet _ rfl
  rcases stepped with again | drained | closed
  · rw [again] at received
    cases received with
    | data piece _ => exact .tail (.single (tried _)) (.read _)
    | interrupted _ => exact .single (tried _)
    | failed errno _ _ _ => exact .tail (.single (tried _)) .except
  · rw [drained] at received
    cases received with
    | drained errno _ _ => exact .single (tried _)
  · rw [closed] at received
    cases received with
    | closed _ _ => exact .tail (.single (tried _)) .except

/-- The input is left alone when it is empty, dropped when there is no handler, and
else replaced by what the handler leaves of it. -/
theorem Channel.callHandler_cases {st after : State}
    (ran : Channel.callHandler id st = some after) :
    ((st.heap id).inbuffer = [] ∧ after = st) ∨
      ((st.heap id).handler = none ∧
        after = st.modify id fun conn => { conn with inbuffer := [] }) ∨
      ∃ handler response inbuffer, (st.heap id).handler = some handler ∧
        (st.heap id).inbuffer ≠ [] ∧
        handler st.world.trace (st.heap id).inbuffer = some (response, inbuffer) ∧
        after = handleDone id response inbuffer st := by
  unfold Channel.callHandler at ran
  dsimp only at ran
  split at ran
  · rename_i empty
    cases ran
    exact .inl ⟨List.isEmpty_iff.mp empty, rfl⟩
  rename_i something
  right
  cases registered : (st.heap id).handler with
  | none =>
      rw [registered] at ran
      cases ran
      exact .inl ⟨rfl, rfl⟩
  | some handler =>
      rw [registered] at ran
      dsimp only at ran
      split at ran
      · cases ran
      · rename_i response inbuffer answered
        cases ran
        refine .inr ⟨handler, response, inbuffer, rfl, ?_, answered, rfl⟩
        simpa using something

theorem Channel.actions_of_callHandler {st after : State}
    (ran : Channel.callHandler id st = some after) : Actions k id .channel st after := by
  rcases Channel.callHandler_cases ran with
    ⟨-, rfl⟩ | ⟨-, rfl⟩ | ⟨handler, response, inbuffer, -, -, -, rfl⟩
  · exact .refl
  · exact .single (.read [])
  · exact .single (.handle response inbuffer)

theorem sendDone_idle {result : SendResult} (idle : result.count = 0) (st : State) :
    sendDone id result st =
      st.log (.send id (st.heap id).sockfd (st.heap id).outbuffer result) := by
  unfold sendDone State.modify
  simp only [idle, List.drop_zero, Function.update_eq_self]

theorem Channel.sendStep_done {st after : State}
    (stepped : Channel.sendStep k id st = .next after ∨
      Channel.sendStep k id st = .stop after) :
    after = sendDone id
      (k.send st.world (st.heap id).sockfd (st.heap id).outbuffer) st := by
  cases result : k.send st.world (st.heap id).sockfd (st.heap id).outbuffer with
  | sent count fits =>
      simp only [Channel.sendStep, result] at stepped
      by_cases positive : 0 < count
      · rw [if_pos positive] at stepped
        split at stepped
        · have same := stepped.resolve_left (by simp)
          cases same
          rfl
        · have same := stepped.resolve_right (by simp)
          cases same
          rfl
      · have nothing : count = 0 := Nat.eq_zero_of_not_pos positive
        have idle : (SendResult.sent count fits).count = 0 := nothing
        rw [if_neg positive] at stepped
        rw [sendDone_idle idle]
        exact Eq.symm (by simpa using stepped)
  | fail errno =>
      have idle : (SendResult.fail errno).count = 0 := rfl
      rw [sendDone_idle idle]
      simp only [Channel.sendStep, result] at stepped
      split at stepped
      · exact Eq.symm (by simpa using stepped)
      · exact Eq.symm (by simpa using stepped)

theorem Channel.actions_of_sendStep {st after : State}
    (stepped : Channel.sendStep k id st = .next after ∨
      Channel.sendStep k id st = .stop after) : Actions k id .channel st after := by
  rw [Channel.sendStep_done stepped]
  exact .single (.write _)

theorem Channel.actions_of_sending {fuel : Nat} {st last : State}
    (ran : Loop.run (Channel.sendStep k id) fuel st = some last) :
    Actions k id .channel st last := by
  obtain ⟨before, actions, stopped⟩ := actions_of_run
    (fun st after again => Channel.actions_of_sendStep (.inl again)) ran
  exact actions.trans (Channel.actions_of_sendStep (.inr stopped))

theorem Channel.sender_cases {fuel : Nat} {st after : State}
    (returned : Channel.sender k fuel id st = some after) :
    ∃ last, Loop.run (Channel.sendStep k id) fuel st = some last ∧
      after = enableReadWrite k (last.heap id).sockfd true
        (!(last.heap id).outbuffer.isEmpty) last := by
  obtain ⟨last, ran, rest⟩ := Option.bind_eq_some_iff.mp returned
  refine ⟨last, ran, ?_⟩
  cases owner : (last.heap id).owner with
  | nullptr =>
      rw [owner] at rest
      cases rest
  | reactor =>
      rw [owner] at rest
      exact (Option.some.inj rest).symm

theorem Channel.actions_of_sender {fuel : Nat} {st after : State}
    (returned : Channel.sender k fuel id st = some after) :
    Actions k id .channel st after := by
  obtain ⟨last, ran, rfl⟩ := Channel.sender_cases returned
  exact .tail (Channel.actions_of_sending ran) (.rearm _)

/-- `Recver` reads; then it is left with the connection closed, or it calls the
handler and, when there is something to send, `Sender`. -/
theorem Channel.recver_cases {fuel : Nat} {st after : State}
    (returned : Channel.recver k fuel id st = some after) :
    Loop.run (Channel.recvStep k id) fuel st = some (.closed after) ∨
      ∃ read handled,
        Loop.run (Channel.recvStep k id) fuel st = some (.drained read) ∧
        Channel.callHandler id read = some handled ∧
        ((handled.heap id).outbuffer.isEmpty = true ∧ after = handled ∨
          Channel.sender k fuel id handled = some after) := by
  obtain ⟨last, ran, rest⟩ := Option.bind_eq_some_iff.mp returned
  cases last with
  | crashed => cases rest
  | closed closed =>
      cases rest
      exact .inl ran
  | drained read =>
      right
      obtain ⟨handled, called, rest⟩ := Option.bind_eq_some_iff.mp rest
      refine ⟨read, handled, ran, called, ?_⟩
      split at rest
      · rename_i nothing
        cases rest
        exact .inl ⟨nothing, rfl⟩
      · exact .inr rest

theorem Channel.actions_of_reading {fuel : Nat} {st after : State}
    (ran : Loop.run (Channel.recvStep k id) fuel st = some (.drained after) ∨
      Loop.run (Channel.recvStep k id) fuel st = some (.closed after)) :
    Actions k id .channel st after := by
  have nexts : ∀ st after, Channel.recvStep k id st = .next after →
      Actions k id .channel st after :=
    fun st after again => Channel.actions_of_recvStep (.inl again)
  rcases ran with ran | ran
  · obtain ⟨last, actions, stopped⟩ := actions_of_run nexts ran
    exact actions.trans (Channel.actions_of_recvStep (.inr (.inl stopped)))
  · obtain ⟨last, actions, stopped⟩ := actions_of_run nexts ran
    exact actions.trans (Channel.actions_of_recvStep (.inr (.inr stopped)))

theorem Channel.actions_of_recver {fuel : Nat} {st after : State}
    (returned : Channel.recver k fuel id st = some after) :
    Actions k id .channel st after := by
  rcases Channel.recver_cases returned with
    ran | ⟨read, handled, ran, called, ⟨-, rfl⟩ | sent⟩
  · exact Channel.actions_of_reading (.inr ran)
  · have reading : Actions k id .channel st read := Channel.actions_of_reading (.inl ran)
    exact reading.trans (Channel.actions_of_callHandler called)
  · have reading : Actions k id .channel st read := Channel.actions_of_reading (.inl ran)
    have handling : Actions k id .channel read handled :=
      Channel.actions_of_callHandler called
    exact (reading.trans handling).trans (Channel.actions_of_sender sent)

/-! ## `Listener` -/

/-- An iteration of the accepting loop fails quietly or enrolls one channel. -/
theorem Listener.actions_of_recvStep {st after : State}
    (stepped : Listener.recvStep k id st = .next after ∨
      Listener.recvStep k id st = .stop (some after)) : Actions k id .listener st after := by
  cases result : k.accept st.world (st.heap id).sockfd with
  | accepted fd =>
      have world : TcpSocket.accept k (st.heap id).sockfd st.world =
          ((fd : Int), (st.world.accept k (st.heap id).sockfd).2) := by
        simp [TcpSocket.accept, World.accept, result]
      have codes : (fd : Int) ≠ acceptErr ∧ (fd : Int) ≠ acceptContinue ∧
          (fd : Int) ≠ acceptDone := by
        unfold acceptErr acceptContinue acceptDone
        omega
      simp only [Listener.recvStep, world, if_neg codes.1, if_neg codes.2.1,
        if_neg codes.2.2] at stepped
      split at stepped
      · simp at stepped
      · have same : enroll k id fd st = after := by
          simpa [enroll] using stepped
        exact same ▸ .single (.enroll fd result)
  | fail errno =>
      have code : ∃ code, TcpSocket.accept k (st.heap id).sockfd st.world =
          (code, st.world.log (.accept (st.heap id).sockfd (.fail errno))) ∧
            (code = acceptDone ∨ code = acceptContinue ∨ code = acceptErr) := by
        simp only [TcpSocket.accept, World.accept, result]
        split
        · exact ⟨_, rfl, .inl rfl⟩
        split
        · exact ⟨_, rfl, .inr (.inl rfl)⟩
        · exact ⟨_, rfl, .inr (.inr rfl)⟩
      obtain ⟨code, world, cases⟩ := code
      have same : st.log (.accept (st.heap id).sockfd (.fail errno)) = after := by
        simp only [Listener.recvStep, world] at stepped
        rcases cases with rfl | rfl | rfl
        · simpa [acceptDone, acceptContinue, acceptErr, State.log] using stepped
        · simpa [acceptDone, acceptContinue, acceptErr, State.log] using stepped
        · simpa [acceptDone, acceptContinue, acceptErr, State.log] using stepped
      exact same ▸ .single (.quiet _ trivial)

theorem Listener.actions_of_recver {fuel : Nat} {st after : State}
    (returned : Listener.recver k fuel id st = some after) :
    Actions k id .listener st after := by
  obtain ⟨last, ran, rfl⟩ := Option.bind_eq_some_iff.mp returned
  obtain ⟨before, actions, stopped⟩ := actions_of_run
    (fun st after again => Listener.actions_of_recvStep (.inl again)) ran
  exact actions.trans (Listener.actions_of_recvStep (.inr stopped))

/-! ## The virtual calls -/

theorem actions_of_recver {fuel : Nat} {st after : State}
    (returned : recver k fuel id st = some after) :
    Actions k id (st.heap id).kind st after := by
  unfold recver at returned
  split at returned
  · rename_i listener
    rw [listener]
    exact Listener.actions_of_recver returned
  · rename_i channel
    rw [channel]
    exact Channel.actions_of_recver returned

theorem actions_of_sender {fuel : Nat} {st after : State}
    (returned : sender k fuel id st = some after) :
    Actions k id (st.heap id).kind st after := by
  unfold sender at returned
  split at returned
  · cases returned
    exact .refl
  · rename_i channel
    rw [channel]
    exact Channel.actions_of_sender returned

/-- What every action keeps holds throughout every run. -/
theorem Reachable.invariant_of_actions {listenfd : Fd} {handler : Handler}
    (Inv : State → Prop) (start : Inv (Reactor.boot k listenfd handler))
    (keeps : ∀ id kind st after, Inv st → Action k id kind st after → Inv after)
    {cursor : Cursor} {st : State}
    (reached : Reachable k listenfd handler cursor st) : Inv st := by
  refine reached.invariant Inv start ?_ ?_ ?_
  · intro st ready held
    exact keeps 0 .listener _ _ held (.quiet _ trivial)
  · intro cursor fuel sockfd id st after _ held _ returned
    exact Actions.invariant Inv (keeps id _) (actions_of_recver returned)
      (keeps id .channel _ _ held (.quiet _ trivial))
  · intro cursor fuel sockfd id st after _ held _ returned
    exact Actions.invariant Inv (keeps id _) (actions_of_sender returned)
      (keeps id .channel _ _ held (.quiet _ trivial))

/-! ## Enrolling a channel -/

def acceptedWorld (listenfd : Fd) (fd : Nat) (world : World) : World :=
  { world.log (.accept listenfd (.accepted fd)) with
    opened := Function.update world.opened fd true }

/-- The state in which the new channel is made but not added. -/
def acceptedState (id : ObjId) (fd : Nat) (st : State) : State :=
  { connections := st.connections
    heap := Function.update st.heap st.fresh (Listener.channelFor (st.heap id) fd)
    fresh := st.fresh + 1
    world := acceptedWorld (st.heap id).sockfd fd st.world }

theorem enroll_eq {st : State} {fd : Nat}
    (accepted : k.accept st.world (st.heap id).sockfd = .accepted fd) :
    enroll k id fd st = addConnection k st.fresh (acceptedState id fd st) := by
  simp only [enroll, State.make, World.accept, accepted]
  rfl

theorem acceptedState_new (id : ObjId) (fd : Nat) (st : State) :
    (acceptedState id fd st).heap st.fresh = Listener.channelFor (st.heap id) fd := by
  simp [acceptedState]

theorem enroll_present {st : State} {fd : Nat} {other : ObjId}
    (accepted : k.accept st.world (st.heap id).sockfd = .accepted fd)
    (present : st.connections.lookup (fd : Fd) = some other) :
    enroll k id fd st = (acceptedState id fd st).log (.connExists fd) := by
  have taken : isConnectionExists
      ((acceptedState id fd st).heap st.fresh).sockfd (acceptedState id fd st) =
        true := by
    rw [acceptedState_new]
    have found : (acceptedState id fd st).connections.lookup (fd : Fd) =
        some other := present
    simp [isConnectionExists, Listener.channelFor, Channel.new, found]
  rw [enroll_eq accepted, addConnection_exists k taken, acceptedState_new]
  rfl

theorem enroll_absent {st : State} {fd : Nat}
    (accepted : k.accept st.world (st.heap id).sockfd = .accepted fd)
    (absent : st.connections.lookup (fd : Fd) = none) :
    (enroll k id fd st).connections = st.connections.insert (fd : Fd) st.fresh ∧
      (enroll k id fd st).heap = Function.update st.heap st.fresh
        { Listener.channelFor (st.heap id) fd with owner := .reactor } ∧
      (enroll k id fd st).fresh = st.fresh + 1 ∧
      (enroll k id fd st).world =
        (acceptedWorld (st.heap id).sockfd fd st.world).epollCtl k
          (.add (epollIn ||| epollEt)) fd := by
  have missing : isConnectionExists
      ((acceptedState id fd st).heap st.fresh).sockfd (acceptedState id fd st) =
        false := by
    rw [acceptedState_new]
    have missing : (acceptedState id fd st).connections.lookup (fd : Fd) = none :=
      absent
    simp [isConnectionExists, Listener.channelFor, Channel.new, missing]
  obtain ⟨connections, heap, fresh, world⟩ :=
    addConnection_new k missing
  rw [acceptedState_new] at connections heap world
  rw [enroll_eq accepted]
  refine ⟨connections, ?_, fresh, world⟩
  rw [heap, acceptedState, Function.update_idem]

theorem enroll_fresh {st : State} {fd : Nat}
    (accepted : k.accept st.world (st.heap id).sockfd = .accepted fd) :
    (enroll k id fd st).fresh = st.fresh + 1 := by
  cases found : st.connections.lookup (fd : Fd) with
  | none => exact (enroll_absent accepted found).2.2.1
  | some other =>
      rw [enroll_present accepted found]
      rfl

theorem enroll_keeps_object {st : State} {fd : Nat}
    (accepted : k.accept st.world (st.heap id).sockfd = .accepted fd) {other : ObjId}
    (made : other < st.fresh) : (enroll k id fd st).heap other = st.heap other := by
  have older : other ≠ st.fresh := Nat.ne_of_lt made
  cases present : st.connections.lookup (fd : Fd) with
  | none => rw [(enroll_absent accepted present).2.1, Function.update_of_ne older]
  | some _ =>
      rw [enroll_present accepted present]
      exact Function.update_of_ne older _ _

/-- Behind the `accept` comes either the registration or the refusal. -/
theorem enroll_trace {st : State} {fd : Nat}
    (accepted : k.accept st.world (st.heap id).sockfd = .accepted fd) :
    ∃ last, (enroll k id fd st).world.trace = st.world.trace ++
        [.accept (st.heap id).sockfd (.accepted fd), last] ∧
      ((∃ ok, last = .epollCtl (.add (epollIn ||| epollEt)) fd ok) ∨
        last = .connExists fd) := by
  cases found : st.connections.lookup (fd : Fd) with
  | none =>
      rw [(enroll_absent accepted found).2.2.2, World.epollCtl_trace, acceptedWorld,
        World.log_trace, List.append_assoc, List.singleton_append]
      exact ⟨_, rfl, .inl ⟨_, rfl⟩⟩
  | some other =>
      rw [enroll_present accepted found]
      exact ⟨_, by simp [acceptedState, acceptedWorld], .inr rfl⟩

end LinuxSystemLearning.Reactor
