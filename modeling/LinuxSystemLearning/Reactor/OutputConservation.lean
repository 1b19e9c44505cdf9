import LinuxSystemLearning.Reactor.Channels

/-!
# Output conservation and the write interest

What a channel's handler returned is what `send` has accepted so far followed by
`_outbuffer`, and after each call `EPOLLOUT` is asked for exactly while
`_outbuffer` is not empty.  The first half is kept by every action; the second
is broken while a call runs and mended by `EnableReadWrite` at its end.
-/

set_option autoImplicit false

namespace LinuxSystemLearning.Reactor

open LinuxSystemLearning.Cxx
open LinuxSystemLearning.Loop

def Conserved (st : State) (id : ObjId) : Prop :=
  acceptedBytes id st.world.trace ++ (st.heap id).outbuffer =
    handlerOutputs id st.world.trace

/-- `EPOLLOUT` is asked for exactly while there is something to send. -/
def Armed (st : State) (id : ObjId) : Prop :=
  (st.heap id).events.has epollOut = true ↔ (st.heap id).outbuffer ≠ []

variable {k : Kernel} {id : ObjId}

/-! ## Conservation -/

theorem conserved_iff_wire (st : State) :
    Conserved st id ↔
      (wire id st).accepted ++ (st.heap id).outbuffer = (wire id st).outputs :=
  Iff.rfl

theorem Conserved.of_same {st after : State} (conserved : Conserved st id)
    (outbuffer : (after.heap id).outbuffer = (st.heap id).outbuffer)
    (accepted : (wire id after).accepted = (wire id st).accepted)
    (outputs : (wire id after).outputs = (wire id st).outputs) : Conserved after id := by
  rw [conserved_iff_wire] at conserved ⊢
  rw [outbuffer, accepted, outputs]
  exact conserved

theorem Event.Quiet.no_bytes {event : Event} (quiet : event.Quiet id) :
    event.response id = [] ∧ event.accepted id = [] := by
  cases event with
  | send other fd data result => exact False.elim quiet
  | handler other inbuffer response => exact False.elim quiet
  | _ => exact ⟨rfl, rfl⟩

theorem Conserved.action {st after : State} (conserved : Conserved st id)
    (action : Action k id .channel st after) : Conserved after id := by
  cases action with
  | quiet event quiet =>
      have trace : (st.log event).world.trace = st.world.trace ++ [event] := rfl
      obtain ⟨response, accepted⟩ := quiet.no_bytes
      refine conserved.of_same rfl ?_ ?_
      · rw [wire_of_event trace, accepted, List.append_nil]
      · rw [wire_of_event trace, response, List.append_nil]
  | read inbuffer => exact conserved.of_same (by simp) rfl rfl
  | handle response inbuffer =>
      rw [conserved_iff_wire] at conserved ⊢
      rw [wire_handleDone, handleDone, State.modify_heap_self, State.log_heap,
        ← List.append_assoc, conserved]
  | write result =>
      rw [conserved_iff_wire] at conserved ⊢
      rw [wire_sendDone, sendDone, State.modify_heap_self, State.log_heap,
        List.append_assoc, List.take_append_drop, conserved]
  | except =>
      refine conserved.of_same rfl ?_ ?_
      · rw [wire_delConnection]
      · rw [wire_delConnection]
  | rearm writeable =>
      refine conserved.of_same ?_ ?_ ?_
      · exact enableReadWrite_keeps k Connection.outbuffer (fun _ _ => rfl) _ _ _ _
      · rw [wire_enableReadWrite]
      · rw [wire_enableReadWrite]

theorem Conserved.actions {st after : State} (conserved : Conserved st id)
    (actions : Actions k id .channel st after) : Conserved after id :=
  actions.invariant (fun now => Conserved now id)
    (fun _ _ conserved action => conserved.action action) conserved

theorem reachable_conserved {listenfd : Fd} {handler : Handler} {cursor : Cursor}
    {st : State} (reached : Reachable k listenfd handler cursor st) :
    EachChannel Conserved st := by
  refine Reachable.each_channel ?_ ?_ ?_ ?_ reached
  · intro st after id object same conserved
    exact conserved.of_same (by rw [object]) (by rw [same]) (by rw [same])
  · intro st id sockfd object empty
    rw [conserved_iff_wire, object, empty]
    rfl
  · intro fuel st after id _ _ conserved returned _
    exact conserved.actions (Channel.actions_of_recver returned)
  · intro fuel st after id _ conserved returned _
    exact conserved.actions (Channel.actions_of_sender returned)

/-! ## The write interest -/

theorem readWriteMask_epollOut (writeable : Bool) :
    (readWriteMask true writeable).has epollOut = writeable := by
  cases writeable <;> decide

theorem newMask_epollOut : (epollIn ||| epollEt).has epollOut = false := by decide

/-- However `Sender` is left, it asks for `EPOLLOUT` according to what is left. -/
theorem Channel.sender_arms {fuel : Nat} {st after : State} (alone : Alone st id)
    (returned : Channel.sender k fuel id st = some after)
    (registered : after.connections.lookup (after.heap id).sockfd = some id) :
    Armed after id := by
  obtain ⟨last, ran, rfl⟩ := Channel.sender_cases returned
  have sending : Apart id st last :=
    Actions.apart alone (Channel.actions_of_sending ran)
  have apart : Apart id last
      (enableReadWrite k (last.heap id).sockfd true
        (!(last.heap id).outbuffer.isEmpty) last) :=
    (Action.rearm _).apart (sending.alone alone)
  rw [enableReadWrite_connections, apart.sockfd] at registered
  obtain ⟨-, heap, -⟩ := enableReadWrite_present k true
    (!(last.heap id).outbuffer.isEmpty) registered
  unfold Armed
  rw [heap, Function.update_self, readWriteMask_epollOut]
  simp

theorem Channel.callHandler_appends {st after : State}
    (called : Channel.callHandler id st = some after) :
    (after.heap id).events = (st.heap id).events ∧
      ∃ response, (after.heap id).outbuffer =
        (st.heap id).outbuffer ++ response := by
  rcases Channel.callHandler_cases called with
    ⟨-, rfl⟩ | ⟨-, rfl⟩ | ⟨handler, response, inbuffer, -, -, -, rfl⟩
  · exact ⟨rfl, [], (List.append_nil _).symm⟩
  · exact ⟨by simp, [], by simp⟩
  · exact ⟨by simp [handleDone], response, by simp [handleDone]⟩

theorem Channel.recver_arms {fuel : Nat} {st after : State}
    (alone : Alone st id) (armed : Armed st id)
    (returned : Channel.recver k fuel id st = some after)
    (registered : after.connections.lookup (after.heap id).sockfd = some id) :
    Armed after id := by
  rcases Channel.recver_cases returned with
    ran | ⟨read, handled, ran, called, ⟨nothing, rfl⟩ | sent⟩
  · rw [Channel.absent_of_closed ran] at registered
    cases registered
  · -- there is nothing to send, so there was nothing before
    obtain ⟨got, -, object⟩ := Channel.reading_adds ran
    have outbuffer : (read.heap id).outbuffer = (st.heap id).outbuffer := by
      rw [object]
    have events : (read.heap id).events = (st.heap id).events := by
      rw [object]
    obtain ⟨events', response, appended⟩ := Channel.callHandler_appends called
    rw [outbuffer] at appended
    have empty : (after.heap id).outbuffer = [] := List.isEmpty_iff.mp nothing
    have before : (st.heap id).outbuffer = [] := by
      rw [empty] at appended
      exact (List.append_eq_nil_iff.mp appended.symm).1
    unfold Armed at armed ⊢
    rw [events', events, empty]
    rw [before] at armed
    exact armed
  · have reading : Actions k id .channel st read :=
      Channel.actions_of_reading (.inl ran)
    have handling : Actions k id .channel read handled :=
      Channel.actions_of_callHandler called
    have apart := Actions.apart alone (reading.trans handling)
    exact Channel.sender_arms (apart.alone alone) sent registered

theorem reachable_armed {listenfd : Fd} {handler : Handler} {cursor : Cursor}
    {st : State} (reached : Reachable k listenfd handler cursor st) :
    EachChannel Armed st := by
  refine Reachable.each_channel ?_ ?_ ?_ ?_ reached
  · intro st after id object _ armed
    unfold Armed
    rw [object]
    exact armed
  · intro st id sockfd object _
    unfold Armed
    rw [object]
    simp [Channel.added, Channel.new, newMask_epollOut]
  · intro fuel st after id alone _ armed returned registered
    exact Channel.recver_arms alone armed returned registered
  · intro fuel st after id alone _ returned registered
    exact Channel.sender_arms alone returned registered

/-- At the end of each call, for each channel still registered: its output is
conserved, and both the mask it recorded and, as `epoll_ctl` succeeds, the mask
registered ask for `EPOLLOUT` exactly while there is something to send. -/
theorem output_conservation {listenfd : Fd} {handler : Handler} {cursor : Cursor}
    {st : State} (reached : Reachable k listenfd handler cursor st)
    {fd : Fd} {id : ObjId} (found : st.connections.lookup fd = some id)
    (channel : (st.heap id).kind = .channel) :
    Conserved st id ∧ Armed st id ∧
      (CtlSucceeded st → ∃ mask, st.world.interest fd = some mask ∧
        (mask.has epollOut = true ↔ (st.heap id).outbuffer ≠ [])) := by
  have armed := reachable_armed reached fd id found channel
  refine ⟨reachable_conserved reached fd id found channel, armed, ?_⟩
  intro succeeded
  exact ⟨_, reachable_synced reached succeeded fd id found, armed⟩

/-- The handler answers three bytes, of which `send` takes one before `EAGAIN`. -/
theorem output_conservation_partial_send :
    let k := Kernel.scripted [[(3, epollIn)], [(7, epollIn)]] [7]
      [.data ⟨[65], by decide, by decide⟩] [.sent 1 (by decide)]
    let handler : Handler := fun _ _ => some ([1, 2, 3], [])
    ∃ st, Reachable k 3 handler .waiting st ∧
      st.connections.lookup 7 = some 1 ∧ (st.heap 1).outbuffer = [2, 3] ∧
      Conserved st 1 ∧ Armed st 1 ∧ ∃ mask, st.world.interest 7 = some mask ∧
        (mask.has epollOut = true ↔ (st.heap 1).outbuffer ≠ []) := by
  intro k handler
  have ran : ∃ st, loop k 3 2 (boot k 3 handler) = some st ∧ CtlSucceeded st ∧
      st.connections.lookup 7 = some 1 ∧ (st.heap 1).kind = .channel ∧
      (st.heap 1).outbuffer = [2, 3] := by
    have check : (loop k 3 2 (boot k 3 handler)).any (fun st =>
        decide (CtlSucceeded st ∧ st.connections.lookup 7 = some 1 ∧
          (st.heap 1).kind = .channel ∧ (st.heap 1).outbuffer = [2, 3])) = true := by
      decide
    simpa [Option.any_eq_true] using check
  obtain ⟨st, ran, succeeded, found, channel, outbuffer⟩ := ran
  obtain ⟨conserved, armed, registered⟩ :=
    output_conservation (reachable_loop ran) found channel
  exact ⟨st, reachable_loop ran, found, outbuffer, conserved, armed,
    registered succeeded⟩

end LinuxSystemLearning.Reactor
