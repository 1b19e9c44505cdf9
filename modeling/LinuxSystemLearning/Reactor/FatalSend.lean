import LinuxSystemLearning.Reactor.Actions
import LinuxSystemLearning.Reactor.FatalReceive
import Mathlib.Data.Nat.Find
import Mathlib.Order.Monotone.Basic

/-!
# When `Sender` returns

The loop of `Sender` is left when `send` would wait, when it takes nothing and
when the buffer is empty.  An error of any other kind falls through to the next
iteration, so the call returns exactly when one of these comes first.
-/

set_option autoImplicit false

namespace LinuxSystemLearning.Reactor

open LinuxSystemLearning.Cxx
open LinuxSystemLearning.Loop

def SendResult.Fatal : SendResult → Prop
  | .sent _ _ => False
  | .fail errno => Reactor.Fatal errno

/-- What the sends of one call are answered: interruptions come to an end, and an
error that ends the connection is followed by such errors only. -/
structure SendOutcomes where
  result : Nat → SendResult
  interruptsEnd : ∀ i, ∃ j, i ≤ j ∧ result j ≠ .fail eintr
  fatalRepeats : ∀ i j, i ≤ j → (result i).Fatal → (result j).Fatal

namespace SendOutcomes

variable (outcomes : SendOutcomes)

def taken : Nat → Nat
  | 0 => 0
  | i + 1 => taken i + (outcomes.result i).count

/-- The outcome with which a loop that has `size` bytes to send is left. -/
def Leaves (size i : Nat) : Prop :=
  match outcomes.result i with
  | .sent count _ => count = 0 ∨ size ≤ outcomes.taken (i + 1)
  | .fail errno => errno = eagain ∨ errno = ewouldblock

theorem taken_mono : Monotone outcomes.taken :=
  monotone_nat_of_le_succ fun _ => Nat.le_add_right _ _

variable {outcomes}

theorem leaves_of_sent {size i count : Nat} {fits : count < 2 ^ 31}
    (result : outcomes.result i = .sent count fits) :
    outcomes.Leaves size i ↔ count = 0 ∨ size ≤ outcomes.taken (i + 1) := by
  simp only [Leaves, result]

theorem leaves_of_fail {size i errno : Nat}
    (result : outcomes.result i = .fail errno) :
    outcomes.Leaves size i ↔ errno = eagain ∨ errno = ewouldblock := by
  simp only [Leaves, result]

instance (size i : Nat) : Decidable (outcomes.Leaves size i) :=
  match result : outcomes.result i with
  | .sent _ _ => decidable_of_iff _ (leaves_of_sent result).symm
  | .fail _ => decidable_of_iff _ (leaves_of_fail result).symm

/-- What does not leave the loop takes something, interrupts or is fatal. -/
theorem cases_of_stays {size i : Nat} (stays : ¬ outcomes.Leaves size i) :
    (∃ count fits, outcomes.result i = .sent count fits ∧ 0 < count ∧
        outcomes.taken (i + 1) < size) ∨
      outcomes.result i = .fail eintr ∨ (outcomes.result i).Fatal := by
  cases result : outcomes.result i with
  | sent count fits =>
      rw [leaves_of_sent result] at stays
      obtain ⟨positive, small⟩ := not_or.mp stays
      exact .inl ⟨count, fits, rfl, Nat.pos_of_ne_zero positive, Nat.lt_of_not_le small⟩
  | fail errno =>
      rw [leaves_of_fail result] at stays
      right
      by_cases interrupted : errno = eintr
      · exact .inl (by rw [interrupted])
      · exact .inr ⟨stays, interrupted⟩

theorem exists_leaves {size : Nat}
    (calm : ∀ i, (outcomes.result i).Fatal → ∃ j, j < i ∧ outcomes.Leaves size j) :
    ∃ i, outcomes.Leaves size i := by
  by_contra never
  have stays : ∀ i, ¬ outcomes.Leaves size i := fun i leaves => never ⟨i, leaves⟩
  -- from any point on, some send takes a byte and leaves the total below `size`
  have progress : ∀ i, ∃ j, outcomes.taken i < outcomes.taken j ∧
      outcomes.taken j < size := by
    intro i
    obtain ⟨j, later, uninterrupted⟩ := outcomes.interruptsEnd i
    rcases cases_of_stays (stays j) with
      ⟨count, fits, result, positive, small⟩ | interrupted | fatal
    · refine ⟨j + 1, ?_, small⟩
      have sofar : outcomes.taken i ≤ outcomes.taken j := outcomes.taken_mono later
      have step : outcomes.taken (j + 1) = outcomes.taken j + count := by
        simp [taken, result, SendResult.count]
      omega
    · exact absurd interrupted uninterrupted
    · obtain ⟨earlier, -, leaves⟩ := calm j fatal
      exact absurd leaves (stays earlier)
  have grows : ∀ n, ∃ i, n ≤ outcomes.taken i := by
    intro n
    induction n with
    | zero => exact ⟨0, Nat.zero_le _⟩
    | succ n ih =>
        obtain ⟨i, reached⟩ := ih
        obtain ⟨j, more, -⟩ := progress i
        exact ⟨j, Nat.lt_of_le_of_lt reached more⟩
  obtain ⟨i, full⟩ := grows size
  obtain ⟨j, more, small⟩ := progress i
  omega

end SendOutcomes

/-! ## The loop under given outcomes -/

def Event.isSend : Event → Bool
  | .send _ _ _ _ => true
  | _ => false

/-- From `st` on, the sends on `fd` are answered by the outcomes in turn. -/
def Kernel.Answers (k : Kernel) (fd : Fd) (st : State) (outcomes : SendOutcomes) :
    Prop :=
  ∀ world data events, world.trace = st.world.trace ++ events →
    k.send world fd data = outcomes.result (events.countP Event.isSend)

/-- `Sender` returns and, if a send failed fatally, the connection is gone. -/
def SenderSettles (k : Kernel) (id : ObjId) (st : State) : Prop :=
  ∃ fuel after events,
    Channel.sender k fuel id st = some after ∧
    after.world.trace = st.world.trace ++ events ∧
    (∀ data result, .send id (st.heap id).sockfd data result ∈ events →
      result.Fatal → (st.heap id).sockfd ∉ after.connections)

/-- After the first `i` sends of the call that was entered in `st`. -/
structure AfterSends (id : ObjId) (outcomes : SendOutcomes) (st : State) (i : Nat)
    (now : State) : Prop where
  sockfd : (now.heap id).sockfd = (st.heap id).sockfd
  owner : (now.heap id).owner = (st.heap id).owner
  outbuffer : (now.heap id).outbuffer = (st.heap id).outbuffer.drop (outcomes.taken i)
  trace : ∃ events, now.world.trace = st.world.trace ++ events ∧
    events.countP Event.isSend = i ∧
    ∀ fd data result, .send id fd data result ∈ events →
      ∃ j, j < i ∧ result = outcomes.result j

variable {k : Kernel} {id : ObjId} {outcomes : SendOutcomes} {st : State}

theorem AfterSends.entry : AfterSends id outcomes st 0 st :=
  ⟨rfl, rfl, rfl, [], by simp, rfl, by simp⟩

theorem AfterSends.sendDone {i : Nat} {now : State}
    (sent : AfterSends id outcomes st i now) :
    AfterSends id outcomes st (i + 1) (sendDone id (outcomes.result i) now) := by
  obtain ⟨events, trace, count, results⟩ := sent.trace
  refine ⟨?_, ?_, ?_, events ++ [.send id (now.heap id).sockfd
    (now.heap id).outbuffer (outcomes.result i)], ?_, ?_, ?_⟩
  · simpa [Reactor.sendDone] using sent.sockfd
  · simpa [Reactor.sendDone] using sent.owner
  · simp [Reactor.sendDone, sent.outbuffer, SendOutcomes.taken, List.drop_drop]
  · simp [Reactor.sendDone, trace]
  · simp [List.countP_append, count, Event.isSend]
  · intro fd data result member
    rcases List.mem_append.mp member with old | new
    · obtain ⟨j, earlier, same⟩ := results fd data result old
      exact ⟨j, Nat.lt_succ_of_lt earlier, same⟩
    · have same : result = outcomes.result i := by simp_all
      exact ⟨i, Nat.lt_succ_self i, same⟩

theorem AfterSends.step {i : Nat} {now : State}
    (answers : k.Answers (st.heap id).sockfd st outcomes)
    (sent : AfterSends id outcomes st i now) :
    Channel.sendStep k id now =
      if outcomes.Leaves (st.heap id).outbuffer.length i then
        .stop (Reactor.sendDone id (outcomes.result i) now)
      else .next (Reactor.sendDone id (outcomes.result i) now) := by
  obtain ⟨events, trace, sends, -⟩ := sent.trace
  have answered : k.send now.world (now.heap id).sockfd (now.heap id).outbuffer =
      outcomes.result i := by
    rw [sent.sockfd, answers now.world _ events trace, sends]
  cases result : outcomes.result i with
  | sent count fits =>
      rw [result] at answered
      have rest : (now.heap id).outbuffer.drop count =
          (st.heap id).outbuffer.drop (outcomes.taken (i + 1)) := by
        simp [sent.outbuffer, SendOutcomes.taken, result, SendResult.count,
          List.drop_drop]
      have emptied : ((now.heap id).outbuffer.drop count).isEmpty = true ↔
          (st.heap id).outbuffer.length ≤ outcomes.taken (i + 1) := by
        rw [rest, List.isEmpty_iff, List.drop_eq_nil_iff]
      simp only [SendOutcomes.leaves_of_sent result]
      by_cases positive : 0 < count
      · simp only [Channel.sendStep, answered, if_pos positive, emptied,
          Nat.ne_of_gt positive, false_or]
        rfl
      · have nothing : count = 0 := Nat.eq_zero_of_not_pos positive
        have idle : (SendResult.sent count fits).count = 0 := nothing
        rw [if_pos (.inl nothing), sendDone_idle idle]
        simp only [Channel.sendStep, answered, if_neg positive]
  | fail errno =>
      rw [result] at answered
      have idle : (SendResult.fail errno).count = 0 := rfl
      simp only [SendOutcomes.leaves_of_fail result, Channel.sendStep, answered,
        sendDone_idle idle, ite_self]

theorem visits_afterSends (answers : k.Answers (st.heap id).sockfd st outcomes)
    {count : Nat}
    (stays : ∀ i, i < count → ¬ outcomes.Leaves (st.heap id).outbuffer.length i) :
    ∃ now, Visits (Channel.sendStep k id) st now ∧
      AfterSends id outcomes st count now := by
  refine visits_of_steps (AfterSends id outcomes st) count ?_ .entry
  intro i now small sent
  refine ⟨_, ?_, sent.sendDone⟩
  rw [sent.step answers, if_neg (stays i small)]

/-- The first outcome that leaves the loop ends it. -/
theorem ends_of_leaves (answers : k.Answers (st.heap id).sockfd st outcomes)
    {first : Nat} (leaves : outcomes.Leaves (st.heap id).outbuffer.length first)
    (stays : ∀ i, i < first → ¬ outcomes.Leaves (st.heap id).outbuffer.length i) :
    ∃ last, Ends (Channel.sendStep k id) st last ∧
      AfterSends id outcomes st (first + 1) last := by
  obtain ⟨now, visits, sent⟩ := visits_afterSends answers stays
  refine ⟨_, (visits.ends_iff _).mpr (.stop ?_), sent.sendDone⟩
  rw [sent.step answers, if_pos leaves]

theorem not_ends_of_fatal (answers : k.Answers (st.heap id).sockfd st outcomes)
    {failing : Nat} (fatal : (outcomes.result failing).Fatal)
    (stays : ∀ i, i < failing → ¬ outcomes.Leaves (st.heap id).outbuffer.length i)
    (last : State) : ¬ Ends (Channel.sendStep k id) st last := by
  obtain ⟨now, visits, sent⟩ := visits_afterSends answers stays
  rw [visits.ends_iff]
  refine not_ends_of_invariant
    (fun now => ∃ i, failing ≤ i ∧ AfterSends id outcomes st i now) ?_
    ⟨failing, Nat.le_refl _, sent⟩ last
  intro now held
  obtain ⟨i, later, sent⟩ := held
  have again : ¬ outcomes.Leaves (st.heap id).outbuffer.length i := by
    have fatal := outcomes.fatalRepeats failing i later fatal
    cases result : outcomes.result i with
    | sent count fits =>
        rw [result] at fatal
        exact fatal.elim
    | fail errno =>
        rw [result] at fatal
        rw [SendOutcomes.leaves_of_fail result]
        exact fatal.1
  refine ⟨_, ?_, i + 1, Nat.le_succ_of_le later, sent.sendDone⟩
  rw [sent.step answers, if_neg again]

/-! ## `Sender` -/

theorem Channel.sender_of_ends {last : State}
    (ends : Ends (Channel.sendStep k id) st last)
    (owner : (last.heap id).owner = .reactor) :
    ∃ fuel, Channel.sender k fuel id st = some
      (enableReadWrite k (last.heap id).sockfd true
        (!(last.heap id).outbuffer.isEmpty) last) := by
  obtain ⟨fuel, ran⟩ := ends.exists_run
  exact ⟨fuel, by simp [Channel.sender, ran, owner]⟩

theorem Channel.ends_of_sender {fuel : Nat} {after : State}
    (returned : Channel.sender k fuel id st = some after) :
    ∃ last, Ends (Channel.sendStep k id) st last := by
  obtain ⟨last, ran, -⟩ := Option.bind_eq_some_iff.mp returned
  exact ⟨last, ends_of_run _ _ _ _ ran⟩

/-- `Sender` settles exactly when its loop is left before a send fails fatally. -/
theorem settles_iff (owner : (st.heap id).owner = .reactor)
    (answers : k.Answers (st.heap id).sockfd st outcomes) :
    SenderSettles k id st ↔ ∀ i, (outcomes.result i).Fatal →
      ∃ j, j < i ∧ outcomes.Leaves (st.heap id).outbuffer.length j := by
  constructor
  · intro settles i fatal
    by_contra never
    have stays : ∀ j, j < i → ¬ outcomes.Leaves (st.heap id).outbuffer.length j :=
      fun j small leaves => never ⟨j, small, leaves⟩
    obtain ⟨fuel, after, -, returned, -⟩ := settles
    obtain ⟨last, ends⟩ := Channel.ends_of_sender returned
    exact not_ends_of_fatal answers fatal stays last ends
  · intro calm
    -- the loop is left with the first outcome that leaves it
    have leaves := SendOutcomes.exists_leaves calm
    have stays : ∀ i, i < Nat.find leaves →
        ¬ outcomes.Leaves (st.heap id).outbuffer.length i :=
      fun i small => Nat.find_min leaves small
    obtain ⟨last, ends, sent⟩ := ends_of_leaves answers (Nat.find_spec leaves) stays
    obtain ⟨fuel, returned⟩ :=
      Channel.sender_of_ends ends (sent.owner.trans owner)
    obtain ⟨events, trace, -, results⟩ := sent.trace
    obtain ⟨rest, trace', ctl⟩ := enableReadWrite_trace k last (last.heap id).sockfd
      true (!(last.heap id).outbuffer.isEmpty)
    rw [trace, List.append_assoc] at trace'
    refine ⟨fuel, _, _, returned, trace', ?_⟩
    intro data result member fatal
    rcases List.mem_append.mp member with made | late
    · obtain ⟨i, made, rfl⟩ := results _ data result made
      obtain ⟨j, earlier, left⟩ := calm i fatal
      exact absurd left (stays j (by omega))
    · rcases List.mem_cons.mp late with same | member
      · cases same
      · obtain ⟨op, ok, same⟩ := ctl _ member
        cases same

/-- The client's channel has nothing to send when `Sender` is called for it, as it
is for `EPOLLERR`. -/
def sendingKernel (result : SendResult) : Kernel :=
  { Kernel.scripted [[(3, epollIn)]] [7] [] [] with send := fun _ _ _ => result }

theorem sendingKernel_run (result : SendResult) :
    ∃ st, Reachable (sendingKernel result) 3 silentHandler .waiting st ∧
      st.connections.lookup 7 = some 1 ∧ (st.heap 1).owner = .reactor ∧
      (st.heap 1).outbuffer = [] := by
  have check : (loop (sendingKernel result) 3 1
      (boot (sendingKernel result) 3 silentHandler)).any (fun st =>
        decide (st.connections.lookup 7 = some 1 ∧ (st.heap 1).owner = .reactor ∧
          (st.heap 1).outbuffer = [])) = true := by
    rfl
  obtain ⟨st, ran, check⟩ := Option.any_eq_true _ _ |>.mp check
  exact ⟨st, reachable_loop ran, of_decide_eq_true check⟩

def nothingSent : SendOutcomes where
  result _ := .sent 0 (by decide)
  interruptsEnd i := ⟨i, Nat.le_refl i, by simp⟩
  fatalRepeats _ _ _ fatal := fatal

theorem settles_iff_nothing_sent :
    ∃ k st, Reachable k 3 silentHandler .waiting st ∧
      st.connections.lookup 7 = some 1 ∧ SenderSettles k 1 st := by
  obtain ⟨st, reached, found, owner, empty⟩ :=
    sendingKernel_run (.sent 0 (by decide))
  have answers : (sendingKernel (.sent 0 (by decide))).Answers (st.heap 1).sockfd st
      nothingSent := fun _ _ _ _ => rfl
  refine ⟨_, st, reached, found, ?_⟩
  exact (settles_iff owner answers).mpr (fun i fatal => fatal.elim)

/-- The peer is gone: every `send` fails with `EPIPE`. -/
def brokenPipe : SendOutcomes where
  result _ := .fail epipe
  interruptsEnd i := ⟨i, Nat.le_refl i, by decide⟩
  fatalRepeats _ _ _ fatal := fatal

/-- `Sender` does not return there, although it had nothing to send. -/
theorem spins_on_broken_pipe :
    ∃ k st, Reachable k 3 silentHandler .waiting st ∧
      st.connections.lookup 7 = some 1 ∧ (st.heap 1).owner = .reactor ∧
      (st.heap 1).outbuffer = [] ∧ k.Answers (st.heap 1).sockfd st brokenPipe ∧
      ¬ SenderSettles k 1 st := by
  obtain ⟨st, reached, found, owner, empty⟩ := sendingKernel_run (.fail epipe)
  have answers : (sendingKernel (.fail epipe)).Answers (st.heap 1).sockfd st
      brokenPipe := fun _ _ _ _ => rfl
  refine ⟨_, st, reached, found, owner, empty, answers, ?_⟩
  intro settles
  obtain ⟨fuel, after, -, returned, -⟩ := settles
  obtain ⟨last, ends⟩ := Channel.ends_of_sender returned
  have fatal : (brokenPipe.result 0).Fatal := by
    change Fatal epipe
    decide
  exact not_ends_of_fatal answers fatal (fun i small => absurd small (Nat.not_lt_zero i))
    last ends

end LinuxSystemLearning.Reactor
