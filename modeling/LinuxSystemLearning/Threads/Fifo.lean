import LinuxSystemLearning.Library.BoundedFifo
import LinuxSystemLearning.Threads.BlockQueue
import LinuxSystemLearning.Threads.HttpPool
import LinuxSystemLearning.Threads.RingQueue

/-!
# Three queues and one

The blocking queue with its condition variables, the ring queue with its semaphores and the
queue of the HTTP server's pool are all the same to those who use them: whatever the threads
do, each is at every moment where the bounded queue can be.
-/

set_option autoImplicit false

namespace LinuxSystemLearning.BoundedFifo

open LinuxSystemLearning.Interleaving

variable {τ : Type}

/-! ## The blocking queue -/

def ofBlockQueue (st : BlockQueue.State τ) : Fifo τ := ⟨st.q, st.pushed, st.popped⟩

theorem blockQueue_step {cap : Nat} {st after : BlockQueue.State τ}
    (reached : Reachable (step (some cap)) empty (ofBlockQueue st))
    (stepped : BlockQueue.Stepped cap st after) :
    Reachable (step (some cap)) empty (ofBlockQueue after) := by
  cases stepped with
  | put i value woken thread consumers found up room notified =>
      refine reachable_put reached ?_ value
      intro size bound
      cases bound
      exact room
  | get i data rest woken thread producers found up front notified =>
      exact reachable_get reached front
  | full => exact reached
  | empty => exact reached
  | producerWoken => exact reached
  | consumerWoken => exact reached

/-! ## The ring queue -/

/-- A step writes a value, reads one, or leaves both alone. -/
theorem ringQueue_cases [Inhabited τ] {cap : Nat} {st after : RingQueue.State τ}
    {event : RingQueue.Event τ} (stepped : RingQueue.step cap st event = some after) :
    (after.written = st.written ∧ after.read = st.read) ∨
      (∃ value, after.written = st.written ++ [value] ∧ after.read = st.read) ∨
      ∃ value, after.written = st.written ∧ after.read = st.read ++ [value] := by
  cases event with
  | equeue i value =>
      rw [RingQueue.step, RingQueue.equeue] at stepped
      split at stepped
      · cases stepped
      · split at stepped
        · cases stepped
        · cases stepped
          exact .inl ⟨rfl, rfl⟩
  | producer i =>
      rw [RingQueue.step, RingQueue.producer] at stepped
      split at stepped
      · cases stepped
      · cases stepped
        exact .inl ⟨rfl, rfl⟩
      · rename_i value _
        cases stepped
        exact .inr (.inl ⟨value, rfl, rfl⟩)
      · cases stepped
        exact .inl ⟨rfl, rfl⟩
  | pop i =>
      rw [RingQueue.step, RingQueue.pop] at stepped
      split at stepped
      · cases stepped
      · split at stepped
        · cases stepped
        · cases stepped
          exact .inl ⟨rfl, rfl⟩
  | consumer i =>
      rw [RingQueue.step, RingQueue.consumer] at stepped
      split at stepped
      · cases stepped
      · cases stepped
        exact .inl ⟨rfl, rfl⟩
      · cases stepped
        exact .inr (.inr ⟨_, rfl, rfl⟩)
      · cases stepped
        exact .inl ⟨rfl, rfl⟩

/-- What is inside is what was written and not read yet. -/
def ofRingQueue (st : RingQueue.State τ) : Fifo τ :=
  ⟨st.written.drop st.read.length, st.written, st.read⟩

theorem ringQueue_step [Inhabited τ] {cap : Nat} {st after : RingQueue.State τ}
    {event : RingQueue.Event τ} (inv : RingQueue.Inv cap st)
    (reached : Reachable (step (some cap)) empty (ofRingQueue st))
    (stepped : RingQueue.step cap st event = some after) :
    Reachable (step (some cap)) empty (ofRingQueue after) := by
  have inv' := inv.step stepped
  unfold ofRingQueue
  rcases ringQueue_cases stepped with ⟨written, read⟩ | ⟨value, written, read⟩ |
    ⟨value, written, read⟩
  · rw [written, read]
    exact reached
  · have room : HasRoom (some cap) (ofRingQueue st) := by
      intro size bound
      cases bound
      have blank := inv'.blank
      have before := inv.ordered.length_le
      rw [written, read, List.length_append, List.length_singleton] at blank
      show (st.written.drop st.read.length).length < cap
      rw [List.length_drop]
      omega
    rw [written, read, List.drop_append_of_le_length inv.ordered.length_le]
    exact reachable_put reached room value
  · have ordered := inv'.ordered
    rw [written, read] at ordered
    obtain ⟨rest, split⟩ := ordered
    have front : st.written.drop st.read.length = value :: rest := by
      rw [← split, List.append_assoc, List.drop_left]
      rfl
    have behind : st.written.drop (st.read ++ [value]).length = rest := by
      rw [← split, List.drop_left]
    rw [written, read, behind]
    exact reachable_get reached front

/-! ## The queue of the pool -/

def ofHttpPool (st : HttpPool.State τ) : Fifo τ := ⟨st.q, st.pushed, st.dequeued.map Prod.snd⟩

theorem httpPool_step {st after : HttpPool.State τ} {event : HttpPool.Event τ}
    (reached : Reachable (step none) empty (ofHttpPool st))
    (stepped : HttpPool.Stepped st event after) :
    Reachable (step none) empty (ofHttpPool after) := by
  cases stepped with
  | push task woken threads signalled =>
      refine reachable_put reached ?_ task
      intro size bound
      cases bound
  | take i thread found enters task rest front =>
      have taken := reachable_get reached (show (ofHttpPool st).inside = task :: rest from front)
      unfold ofHttpPool
      rw [List.map_append]
      exact taken
  | wait => exact reached
  | finish => exact reached
  | spurious => exact reached

/-! ## Every interleaving -/

/-- The values that the ring queue has inside stand in its slots, from the one on that the
next `Pop` reads, and no two of them in one slot. -/
structure InSlots (cap : Nat) (st : RingQueue.State τ) : Prop where
  fifo : Reachable (step (some cap)) empty (ofRingQueue st)
  apart : (ofRingQueue st).inside.length ≤ cap
  slots : ∀ k value, (ofRingQueue st).inside[k]? = some value →
    st.rq[(st.read.length + k) % cap]? = some value

theorem inSlots_of_reachable [Inhabited τ] {cap producerNum consumerNum : Nat}
    (positive : 0 < cap) {st : RingQueue.State τ}
    (reached : Reachable (RingQueue.step cap) (RingQueue.start cap producerNum consumerNum) st) :
    InSlots cap st := by
  have both := reached.invariant
    (fun st => RingQueue.Inv cap st ∧ Reachable (step (some cap)) empty (ofRingQueue st))
    (fun _ _ _ held stepped => ⟨held.1.step stepped, ringQueue_step held.1 held.2 stepped⟩)
    ⟨RingQueue.inv_start positive, ⟨[], rfl⟩⟩
  refine ⟨both.2, (reachable_inv both.2).bounded cap rfl, ?_⟩
  intro k value here
  have there : st.written[st.read.length + k]? = some value := by
    rw [← List.getElem?_drop]
    exact here
  rw [both.1.holds _ (Nat.le_add_right _ _) (List.getElem?_eq_some_iff.mp there).1]
  exact there

/-- Whatever the order in which any number of threads take their steps, the blocking queue and
the ring queue are where a queue of their capacity can be, and the queue of the pool is where
one without a bound can be. -/
theorem queues_refine [Inhabited τ] {cap : Nat} (positive : 0 < cap)
    (producerNum consumerNum threadNum : Nat) :
    (∀ st : BlockQueue.State τ,
      Reachable (BlockQueue.step cap) (BlockQueue.start producerNum consumerNum) st →
        Reachable (step (some cap)) empty (ofBlockQueue st)) ∧
      (∀ st : RingQueue.State τ,
        Reachable (RingQueue.step cap) (RingQueue.start cap producerNum consumerNum) st →
          InSlots cap st) ∧
      ∀ st : HttpPool.State τ, Reachable HttpPool.step (HttpPool.start threadNum) st →
        Reachable (step none) empty (ofHttpPool st) := by
  refine ⟨?_, fun st reached => inSlots_of_reachable positive reached, ?_⟩
  · intro st reached
    exact reached.invariant
      (fun st => Reachable (step (some cap)) empty (ofBlockQueue st))
      (fun _ _ _ held stepped => blockQueue_step held (BlockQueue.stepped_of_step stepped))
      ⟨[], rfl⟩
  · intro st reached
    exact reached.invariant
      (fun st => Reachable (step none) empty (ofHttpPool st))
      (fun _ _ _ held stepped => httpPool_step held (HttpPool.stepped_of_step stepped))
      ⟨[], rfl⟩

/-- One slot with a value in it, and a producer about to move the index on. -/
theorem queues_refine_one_slot : ∃ st : RingQueue.State Nat, st.rq = [7] ∧ InSlots 1 st := by
  have reached : Reachable (RingQueue.step 1) (RingQueue.start 1 1 1 : RingQueue.State Nat) _ :=
    ⟨[.equeue 0 7, .producer 0, .producer 0], rfl⟩
  exact ⟨_, rfl, (queues_refine Nat.one_pos 1 1 1).2.1 _ reached⟩

end LinuxSystemLearning.BoundedFifo
