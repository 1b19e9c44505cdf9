import LinuxSystemLearning.Library.Turnstile
import Mathlib.Order.Interval.Finset.Nat

/-!
# The ring queue on two semaphores

`Equeue` and `Pop` of `RingQueue`.  Each takes its semaphore, then its own mutex, uses
the slot of `_rq` its index points to, moves the index on, gives the mutex back and
posts the other semaphore.  The producers have `_p_mutex` and the consumers `_c_mutex`,
so a write and a read can overlap.

`written` and `read` are the values that went into `_rq` and came out of it so far, and
`unread` marks the slots with a value that no consumer has read; nothing in the program
looks at them.
-/

set_option autoImplicit false

namespace LinuxSystemLearning.RingQueue

open LinuxSystemLearning.Interleaving
open LinuxSystemLearning.Turnstile

variable {τ : Type}

structure State (τ : Type) where
  rq : List τ
  blankSem : Nat
  dataSem : Nat
  /-- `_p_step`, `_p_mutex` and the calls of `Equeue`. -/
  producers : Side τ Unit
  /-- `_c_step`, `_c_mutex` and the calls of `Pop`. -/
  consumers : Side Unit τ
  written : List τ
  read : List τ
  unread : List Bool

inductive Event (τ : Type) where
  /-- The thread calls `Equeue` and is through `_blank_sem.P()`. -/
  | equeue (i : Nat) (value : τ)
  | producer (i : Nat)
  /-- The thread calls `Pop` and is through `_data_sem.P()`. -/
  | pop (i : Nat)
  | consumer (i : Nat)

section

variable [Inhabited τ] (cap : Nat)

def start (producerNum consumerNum : Nat) : State τ where
  rq := List.replicate cap default
  blankSem := cap
  dataSem := 0
  producers := .start producerNum
  consumers := .start consumerNum
  written := []
  read := []
  unread := List.replicate cap false

def equeue (i : Nat) (value : τ) (st : State τ) : Option (State τ) :=
  if st.blankSem = 0 then none
  else match st.producers.enter i value with
    | none => none
    | some producers => some { st with
        blankSem := st.blankSem - 1
        producers := producers }

def pop (i : Nat) (st : State τ) : Option (State τ) :=
  if st.dataSem = 0 then none
  else match st.consumers.enter i () with
    | none => none
    | some consumers => some { st with
        dataSem := st.dataSem - 1
        consumers := consumers }

def write (value : τ) (st : State τ) : State τ :=
  { st with
    rq := st.rq.set st.producers.index value
    written := st.written ++ [value]
    unread := st.unread.set st.producers.index true }

def readSlot (st : State τ) : State τ :=
  { st with
    read := st.read ++ [st.rq.getD st.consumers.index default]
    unread := st.unread.set st.consumers.index false }

def producer (i : Nat) (st : State τ) : Option (State τ) :=
  match st.producers.next cap (fun _ _ => ()) i with
  | none => none
  | some (producers, .silent) => some { st with producers := producers }
  | some (producers, .access value) => some { write value st with producers := producers }
  | some (producers, .post) => some { st with
      producers := producers
      dataSem := st.dataSem + 1 }

def consumer (i : Nat) (st : State τ) : Option (State τ) :=
  match st.consumers.next cap (fun slot _ => st.rq.getD slot default) i with
  | none => none
  | some (consumers, .silent) => some { st with consumers := consumers }
  | some (consumers, .access _) => some { readSlot st with consumers := consumers }
  | some (consumers, .post) => some { st with
      consumers := consumers
      blankSem := st.blankSem + 1 }

def step (st : State τ) : Event τ → Option (State τ)
  | .equeue i value => equeue i value st
  | .producer i => producer cap i st
  | .pop i => pop i st
  | .consumer i => consumer cap i st

end

/-- The values come out as they went in; who is about to write finds the slot read, who
is about to read finds it written; no slot is used from both sides at once. -/
structure Sound (st : State τ) : Prop where
  ordered : st.read <+: st.written
  writesRead : ∀ (i : Nat) (value : τ),
    st.producers.calls[i]? = some (.locked value) →
      st.unread[st.producers.index]? = some false
  readsWritten : ∀ i : Nat, st.consumers.calls[i]? = some (.locked ()) →
    st.unread[st.consumers.index]? = some true
  apart : ∀ i j slot : Nat, st.producers.touches i = some slot →
    st.consumers.touches j ≠ some slot

/-! ## The slots in use -/

/-- The values written and not yet read stand in their slots, each token of a semaphore
is in the semaphore or with a thread. -/
structure Inv (cap : Nat) (st : State τ) : Prop where
  producers : st.producers.Inv cap st.written.length
  consumers : st.consumers.Inv cap st.read.length
  blank : st.blankSem + st.producers.pending + st.written.length +
    st.consumers.posting = cap + st.read.length
  data : st.dataSem + st.consumers.pending + st.producers.posting +
    st.read.length = st.written.length
  ordered : st.read <+: st.written
  size : st.rq.length = cap
  marks : st.unread.length = cap
  holds : ∀ k, st.read.length ≤ k → k < st.written.length →
    st.rq[k % cap]? = st.written[k]?
  unread : ∀ slot, st.unread[slot]? = some true ↔
    ∃ k, st.read.length ≤ k ∧ k < st.written.length ∧ k % cap = slot

/-- Less than a round apart, two positions have two slots. -/
theorem slots_ne {cap a b : Nat} (less : a < b) (near : b < a + cap) :
    a % cap ≠ b % cap := by
  intro same
  have equal := Nat.mod_injOn_Ico a cap
    (Finset.mem_coe.mpr (Finset.mem_Ico.mpr ⟨Nat.le_refl a, less.trans near⟩))
    (Finset.mem_coe.mpr (Finset.mem_Ico.mpr ⟨less.le, near⟩)) same
  exact absurd equal less.ne

theorem prefix_concat_of_next {front whole : List τ} {value : τ} (before : front <+: whole)
    (next : whole[front.length]? = some value) : front ++ [value] <+: whole := by
  obtain ⟨back, rfl⟩ := before
  rw [List.getElem?_append_right (Nat.le_refl _), Nat.sub_self] at next
  cases back with
  | nil => cases next
  | cons head back =>
      cases next
      exact ⟨back, List.append_assoc _ _ _⟩

theorem mark_of_not_unread {marks : List Bool} {slot : Nat} (inRange : slot < marks.length)
    (read : ¬ marks[slot]? = some true) : marks[slot]? = some false := by
  rw [List.getElem?_eq_getElem inRange] at read ⊢
  cases marked : marks[slot] with
  | false => rfl
  | true => exact absurd (congrArg some marked) read

variable {cap : Nat} {st : State τ}

theorem Inv.sound (inv : Inv cap st) : Sound st := by
  have blank := inv.blank
  have data := inv.data
  refine ⟨inv.ordered, ?_, ?_, ?_⟩
  · intro i value found
    have pending : 0 < st.producers.pending := Side.countP_pos_of_found found rfl
    apply mark_of_not_unread (inv.marks.symm ▸ inv.producers.inRange)
    rw [inv.unread, inv.producers.index_of_locked found]
    intro held
    obtain ⟨k, unread, written, same⟩ := held
    exact slots_ne written (by omega) same
  · intro i found
    have pending : 0 < st.consumers.pending := Side.countP_pos_of_found found rfl
    rw [inv.unread, inv.consumers.index_of_locked found]
    exact ⟨st.read.length, Nat.le_refl _, by omega, rfl⟩
  · intro i j slot writes reads
    -- the producer is at the last value written or the next, the consumer likewise
    obtain ⟨here, pending⟩ | ⟨some_written, here, posting⟩ :=
      inv.producers.touches_cases writes
    · obtain ⟨there, pending'⟩ | ⟨some_read, there, posting'⟩ :=
        inv.consumers.touches_cases reads
      · exact slots_ne (by omega) (by omega) (there.symm.trans here)
      · exact slots_ne (by omega) (by omega) (there.symm.trans here)
    · obtain ⟨there, pending'⟩ | ⟨some_read, there, posting'⟩ :=
        inv.consumers.touches_cases reads
      · exact slots_ne (by omega) (by omega) (there.symm.trans here)
      · exact slots_ne (by omega) (by omega) (there.symm.trans here)

/-! ## What a step does -/

theorem Inv.write [Inhabited τ] (inv : Inv cap st) {value : τ} {producers : Side τ Unit}
    (turn : st.producers.index = st.written.length % cap)
    (moved : producers.Inv cap (st.written.length + 1))
    (pending : producers.pending + 1 = st.producers.pending)
    (posting : producers.posting = st.producers.posting + 1) :
    Inv cap { RingQueue.write value st with producers := producers } := by
  have blank := inv.blank
  have data := inv.data
  have inRange : st.written.length % cap < cap := turn ▸ inv.producers.inRange
  have longer : (st.written ++ [value]).length = st.written.length + 1 :=
    List.length_append
  refine ⟨longer ▸ moved, inv.consumers, ?_, ?_,
    inv.ordered.trans (List.prefix_append _ _), ?_, ?_, ?_, ?_⟩
  · show st.blankSem + producers.pending + (st.written ++ [value]).length +
      st.consumers.posting = cap + st.read.length
    omega
  · show st.dataSem + st.consumers.pending + producers.posting + st.read.length =
      (st.written ++ [value]).length
    omega
  · exact List.length_set.trans inv.size
  · exact List.length_set.trans inv.marks
  · intro k unread written
    show (st.rq.set st.producers.index value)[k % cap]? = (st.written ++ [value])[k]?
    rw [turn]
    rcases Nat.lt_succ_iff_lt_or_eq.mp (longer ▸ written) with older | last
    · have still : st.read.length ≤ k := unread
      rw [List.getElem?_set_ne (slots_ne older (by omega)).symm,
        List.getElem?_append_left older]
      exact inv.holds k unread older
    · rw [last, List.getElem?_set_self (inv.size.symm ▸ inRange),
        List.getElem?_append_right (Nat.le_refl _), Nat.sub_self]
      rfl
  · intro slot
    show (st.unread.set st.producers.index true)[slot]? = some true ↔
      ∃ k, st.read.length ≤ k ∧ k < (st.written ++ [value]).length ∧ k % cap = slot
    rw [turn, longer]
    by_cases here : st.written.length % cap = slot
    · rw [here, List.getElem?_set_self (by rw [inv.marks, ← here]; exact inRange)]
      exact ⟨fun _ => ⟨st.written.length, inv.ordered.length_le, Nat.lt_succ_self _, here⟩,
        fun _ => rfl⟩
    · rw [List.getElem?_set_ne here, inv.unread]
      constructor
      · intro held
        obtain ⟨k, unread, written, same⟩ := held
        exact ⟨k, unread, Nat.lt_succ_of_lt written, same⟩
      · intro held
        obtain ⟨k, unread, written, same⟩ := held
        rcases Nat.lt_succ_iff_lt_or_eq.mp written with older | last
        · exact ⟨k, unread, older, same⟩
        · rw [last] at same
          exact absurd same here

theorem Inv.readSlot [Inhabited τ] (inv : Inv cap st) {consumers : Side Unit τ}
    (turn : st.consumers.index = st.read.length % cap)
    (moved : consumers.Inv cap (st.read.length + 1))
    (pending : consumers.pending + 1 = st.consumers.pending)
    (posting : consumers.posting = st.consumers.posting + 1) :
    Inv cap { RingQueue.readSlot st with consumers := consumers } := by
  have blank := inv.blank
  have data := inv.data
  have more : st.read.length < st.written.length := by omega
  have inRange : st.read.length % cap < cap := turn ▸ inv.consumers.inRange
  have value : st.written[st.read.length]? = some (st.rq.getD st.consumers.index default) := by
    rw [← inv.holds _ (Nat.le_refl _) more, turn, List.getD_eq_getElem?_getD,
      List.getElem?_eq_getElem (inv.size.symm ▸ inRange)]
    rfl
  have longer : (st.read ++ [st.rq.getD st.consumers.index default]).length =
      st.read.length + 1 := List.length_append
  refine ⟨inv.producers, longer ▸ moved, ?_, ?_, prefix_concat_of_next inv.ordered value,
    inv.size, List.length_set.trans inv.marks, ?_, ?_⟩
  · show st.blankSem + st.producers.pending + st.written.length + consumers.posting =
      cap + (st.read ++ [st.rq.getD st.consumers.index default]).length
    omega
  · show st.dataSem + consumers.pending + st.producers.posting +
      (st.read ++ [st.rq.getD st.consumers.index default]).length = st.written.length
    omega
  · intro k unread written
    have later : (st.read ++ [st.rq.getD st.consumers.index default]).length ≤ k := unread
    exact inv.holds k (by omega) written
  · intro slot
    show (st.unread.set st.consumers.index false)[slot]? = some true ↔
      ∃ k, (st.read ++ [st.rq.getD st.consumers.index default]).length ≤ k ∧
        k < st.written.length ∧ k % cap = slot
    rw [longer, turn]
    by_cases here : st.read.length % cap = slot
    · rw [here, List.getElem?_set_self (by rw [inv.marks, ← here]; exact inRange)]
      constructor
      · intro marked
        cases marked
      · intro held
        obtain ⟨k, later, written, same⟩ := held
        exact absurd (here.trans same.symm) (slots_ne later (by omega))
    · rw [List.getElem?_set_ne here, inv.unread]
      constructor
      · intro held
        obtain ⟨k, unread, written, same⟩ := held
        rcases Nat.lt_or_eq_of_le unread with later | first
        · exact ⟨k, later, written, same⟩
        · rw [← first] at same
          exact absurd same here
      · intro held
        obtain ⟨k, later, written, same⟩ := held
        exact ⟨k, Nat.le_of_succ_le later, written, same⟩

section

variable {after : State τ} {i : Nat}

theorem Inv.equeue {value : τ} (inv : Inv cap st)
    (ran : RingQueue.equeue i value st = some after) : Inv cap after := by
  unfold RingQueue.equeue at ran
  split at ran
  · cases ran
  · rename_i positive
    split at ran
    · cases ran
    · rename_i producers entered
      cases ran
      obtain ⟨moved, pending, posting⟩ := inv.producers.enter_spec entered
      have blank := inv.blank
      have data := inv.data
      exact { inv with
        producers := moved
        blank := by dsimp only; omega
        data := by dsimp only; omega }

theorem Inv.pop (inv : Inv cap st) (ran : RingQueue.pop i st = some after) :
    Inv cap after := by
  unfold RingQueue.pop at ran
  split at ran
  · cases ran
  · rename_i positive
    split at ran
    · cases ran
    · rename_i consumers entered
      cases ran
      obtain ⟨moved, pending, posting⟩ := inv.consumers.enter_spec entered
      have blank := inv.blank
      have data := inv.data
      exact { inv with
        consumers := moved
        blank := by dsimp only; omega
        data := by dsimp only; omega }

variable [Inhabited τ]

theorem Inv.producer (inv : Inv cap st) (ran : RingQueue.producer cap i st = some after) :
    Inv cap after := by
  have blank := inv.blank
  have data := inv.data
  unfold RingQueue.producer at ran
  split at ran
  · cases ran
  · rename_i producers stepped
    cases ran
    obtain ⟨moved, pending, posting⟩ := inv.producers.next_spec stepped
    exact { inv with
      producers := moved
      blank := by dsimp only; omega
      data := by dsimp only; omega }
  · rename_i producers value stepped
    cases ran
    obtain ⟨-, turn, moved, pending, posting⟩ := inv.producers.next_spec stepped
    exact inv.write turn moved pending posting
  · rename_i producers stepped
    cases ran
    obtain ⟨moved, pending, posting⟩ := inv.producers.next_spec stepped
    exact { inv with
      producers := moved
      blank := by dsimp only; omega
      data := by dsimp only; omega }

theorem Inv.consumer (inv : Inv cap st) (ran : RingQueue.consumer cap i st = some after) :
    Inv cap after := by
  have blank := inv.blank
  have data := inv.data
  unfold RingQueue.consumer at ran
  split at ran
  · cases ran
  · rename_i consumers stepped
    cases ran
    obtain ⟨moved, pending, posting⟩ := inv.consumers.next_spec stepped
    exact { inv with
      consumers := moved
      blank := by dsimp only; omega
      data := by dsimp only; omega }
  · rename_i consumers arg stepped
    cases ran
    obtain ⟨-, turn, moved, pending, posting⟩ := inv.consumers.next_spec stepped
    exact inv.readSlot turn moved pending posting
  · rename_i consumers stepped
    cases ran
    obtain ⟨moved, pending, posting⟩ := inv.consumers.next_spec stepped
    exact { inv with
      consumers := moved
      blank := by dsimp only; omega
      data := by dsimp only; omega }

theorem Inv.step {event : Event τ} (inv : Inv cap st)
    (stepped : RingQueue.step cap st event = some after) : Inv cap after := by
  cases event with
  | equeue i value => exact inv.equeue stepped
  | producer i => exact inv.producer stepped
  | pop i => exact inv.pop stepped
  | consumer i => exact inv.consumer stepped

/-! ## Every interleaving -/

theorem inv_start {producerNum consumerNum : Nat} (positive : 0 < cap) :
    Inv cap (start cap producerNum consumerNum : State τ) := by
  refine ⟨Side.inv_start positive, Side.inv_start positive, ?_, ?_, List.prefix_refl _,
    List.length_replicate, List.length_replicate, ?_, ?_⟩
  · show cap + (Side.start producerNum : Side τ Unit).calls.countP Call.isPending + 0 +
      (Side.start consumerNum : Side Unit τ).calls.countP Call.isPosting = cap + 0
    rw [Side.countP_start rfl, Side.countP_start rfl]
  · show 0 + (Side.start consumerNum : Side Unit τ).calls.countP Call.isPending +
      (Side.start producerNum : Side τ Unit).calls.countP Call.isPosting + 0 = 0
    rw [Side.countP_start rfl, Side.countP_start rfl]
  · intro k _ written
    exact absurd written (Nat.not_lt_zero k)
  · intro slot
    constructor
    · intro marked
      have clear := List.mem_replicate.mp (List.mem_of_getElem? marked)
      exact absurd clear.2 (Bool.false_ne_true ∘ Eq.symm)
    · intro held
      obtain ⟨k, -, written, -⟩ := held
      exact absurd written (Nat.not_lt_zero k)

/-- Whatever the order in which any number of producers and consumers take their
steps, the queue is sound. -/
theorem ring_queue_sound {producerNum consumerNum : Nat} (positive : 0 < cap)
    (reached : Reachable (RingQueue.step cap) (start cap producerNum consumerNum) st) :
    Sound st :=
  (reached.invariant (Inv cap) (fun _ _ _ inv stepped => inv.step stepped)
    (inv_start positive)).sound

/-- One slot: a producer is through and a consumer has the value. -/
theorem ring_queue_sound_one_slot :
    ∃ st : State Nat, st.read = [7] ∧ Sound st := by
  have reached : Reachable (RingQueue.step 1) (start 1 1 1 : State Nat) _ :=
    ⟨[.equeue 0 7, .producer 0, .producer 0, .producer 0, .producer 0, .producer 0,
      .pop 0, .consumer 0, .consumer 0], rfl⟩
  exact ⟨_, rfl, ring_queue_sound Nat.one_pos reached⟩

end

end LinuxSystemLearning.RingQueue
