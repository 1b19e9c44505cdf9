import LinuxSystemLearning.Library.Waiting

/-!
# The blocking queue

`BlockQueue` in the version with the `while` loops: `Equeue` waits on
`_full_cond` while the queue is full, `Pop` on `_empty_cond` while it is empty,
and each signals the other's condition only if its counter of sleepers is
positive.  A sleeper leaves the counter when it has the mutex again, not when it is
woken.
-/

set_option autoImplicit false

namespace LinuxSystemLearning.BlockQueue

open LinuxSystemLearning.Interleaving
open LinuxSystemLearning.Waiting

variable {τ : Type}

/-- A producer in `Equeue` keeps its argument while it waits.  `pushed` and `popped`
record the values in the order of the critical sections; `frontOfEmpty` says that
`front()` or `pop()` was called on an empty queue. -/
structure State (τ : Type) where
  q : List τ
  csleepNum : Int
  psleepNum : Int
  producers : List (Thread Unit τ)
  consumers : List (Thread Unit Unit)
  pushed : List τ
  popped : List τ
  frontOfEmpty : Bool

/-- A call gets the mutex, or gets it back behind a wait; `woken` are the waiters a
signal wakes. -/
inductive Event (τ : Type) where
  | equeue (i : Nat) (value : τ) (woken : List Nat)
  | equeueAgain (i : Nat) (woken : List Nat)
  | pop (i : Nat) (woken : List Nat)
  | popAgain (i : Nat) (woken : List Nat)
  | spuriousProducer (i : Nat)
  | spuriousConsumer (i : Nat)

def start (producerNum consumerNum : Nat) : State τ :=
  ⟨[], 0, 0, List.replicate producerNum (.awake ()),
    List.replicate consumerNum (.awake ()), [], [], false⟩

variable (cap : Nat)

def isFull (st : State τ) : Bool := cap ≤ st.q.length

def isEmpty (st : State τ) : Bool := st.q.isEmpty

def notify {β : Type} (num : Int) (woken : List Nat) (threads : List (Thread Unit β)) :
    Option (List (Thread Unit β)) :=
  if 0 < num then signal woken threads else some threads

/-- `Equeue` from the test of the loop on. -/
def equeue (i : Nat) (value : τ) (woken : List Nat) (st : State τ) :
    Option (State τ) :=
  if isFull cap st then
    some { st with
      psleepNum := st.psleepNum + 1
      producers := st.producers.set i (.blocked value) }
  else
    match notify st.csleepNum woken st.consumers with
    | none => none
    | some consumers => some { st with
        q := st.q ++ [value]
        producers := st.producers.set i (.awake ())
        consumers := consumers
        pushed := st.pushed ++ [value] }

/-- `Pop` from the test of the loop on. -/
def pop (i : Nat) (woken : List Nat) (st : State τ) : Option (State τ) :=
  if isEmpty st then
    some { st with
      csleepNum := st.csleepNum + 1
      consumers := st.consumers.set i (.blocked ()) }
  else
    match st.q with
    | [] => some { st with frontOfEmpty := true }
    | data :: rest =>
        match notify st.psleepNum woken st.producers with
        | none => none
        | some producers => some { st with
            q := rest
            producers := producers
            consumers := st.consumers.set i (.awake ())
            popped := st.popped ++ [data] }

def step (st : State τ) : Event τ → Option (State τ)
  | .equeue i value woken =>
      match st.producers[i]? with
      | some (.awake _) => equeue cap i value woken st
      | _ => none
  | .equeueAgain i woken =>
      match st.producers[i]? with
      | some (.woken value) =>
          equeue cap i value woken { st with psleepNum := st.psleepNum - 1 }
      | _ => none
  | .pop i woken =>
      match st.consumers[i]? with
      | some (.awake _) => pop i woken st
      | _ => none
  | .popAgain i woken =>
      match st.consumers[i]? with
      | some (.woken _) => pop i woken { st with csleepNum := st.csleepNum - 1 }
      | _ => none
  | .spuriousProducer i => some { st with producers := wakeAt st.producers i }
  | .spuriousConsumer i => some { st with consumers := wakeAt st.consumers i }

/-! ## What a step does -/

variable {cap}

inductive Stepped (cap : Nat) (st : State τ) : State τ → Prop where
  | full (i : Nat) (value : τ) (thread : Thread Unit τ)
      (found : st.producers[i]? = some thread) (full : cap ≤ st.q.length) :
      Stepped cap st { st with
        psleepNum := without st.psleepNum thread + 1
        producers := st.producers.set i (.blocked value) }
  | put (i : Nat) (value : τ) (woken : List Nat) (thread : Thread Unit τ)
      (consumers : List (Thread Unit Unit))
      (found : st.producers[i]? = some thread) (up : thread.isBlocked = false)
      (room : st.q.length < cap)
      (notified : notify st.csleepNum woken st.consumers = some consumers) :
      Stepped cap st { st with
        q := st.q ++ [value]
        psleepNum := without st.psleepNum thread
        producers := st.producers.set i (.awake ())
        consumers := consumers
        pushed := st.pushed ++ [value] }
  | empty (i : Nat) (thread : Thread Unit Unit)
      (found : st.consumers[i]? = some thread) (empty : st.q = []) :
      Stepped cap st { st with
        csleepNum := without st.csleepNum thread + 1
        consumers := st.consumers.set i (.blocked ()) }
  | get (i : Nat) (data : τ) (rest : List τ) (woken : List Nat)
      (thread : Thread Unit Unit) (producers : List (Thread Unit τ))
      (found : st.consumers[i]? = some thread) (up : thread.isBlocked = false)
      (front : st.q = data :: rest)
      (notified : notify st.psleepNum woken st.producers = some producers) :
      Stepped cap st { st with
        q := rest
        csleepNum := without st.csleepNum thread
        producers := producers
        consumers := st.consumers.set i (.awake ())
        popped := st.popped ++ [data] }
  | producerWoken (i : Nat) : Stepped cap st { st with producers := wakeAt st.producers i }
  | consumerWoken (i : Nat) : Stepped cap st { st with consumers := wakeAt st.consumers i }

theorem stepped_equeue {st after : State τ} {i : Nat} {value : τ} {woken : List Nat}
    {thread : Thread Unit τ} (found : st.producers[i]? = some thread)
    (up : thread.isBlocked = false)
    (ran : equeue cap i value woken
      { st with psleepNum := without st.psleepNum thread } = some after) :
    Stepped cap st after := by
  unfold equeue at ran
  by_cases full : cap ≤ st.q.length
  · rw [if_pos (by simpa [isFull] using full)] at ran
    cases ran
    exact .full i value thread found full
  · rw [if_neg (by simpa [isFull] using full)] at ran
    dsimp only at ran
    cases notified : notify st.csleepNum woken st.consumers with
    | none => simp [notified] at ran
    | some consumers =>
        rw [notified] at ran
        cases ran
        exact .put i value woken thread consumers found up (Nat.lt_of_not_le full)
          notified

theorem stepped_pop {st after : State τ} {i : Nat} {woken : List Nat}
    {thread : Thread Unit Unit} (found : st.consumers[i]? = some thread)
    (up : thread.isBlocked = false)
    (ran : pop i woken { st with csleepNum := without st.csleepNum thread } =
      some after) : Stepped cap st after := by
  unfold pop isEmpty at ran
  cases front : st.q with
  | nil =>
      simp only [front, List.isEmpty_nil, if_true, Option.some.injEq] at ran
      subst ran
      have stepped : Stepped cap st _ := .empty i thread found front
      rw [front] at stepped
      exact stepped
  | cons data rest =>
      simp only [front, List.isEmpty_cons, Bool.false_eq_true, if_false] at ran
      cases notified : notify st.psleepNum woken st.producers with
      | none => simp [notified] at ran
      | some producers =>
          rw [notified] at ran
          cases ran
          exact .get i data rest woken thread producers found up front notified

theorem stepped_of_step {st after : State τ} {event : Event τ}
    (stepped : step cap st event = some after) : Stepped cap st after := by
  cases event with
  | equeue i value woken =>
      simp only [step] at stepped
      split at stepped
      · rename_i found
        apply stepped_equeue found rfl
        simpa [without] using stepped
      · cases stepped
  | equeueAgain i woken =>
      simp only [step] at stepped
      split at stepped
      · rename_i value found
        exact stepped_equeue found rfl stepped
      · cases stepped
  | pop i woken =>
      simp only [step] at stepped
      split at stepped
      · rename_i found
        apply stepped_pop found rfl
        simpa [without] using stepped
      · cases stepped
  | popAgain i woken =>
      simp only [step] at stepped
      split at stepped
      · rename_i found
        exact stepped_pop found rfl stepped
      · cases stepped
  | spuriousProducer i =>
      cases stepped
      exact .producerWoken i
  | spuriousConsumer i =>
      cases stepped
      exact .consumerWoken i

/-! ## The counters of sleepers -/

section Notify

variable {β : Type} {num : Int} {threads after : List (Thread Unit β)}
  {woken : List Nat}

theorem wakes_of_notify (notified : notify num woken threads = some after) :
    Wakes threads after := by
  unfold notify at notified
  split at notified
  · exact (wakes_of_signal notified).1
  · cases notified
    exact Wakes.refl threads

theorem waiting_of_notify (counted : num = waiting threads)
    (notified : notify num woken threads = some after) : num = waiting after := by
  rw [(wakes_of_notify notified).waiting_eq]
  exact counted

/-- The signal is left out only when nobody waits. -/
theorem move_notify {items : Nat} (counted : num = waiting threads)
    (notified : notify num woken threads = some after) :
    Supply.Move (supplyOf (fun _ => false) items threads)
      (supplyOf (fun _ => false) (items + 1) after) := by
  unfold notify at notified
  split at notified
  · exact Supply.move_signal notified
  · rename_i nobody
    cases notified
    have inside := asleep_add_stirring threads
    refine .supply rfl rfl (.inr ?_)
    simp only [supplyOf]
    omega

end Notify

/-! ## The invariant -/

/-- The values in the queue and the consumers that can take them. -/
def items (st : State τ) : Supply :=
  supplyOf (fun _ => false) st.q.length st.consumers

/-- The free places of the queue and the producers that can fill them. -/
def places (cap : Nat) (st : State τ) : Supply :=
  supplyOf (fun _ => false) (cap - st.q.length) st.producers

structure Inv (cap : Nat) (st : State τ) : Prop where
  bounded : st.q.length ≤ cap
  ordered : st.pushed = st.popped ++ st.q
  front : st.frontOfEmpty = false
  csleepNum : st.csleepNum = waiting st.consumers
  psleepNum : st.psleepNum = waiting st.producers
  items : (items st).Covered
  places : (places cap st).Covered

theorem items_move {st after : State τ} (inv : Inv cap st)
    (stepped : Stepped cap st after) : Supply.Move (items st) (items after) := by
  cases stepped with
  | full i value thread _ _ => exact Supply.move_wakes (Wakes.refl st.consumers)
  | put i value woken thread consumers _ _ _ notified =>
      unfold items
      rw [List.length_append, List.length_singleton]
      exact move_notify inv.csleepNum notified
  | empty i thread _ empty => exact .sleep (by simp [items, supplyOf, empty])
  | get i data rest woken thread producers found up front _ =>
      unfold items
      rw [front, List.length_cons]
      exact Supply.move_take found up
  | producerWoken i => exact Supply.move_wakes (Wakes.refl st.consumers)
  | consumerWoken i => exact Supply.move_wakes (wakes_wakeAt st.consumers i)

theorem places_move {st after : State τ} (inv : Inv cap st)
    (stepped : Stepped cap st after) :
    Supply.Move (places cap st) (places cap after) := by
  cases stepped with
  | full i value thread _ full => exact .sleep (Nat.sub_eq_zero_of_le full)
  | put i value woken thread consumers found up room _ =>
      have fewer : cap - st.q.length = cap - (st.q ++ [value]).length + 1 := by
        rw [List.length_append, List.length_singleton]
        omega
      unfold places
      rw [fewer]
      exact Supply.move_take found up
  | empty i thread _ _ => exact Supply.move_wakes (Wakes.refl st.producers)
  | get i data rest woken thread producers _ _ front notified =>
      have bounded := inv.bounded
      have more : cap - rest.length = cap - st.q.length + 1 := by
        rw [front, List.length_cons] at bounded ⊢
        omega
      unfold places
      dsimp only
      rw [more]
      exact move_notify inv.psleepNum notified
  | producerWoken i => exact Supply.move_wakes (wakes_wakeAt st.producers i)
  | consumerWoken i => exact Supply.move_wakes (Wakes.refl st.producers)

theorem Inv.stepped {st after : State τ} (inv : Inv cap st)
    (stepped : Stepped cap st after) : Inv cap after := by
  have items := inv.items.move (items_move inv stepped)
  have places := inv.places.move (places_move inv stepped)
  cases stepped with
  | full i value thread found _ =>
      exact ⟨inv.bounded, inv.ordered, inv.front, inv.csleepNum,
        waiting_set inv.psleepNum found (.blocked value), items, places⟩
  | put i value woken thread consumers found _ room notified =>
      refine ⟨?_, ?_, inv.front, waiting_of_notify inv.csleepNum notified, ?_, items,
        places⟩
      · rw [List.length_append, List.length_singleton]
        exact room
      · rw [inv.ordered, List.append_assoc]
      · simpa using waiting_set inv.psleepNum found (.awake ())
  | empty i thread found _ =>
      exact ⟨inv.bounded, inv.ordered, inv.front,
        waiting_set inv.csleepNum found (.blocked ()), inv.psleepNum, items, places⟩
  | get i data rest woken thread producers found _ front notified =>
      have bounded := inv.bounded
      rw [front, List.length_cons] at bounded
      refine ⟨Nat.le_of_succ_le bounded, ?_, inv.front, ?_,
        waiting_of_notify inv.psleepNum notified, items, places⟩
      · rw [inv.ordered, front, List.append_assoc, List.singleton_append]
      · simpa using waiting_set inv.csleepNum found (.awake ())
  | producerWoken i =>
      have counted := (wakes_wakeAt st.producers i).waiting_eq
      exact ⟨inv.bounded, inv.ordered, inv.front, inv.csleepNum,
        by rw [counted]; exact inv.psleepNum, items, places⟩
  | consumerWoken i =>
      have counted := (wakes_wakeAt st.consumers i).waiting_eq
      exact ⟨inv.bounded, inv.ordered, inv.front,
        by rw [counted]; exact inv.csleepNum, inv.psleepNum, items, places⟩

/-! ## Every interleaving -/

theorem waiting_start {β : Type} (num : Nat) :
    waiting (List.replicate num (.awake () : Thread Unit β)) = 0 := by
  simp [waiting, List.countP_replicate]

theorem asleep_start {β : Type} (num : Nat) :
    asleep (List.replicate num (.awake () : Thread Unit β)) = 0 := by
  simp [asleep, List.countP_replicate]

theorem inv_start (producerNum consumerNum : Nat) :
    Inv cap (start producerNum consumerNum : State τ) where
  bounded := Nat.zero_le cap
  ordered := rfl
  front := rfl
  csleepNum := by simp [start, waiting_start]
  psleepNum := by simp [start, waiting_start]
  items _ := Nat.zero_le _
  places sleeps := by
    have nobody : asleep (start producerNum consumerNum : State τ).producers = 0 :=
      asleep_start producerNum
    simp [places, supplyOf, nobody] at sleeps

theorem reachable_inv {producerNum consumerNum : Nat} {st : State τ}
    (reached : Reachable (step cap) (start producerNum consumerNum) st) :
    Inv cap st := by
  refine reached.invariant (Inv cap) ?_ (inv_start producerNum consumerNum)
  intro st event after inv stepped
  exact inv.stepped (stepped_of_step stepped)

/-- The queue stays within its capacity and in order, nothing is read off an empty
queue, and no wakeup is lost on either side: next to a consumer that sleeps there
are as many woken ones as values, next to a producer that sleeps as many woken
ones as free places. -/
theorem bounded_in_order_and_awaited {producerNum consumerNum : Nat} {st : State τ}
    (reached : Reachable (step cap) (start producerNum consumerNum) st) :
    st.q.length ≤ cap ∧ st.frontOfEmpty = false ∧ st.popped <+: st.pushed ∧
      (0 < asleep st.consumers → st.q.length ≤ stirring st.consumers) ∧
      (0 < asleep st.producers → cap - st.q.length ≤ stirring st.producers) := by
  have inv := reachable_inv reached
  exact ⟨inv.bounded, inv.front, ⟨st.q, inv.ordered.symm⟩, inv.items, inv.places⟩

/-- Two consumers went to sleep; one is woken for the value that fills the queue, and
the other producer sleeps. -/
theorem bounded_in_order_and_awaited_full :
    ∃ st : State Nat, Reachable (step 1) (start 2 2) st ∧
      asleep st.consumers = 1 ∧ asleep st.producers = 1 ∧ st.q.length = 1 ∧
      st.q.length ≤ stirring st.consumers := by
  have reached : Reachable (step 1) (start 2 2)
      (⟨[7], 2, 1, [.awake (), .blocked 8], [.woken (), .blocked ()], [7], [],
        false⟩ : State Nat) :=
    ⟨[.pop 0 [], .pop 1 [], .equeue 0 7 [0], .equeue 1 8 []], rfl⟩
  exact ⟨_, reached, rfl, rfl, rfl,
    (bounded_in_order_and_awaited reached).2.2.2.1 Nat.zero_lt_one⟩

end LinuxSystemLearning.BlockQueue
