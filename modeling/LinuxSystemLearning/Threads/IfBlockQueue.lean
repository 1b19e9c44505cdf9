import LinuxSystemLearning.Threads.BlockQueue

/-!
# The blocking queue that tests once

The older `BlockQueue` tests `Isfull` and `Isempty` with an `if`.  A call that comes
back from `pthread_cond_wait` goes on without a second look, so it relies on nobody
having been faster, and on having been signalled at all.  The state and the events
are those of the version with the loops.
-/

set_option autoImplicit false

namespace LinuxSystemLearning.IfBlockQueue

open LinuxSystemLearning.Interleaving
open LinuxSystemLearning.Waiting
open BlockQueue (State Event start isFull isEmpty notify)

variable {τ : Type}

/-- `_q.push(in);` and what follows it. -/
def push (i : Nat) (value : τ) (woken : List Nat) (st : State τ) : Option (State τ) :=
  match notify st.csleepNum woken st.consumers with
  | none => none
  | some consumers => some { st with
      q := st.q ++ [value]
      producers := st.producers.set i (.awake ())
      consumers := consumers
      pushed := st.pushed ++ [value] }

/-- `T data = _q.front();` and what follows it. -/
def front (i : Nat) (woken : List Nat) (st : State τ) : Option (State τ) :=
  match st.q with
  | [] => some { st with frontOfEmpty := true }
  | data :: rest =>
      match notify st.psleepNum woken st.producers with
      | none => none
      | some producers => some { st with
          q := rest
          producers := producers
          consumers := st.consumers.set i (.awake ())
          popped := st.popped ++ [data] }

variable (cap : Nat)

def equeue (i : Nat) (value : τ) (woken : List Nat) (st : State τ) :
    Option (State τ) :=
  if isFull cap st then
    some { st with
      psleepNum := st.psleepNum + 1
      producers := st.producers.set i (.blocked value) }
  else push i value woken st

def pop (i : Nat) (woken : List Nat) (st : State τ) : Option (State τ) :=
  if isEmpty st then
    some { st with
      csleepNum := st.csleepNum + 1
      consumers := st.consumers.set i (.blocked ()) }
  else front i woken st

def step (st : State τ) : Event τ → Option (State τ)
  | .equeue i value woken =>
      match st.producers[i]? with
      | some (.awake _) => equeue cap i value woken st
      | _ => none
  | .equeueAgain i woken =>
      match st.producers[i]? with
      | some (.woken value) =>
          push i value woken { st with psleepNum := st.psleepNum - 1 }
      | _ => none
  | .pop i woken =>
      match st.consumers[i]? with
      | some (.awake _) => pop i woken st
      | _ => none
  | .popAgain i woken =>
      match st.consumers[i]? with
      | some (.woken _) => front i woken { st with csleepNum := st.csleepNum - 1 }
      | _ => none
  | .spuriousProducer i => some { st with producers := wakeAt st.producers i }
  | .spuriousConsumer i => some { st with consumers := wakeAt st.consumers i }

/-- Nothing was read off an empty queue, the capacity is kept, and the values come out
in the order in which they went in. -/
def Sound (st : State τ) : Prop :=
  st.frontOfEmpty = false ∧ st.q.length ≤ cap ∧ st.popped <+: st.pushed

/-- A call that has the mutex back finds what it waited for. -/
def FindsWaited (st : State τ) : Event τ → Prop
  | .equeueAgain _ _ => isFull cap st = false
  | .popAgain _ _ => isEmpty st = false
  | _ => True

/-! ## What a step does -/

structure Inv (st : State τ) : Prop where
  bounded : st.q.length ≤ cap
  ordered : st.pushed = st.popped ++ st.q
  front : st.frontOfEmpty = false

variable {cap}

theorem Inv.sound {st : State τ} (inv : Inv cap st) : Sound cap st :=
  ⟨inv.front, inv.bounded, st.q, inv.ordered.symm⟩

theorem push_eq {st after : State τ} {i : Nat} {value : τ} {woken : List Nat}
    (ran : push i value woken st = some after) :
    after.q = st.q ++ [value] ∧ after.pushed = st.pushed ++ [value] ∧
      after.popped = st.popped ∧ after.frontOfEmpty = st.frontOfEmpty := by
  unfold push at ran
  cases notified : notify st.csleepNum woken st.consumers with
  | none => simp [notified] at ran
  | some consumers =>
      rw [notified] at ran
      cases ran
      exact ⟨rfl, rfl, rfl, rfl⟩

theorem front_eq {st after : State τ} {i : Nat} {woken : List Nat}
    (ran : front i woken st = some after) :
    st.q = [] ∧ after.frontOfEmpty = true ∨
      ∃ data, st.q = data :: after.q ∧ after.popped = st.popped ++ [data] ∧
        after.pushed = st.pushed ∧ after.frontOfEmpty = st.frontOfEmpty := by
  unfold front at ran
  cases queue : st.q with
  | nil =>
      rw [queue] at ran
      cases ran
      exact .inl ⟨rfl, rfl⟩
  | cons data rest =>
      rw [queue] at ran
      dsimp only at ran
      cases notified : notify st.psleepNum woken st.producers with
      | none => simp [notified] at ran
      | some producers =>
          rw [notified] at ran
          cases ran
          exact .inr ⟨data, rfl, rfl, rfl, rfl⟩

theorem Inv.push {st after : State τ} {i : Nat} {value : τ} {woken : List Nat}
    (inv : Inv cap st) (room : isFull cap st = false)
    (ran : push i value woken st = some after) : Inv cap after := by
  obtain ⟨queue, pushed, popped, frontOfEmpty⟩ := push_eq ran
  have less : st.q.length < cap := by simpa [isFull] using room
  refine ⟨?_, ?_, frontOfEmpty.trans inv.front⟩
  · rw [queue, List.length_append, List.length_singleton]
    exact less
  · rw [pushed, popped, queue, inv.ordered, List.append_assoc]

theorem Inv.pop {st after : State τ} {i : Nat} {woken : List Nat} (inv : Inv cap st)
    (some_left : isEmpty st = false) (ran : IfBlockQueue.front i woken st = some after) :
    Inv cap after := by
  rcases front_eq ran with ⟨empty, -⟩ | ⟨data, queue, popped, pushed, frontOfEmpty⟩
  · rw [isEmpty, empty] at some_left
    cases some_left
  · have bounded := inv.bounded
    rw [queue, List.length_cons] at bounded
    refine ⟨Nat.le_of_succ_le bounded, ?_, frontOfEmpty.trans inv.front⟩
    rw [pushed, popped, inv.ordered, queue, List.append_assoc, List.singleton_append]

theorem Inv.step {st after : State τ} {event : Event τ} (inv : Inv cap st)
    (finds : FindsWaited cap st event) (stepped : step cap st event = some after) :
    Inv cap after := by
  cases event with
  | equeue i value woken =>
      simp only [IfBlockQueue.step] at stepped
      split at stepped
      · unfold equeue at stepped
        split at stepped
        · cases stepped
          exact ⟨inv.bounded, inv.ordered, inv.front⟩
        · rename_i room
          exact inv.push (by simpa using room) stepped
      · cases stepped
  | equeueAgain i woken =>
      simp only [IfBlockQueue.step] at stepped
      split at stepped
      · have before : Inv cap { st with psleepNum := st.psleepNum - 1 } :=
          ⟨inv.bounded, inv.ordered, inv.front⟩
        exact before.push finds stepped
      · cases stepped
  | pop i woken =>
      simp only [IfBlockQueue.step] at stepped
      split at stepped
      · unfold IfBlockQueue.pop at stepped
        split at stepped
        · cases stepped
          exact ⟨inv.bounded, inv.ordered, inv.front⟩
        · rename_i some_left
          exact inv.pop (by simpa using some_left) stepped
      · cases stepped
  | popAgain i woken =>
      simp only [IfBlockQueue.step] at stepped
      split at stepped
      · have before : Inv cap { st with csleepNum := st.csleepNum - 1 } :=
          ⟨inv.bounded, inv.ordered, inv.front⟩
        exact before.pop finds stepped
      · cases stepped
  | spuriousProducer i =>
      cases stepped
      exact ⟨inv.bounded, inv.ordered, inv.front⟩
  | spuriousConsumer i =>
      cases stepped
      exact ⟨inv.bounded, inv.ordered, inv.front⟩

/-- What was waited for is gone: the capacity is exceeded, or `front()` is called on an
empty queue. -/
theorem not_sound_of_gone {st after : State τ} {event : Event τ}
    (gone : ¬ FindsWaited cap st event) (stepped : step cap st event = some after) :
    ¬ Sound cap after := by
  intro sound
  cases event with
  | equeueAgain i woken =>
      simp only [step] at stepped
      split at stepped
      · obtain ⟨queue, -⟩ := push_eq stepped
        have full : cap ≤ st.q.length := by simpa [FindsWaited, isFull] using gone
        have bounded := sound.2.1
        rw [queue, List.length_append, List.length_singleton] at bounded
        exact absurd bounded (Nat.not_le.mpr (Nat.lt_succ_of_le full))
      · cases stepped
  | popAgain i woken =>
      simp only [step] at stepped
      split at stepped
      · have empty : st.q = [] := by simpa [FindsWaited, isEmpty] using gone
        rcases front_eq stepped with ⟨-, undefined⟩ | ⟨data, queue, -⟩
        · rw [sound.1] at undefined
          cases undefined
        · rw [empty] at queue
          cases queue
      · cases stepped
  | equeue _ _ _ => exact gone trivial
  | pop _ _ => exact gone trivial
  | spuriousProducer _ => exact gone trivial
  | spuriousConsumer _ => exact gone trivial

/-! ## Every interleaving -/

theorem inv_start (producerNum consumerNum : Nat) :
    Inv cap (start producerNum consumerNum : State τ) :=
  ⟨Nat.zero_le cap, rfl, rfl⟩

/-- The queue is sound in every state of a run exactly if every call that waited finds
what it waited for when it has the mutex back. -/
theorem sound_iff_finds_waited {producerNum consumerNum : Nat} {events : List (Event τ)}
    {last : State τ}
    (ran : play (step cap) (start producerNum consumerNum) events = some last) :
    Always (step cap) (Sound cap) (start producerNum consumerNum) events ↔
      Throughout (step cap) (FindsWaited cap) (start producerNum consumerNum) events :=
  always_iff_throughout (Inv cap) (fun _ inv => inv.sound)
    (fun _ _ _ inv finds stepped => inv.step finds stepped)
    (fun _ _ _ _ gone stepped => not_sound_of_gone gone stepped)
    (inv_start producerNum consumerNum) ran

/-- The consumer waits, is signalled and finds the value. -/
theorem sound_iff_finds_waited_handover :
    Always (step 1) (Sound 1) (start 1 1)
      [.pop 0 [], .equeue 0 7 [0], .popAgain 0 ([] : List Nat)] := by
  have ran : play (step 1) (start 1 1)
      [.pop 0 [], .equeue 0 7 [0], .popAgain 0 ([] : List Nat)] =
        some ⟨[], 0, 0, [.awake ()], [.awake ()], [7], [7], false⟩ := rfl
  refine (sound_iff_finds_waited ran).mpr ⟨trivial, ?_⟩
  rintro _ ⟨⟩
  refine ⟨trivial, ?_⟩
  rintro _ ⟨⟩
  exact ⟨rfl, fun _ _ => trivial⟩

/-- One consumer waits and is signalled; before it has the mutex back another one takes
the value. -/
theorem pops_empty_queue :
    let events : List (Event Nat) :=
      [.pop 0 [], .equeue 0 7 [0], .pop 1 [], .popAgain 0 []]
    (play (step 1) (start 1 2) events).isSome = true ∧
      ¬ Always (step 1) (Sound 1) (start 1 2) events := by
  intro events
  refine ⟨rfl, ?_⟩
  intro sound
  obtain ⟨last, ran, empty⟩ : ∃ last, play (step 1) (start 1 2) events = some last ∧
      last.frontOfEmpty = true := ⟨_, rfl, rfl⟩
  rw [(sound.last ran).1] at empty
  cases empty

end LinuxSystemLearning.IfBlockQueue
