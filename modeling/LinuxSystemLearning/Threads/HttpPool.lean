import LinuxSystemLearning.Library.Waiting

/-!
# The thread pool of the HTTP server

`ThreadPool` of the session server: `Push` appends a task and signals, a worker
waits in `ThreadRun` while the queue is empty.  An event is one critical section,
from getting the mutex to giving it back or waiting, one wakeup, or the end of
a task.
-/

set_option autoImplicit false

namespace LinuxSystemLearning.HttpPool

open LinuxSystemLearning.Interleaving
open LinuxSystemLearning.Waiting

variable {τ : Type}

/-- A worker outside `pthread_cond_wait`: before the mutex, or in `t()`. -/
inductive Worker (τ : Type) where
  | locking
  | running (task : τ)
  deriving DecidableEq

/-- `pushed` and `dequeued` record the tasks in the order of the critical sections,
the latter with the worker that took them; `frontOfEmpty` says that `front()` or
`pop()` was called on an empty queue. -/
structure State (τ : Type) where
  q : List τ
  threads : List (Thread (Worker τ) Unit)
  pushed : List τ
  dequeued : List (Nat × τ)
  frontOfEmpty : Bool

/-- `woken` are the waiters a signal wakes. -/
inductive Event (τ : Type) where
  | push (task : τ) (woken : List Nat)
  | lock (i : Nat)
  | finish (i : Nat)
  | spurious (i : Nat)

def start (threadNum : Nat) : State τ :=
  ⟨[], List.replicate threadNum (.awake .locking), [], [], false⟩

/-- `ThreadWakeup` is `pthread_cond_signal`. -/
def threadWakeup (woken : List Nat) (st : State τ) : Option (State τ) :=
  match signal woken st.threads with
  | none => none
  | some threads => some { st with threads := threads }

def push (task : τ) (woken : List Nat) (st : State τ) : Option (State τ) :=
  threadWakeup woken { st with
    q := st.q ++ [task]
    pushed := st.pushed ++ [task] }

def threadWait (i : Nat) (st : State τ) : State τ :=
  { st with threads := st.threads.set i (.blocked ()) }

/-- The critical section of `ThreadRun` from the loop head on. -/
def threadRun (i : Nat) (st : State τ) : State τ :=
  if st.q.isEmpty then threadWait i st
  else
    match st.q with
    | [] => { st with frontOfEmpty := true }
    | task :: rest => { st with
        q := rest
        threads := st.threads.set i (.awake (.running task))
        dequeued := st.dequeued ++ [(i, task)] }

def step (st : State τ) : Event τ → Option (State τ)
  | .push task woken => push task woken st
  | .lock i =>
      match st.threads[i]? with
      | some (.awake .locking) => some (threadRun i st)
      | some (.woken _) => some (threadRun i st)
      | _ => none
  | .finish i =>
      match st.threads[i]? with
      | some (.awake (.running _)) =>
          some { st with threads := st.threads.set i (.awake .locking) }
      | _ => none
  | .spurious i => some { st with threads := wakeAt st.threads i }

/-! ## What a step does -/

/-- The worker that enters its critical section was about to lock or was woken. -/
inductive Enters : Thread (Worker τ) Unit → Prop where
  | locking : Enters (.awake .locking)
  | woken : Enters (.woken ())

theorem Enters.up {thread : Thread (Worker τ) Unit} (enters : Enters thread) :
    thread.isBlocked = false := by
  cases enters <;> rfl

inductive Stepped (st : State τ) : Event τ → State τ → Prop where
  | push (task : τ) (woken : List Nat) (threads : List (Thread (Worker τ) Unit))
      (signalled : signal woken st.threads = some threads) :
      Stepped st (.push task woken) { st with
        q := st.q ++ [task]
        threads := threads
        pushed := st.pushed ++ [task] }
  | wait (i : Nat) (thread : Thread (Worker τ) Unit)
      (found : st.threads[i]? = some thread) (enters : Enters thread)
      (empty : st.q = []) :
      Stepped st (.lock i) { st with threads := st.threads.set i (.blocked ()) }
  | take (i : Nat) (thread : Thread (Worker τ) Unit)
      (found : st.threads[i]? = some thread) (enters : Enters thread)
      (task : τ) (rest : List τ) (front : st.q = task :: rest) :
      Stepped st (.lock i) { st with
        q := rest
        threads := st.threads.set i (.awake (.running task))
        dequeued := st.dequeued ++ [(i, task)] }
  | finish (i : Nat) (task : τ)
      (found : st.threads[i]? = some (.awake (.running task))) :
      Stepped st (.finish i) { st with threads := st.threads.set i (.awake .locking) }
  | spurious (i : Nat) :
      Stepped st (.spurious i) { st with threads := wakeAt st.threads i }

theorem stepped_threadRun {st : State τ} {i : Nat} {thread : Thread (Worker τ) Unit}
    (found : st.threads[i]? = some thread) (enters : Enters thread) :
    Stepped st (.lock i) (threadRun i st) := by
  unfold threadRun
  cases front : st.q with
  | nil => exact .wait i thread found enters front
  | cons task rest => exact .take i thread found enters task rest front

theorem stepped_of_step {st after : State τ} {event : Event τ}
    (stepped : step st event = some after) : Stepped st event after := by
  cases event with
  | push task woken =>
      simp only [step, push, threadWakeup] at stepped
      cases signalled : signal woken st.threads with
      | none => simp [signalled] at stepped
      | some threads =>
          rw [signalled] at stepped
          cases stepped
          exact .push task woken threads signalled
  | lock i =>
      simp only [step] at stepped
      split at stepped
      · rename_i found
        cases stepped
        exact stepped_threadRun found .locking
      · rename_i found
        cases stepped
        exact stepped_threadRun found .woken
      · cases stepped
  | finish i =>
      simp only [step] at stepped
      split at stepped
      · rename_i task found
        cases stepped
        exact .finish i task found
      · cases stepped
  | spurious i =>
      cases stepped
      exact .spurious i

/-! ## Every task once and in order -/

/-- What was pushed is what was dequeued and then what is still queued. -/
structure InOrder (st : State τ) : Prop where
  pushed : st.pushed = st.dequeued.map Prod.snd ++ st.q
  front : st.frontOfEmpty = false

theorem InOrder.stepped {st after : State τ} {event : Event τ} (inOrder : InOrder st)
    (stepped : Stepped st event after) : InOrder after := by
  cases stepped with
  | push task woken threads _ => exact ⟨by simp [inOrder.pushed], inOrder.front⟩
  | wait i thread _ _ _ => exact ⟨inOrder.pushed, inOrder.front⟩
  | take i thread _ _ task rest front =>
      exact ⟨by simp [inOrder.pushed, front], inOrder.front⟩
  | finish i task _ => exact ⟨inOrder.pushed, inOrder.front⟩
  | spurious i => exact ⟨inOrder.pushed, inOrder.front⟩

/-! ## No wakeup is lost -/

/-- The queued tasks and the workers that can take them: those with a pending
wakeup. -/
def supply (st : State τ) : Supply := supplyOf (fun _ => false) st.q.length st.threads

theorem supply_move {st after : State τ} {event : Event τ}
    (stepped : Stepped st event after) : Supply.Move (supply st) (supply after) := by
  cases stepped with
  | push task woken threads signalled =>
      unfold supply
      rw [List.length_append, List.length_singleton]
      exact Supply.move_signal signalled
  | wait i thread _ _ empty => exact .sleep (by simp [supply, supplyOf, empty])
  | take i thread found enters task rest front =>
      unfold supply
      rw [front, List.length_cons]
      exact Supply.move_take found enters.up
  | finish i task found => exact Supply.move_awake found (Nat.le_refl _)
  | spurious i => exact Supply.move_wakes (wakes_wakeAt st.threads i)

/-! ## Every interleaving -/

theorem reachable_inOrder {threadNum : Nat} {st : State τ}
    (reached : Reachable step (start threadNum) st) : InOrder st := by
  refine reached.invariant InOrder ?_ ⟨rfl, rfl⟩
  intro st event after inOrder stepped
  exact inOrder.stepped (stepped_of_step stepped)

theorem reachable_covered {threadNum : Nat} {st : State τ}
    (reached : Reachable step (start threadNum) st) : (supply st).Covered := by
  refine reached.invariant (fun st => (supply st).Covered) ?_ ?_
  · intro st event after covered stepped
    exact covered.move (supply_move (stepped_of_step stepped))
  · intro sleeps
    exact Nat.zero_le _

/-- The tasks are dequeued in the order in which they were pushed, each by one
worker and never from an empty queue; and while a worker sleeps with no wakeup
pending, there are as many pending wakeups as tasks in the queue. -/
theorem tasks_in_order_and_awaited {threadNum : Nat} {st : State τ}
    (reached : Reachable step (start threadNum) st) :
    st.dequeued.map Prod.snd <+: st.pushed ∧
      (∀ n task, n < st.dequeued.length → st.pushed[n]? = some task →
        ∃! worker, st.dequeued[n]? = some (worker, task)) ∧
      st.frontOfEmpty = false ∧
      (0 < asleep st.threads → st.q.length ≤ stirring st.threads) := by
  have inOrder := reachable_inOrder reached
  have ordered : st.dequeued.map Prod.snd <+: st.pushed :=
    ⟨st.q, inOrder.pushed.symm⟩
  refine ⟨ordered, ?_, inOrder.front, reachable_covered reached⟩
  intro n task small pushed
  have taken : (st.dequeued[n]).2 = task := by
    rw [inOrder.pushed, List.getElem?_append_left (by simpa using small)] at pushed
    simpa [small] using pushed
  refine ⟨(st.dequeued[n]).1, ?_, ?_⟩
  · rw [List.getElem?_eq_getElem small, ← taken]
  · intro worker found
    rw [List.getElem?_eq_getElem small, Option.some.injEq] at found
    rw [found]

/-- Two workers went to sleep and one of them is woken for a task. -/
theorem tasks_in_order_and_awaited_two :
    ∃ st : State Nat, Reachable step (start 2) st ∧ asleep st.threads = 1 ∧
      st.q.length = 1 ∧ st.q.length ≤ stirring st.threads := by
  have reached : Reachable step (start 2)
      (⟨[7], [.woken (), .blocked ()], [7], [], false⟩ : State Nat) :=
    ⟨[.lock 0, .lock 1, .push 7 [0]], rfl⟩
  exact ⟨_, reached, rfl, rfl,
    (tasks_in_order_and_awaited reached).2.2.2 Nat.zero_lt_one⟩

end LinuxSystemLearning.HttpPool
