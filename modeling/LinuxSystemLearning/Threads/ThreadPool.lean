import LinuxSystemLearning.Library.Waiting

/-!
# The thread pool

`ThreadPool` with `Enqueue`, `HandlerTask`, `Stop` and `Join`, the same text in
each of the programs that use it.  An event is one read or write of
`_is_running` outside the mutex, one critical section, one wakeup or the end
of a task.  Any number of submitters call `Enqueue`; one thread calls `Stop`, at
most once, and then `Join`.
-/

set_option autoImplicit false

namespace LinuxSystemLearning.ThreadPool

open LinuxSystemLearning.Interleaving
open LinuxSystemLearning.Waiting

variable {τ : Type}

/-- The argument of a call of `Enqueue`; the calls are numbered. -/
structure Job (τ : Type) where
  call : Nat
  task : τ
  deriving DecidableEq

/-- A worker outside `_cond.Wait`: before the mutex, in `t()`, or behind the `break`. -/
inductive Worker (τ : Type) where
  | locking
  | running (job : Job τ)
  | exited
  deriving DecidableEq

/-- A submitter outside `Enqueue`, or past its test of `_is_running`. -/
inductive Submitter (τ : Type) where
  | outside
  | checked (job : Job τ)
  deriving DecidableEq

/-- Where the thread that stops the pool stands; in `Join`, the thread it waits for
next. -/
inductive Stopper where
  | working
  | stopping
  | cleared
  | joining (next : Nat)
  deriving DecidableEq

/-- `calls` counts the calls of `Enqueue`; `accepted`, `rejected` and `executed` record
those that returned true, those that returned false and the tasks that are done. -/
structure State (τ : Type) where
  isRunning : Bool
  taskq : List (Job τ)
  sleepernum : Int
  threads : List (Thread (Worker τ) Unit)
  submitters : List (Submitter τ)
  stopper : Stopper
  calls : Nat
  accepted : List (Job τ)
  rejected : List (Job τ)
  executed : List (Job τ)

/-- `woken` are the waiters a signal wakes. -/
inductive Event (τ : Type) where
  | check (i : Nat) (task : τ)
  | enqueue (i : Nat) (woken : List Nat)
  | lock (i : Nat)
  | finish (i : Nat)
  | spurious (i : Nat)
  | stop
  | clear
  | wakeAllThread
  | join

def start (num submitterNum : Nat) : State τ where
  isRunning := true
  taskq := []
  sleepernum := 0
  threads := List.replicate num (.awake .locking)
  submitters := List.replicate submitterNum .outside
  stopper := .working
  calls := 0
  accepted := []
  rejected := []
  executed := []

/-- `if (_is_running)`, without the mutex. -/
def check (i : Nat) (task : τ) (st : State τ) : State τ :=
  let job := ⟨st.calls, task⟩
  if st.isRunning then
    { st with
      submitters := st.submitters.set i (.checked job)
      calls := st.calls + 1 }
  else
    { st with
      rejected := st.rejected ++ [job]
      calls := st.calls + 1 }

def wakeUpOne (woken : List Nat) (st : State τ) : Option (State τ) :=
  match signal woken st.threads with
  | none => none
  | some threads => some { st with threads := threads }

/-- The critical section of `Enqueue`. -/
def enqueue (i : Nat) (job : Job τ) (woken : List Nat) (st : State τ) :
    Option (State τ) :=
  let st := { st with
    taskq := st.taskq ++ [job]
    submitters := st.submitters.set i .outside
    accepted := st.accepted ++ [job] }
  if st.sleepernum = st.threads.length then wakeUpOne woken st else some st

/-- The critical section of `HandlerTask` from the test of the inner loop on. -/
def handlerTask (i : Nat) (st : State τ) : State τ :=
  if st.taskq.isEmpty && st.isRunning then
    { st with
      sleepernum := st.sleepernum + 1
      threads := st.threads.set i (.blocked ()) }
  else if !st.isRunning && st.taskq.isEmpty then
    { st with threads := st.threads.set i (.awake .exited) }
  else
    match st.taskq with
    | [] => st -- an empty queue has met one of the tests
    | job :: rest => { st with
        taskq := rest
        threads := st.threads.set i (.awake (.running job)) }

def wakeAllThread (st : State τ) : State τ :=
  if 0 < st.sleepernum then { st with threads := wakeAll st.threads } else st

def step (st : State τ) : Event τ → Option (State τ)
  | .check i task =>
      match st.submitters[i]? with
      | some .outside => some (check i task st)
      | _ => none
  | .enqueue i woken =>
      match st.submitters[i]? with
      | some (.checked job) => enqueue i job woken st
      | _ => none
  | .lock i =>
      match st.threads[i]? with
      | some (.awake .locking) => some (handlerTask i st)
      | some (.woken _) =>
          some (handlerTask i { st with sleepernum := st.sleepernum - 1 })
      | _ => none
  | .finish i =>
      match st.threads[i]? with
      | some (.awake (.running job)) => some { st with
          threads := st.threads.set i (.awake .locking)
          executed := st.executed ++ [job] }
      | _ => none
  | .spurious i => some { st with threads := wakeAt st.threads i }
  | .stop =>
      match st.stopper with
      | .working =>
          some { st with stopper := if st.isRunning then .stopping else .joining 0 }
      | _ => none
  | .clear =>
      match st.stopper with
      | .stopping => some { st with isRunning := false, stopper := .cleared }
      | _ => none
  | .wakeAllThread =>
      match st.stopper with
      | .cleared => some { wakeAllThread st with stopper := .joining 0 }
      | _ => none
  | .join =>
      match st.stopper with
      | .joining next =>
          match st.threads[next]? with
          | some (.awake .exited) => some { st with stopper := .joining (next + 1) }
          | _ => none
      | _ => none

def Joined (st : State τ) : Prop := st.stopper = .joining st.threads.length

instance (st : State τ) : Decidable (Joined st) :=
  inferInstanceAs (Decidable (_ = _))

/-! ## What a step does -/

/-- The worker that enters its critical section was about to lock or was woken. -/
inductive Enters : Thread (Worker τ) Unit → Prop where
  | locking : Enters (.awake .locking)
  | woken : Enters (.woken ())

theorem Enters.up {thread : Thread (Worker τ) Unit} (enters : Enters thread) :
    thread.isBlocked = false := by
  cases enters <;> rfl

/-- The events that wake workers or move the stopper on and do nothing else. -/
def Event.OnlyWakes : Event τ → Prop
  | .spurious _ => True
  | .stop => True
  | .wakeAllThread => True
  | _ => False

inductive Stepped (st : State τ) : Event τ → State τ → Prop where
  | checked (i : Nat) (task : τ) (found : st.submitters[i]? = some .outside)
      (running : st.isRunning = true) :
      Stepped st (.check i task) { st with
        submitters := st.submitters.set i (.checked ⟨st.calls, task⟩)
        calls := st.calls + 1 }
  | rejected (i : Nat) (task : τ) (stopped : st.isRunning = false) :
      Stepped st (.check i task) { st with
        rejected := st.rejected ++ [⟨st.calls, task⟩]
        calls := st.calls + 1 }
  | enqueued (i : Nat) (job : Job τ) (woken : List Nat)
      (threads : List (Thread (Worker τ) Unit))
      (found : st.submitters[i]? = some (.checked job))
      (notified : st.sleepernum = st.threads.length ∧
          signal woken st.threads = some threads ∨
        st.sleepernum ≠ st.threads.length ∧ threads = st.threads) :
      Stepped st (.enqueue i woken) { st with
        taskq := st.taskq ++ [job]
        threads := threads
        submitters := st.submitters.set i .outside
        accepted := st.accepted ++ [job] }
  | waits (i : Nat) (thread : Thread (Worker τ) Unit)
      (found : st.threads[i]? = some thread) (enters : Enters thread)
      (empty : st.taskq = []) (running : st.isRunning = true) :
      Stepped st (.lock i) { st with
        sleepernum := without st.sleepernum thread + 1
        threads := st.threads.set i (.blocked ()) }
  | exits (i : Nat) (thread : Thread (Worker τ) Unit)
      (found : st.threads[i]? = some thread) (enters : Enters thread)
      (empty : st.taskq = []) (stopped : st.isRunning = false) :
      Stepped st (.lock i) { st with
        sleepernum := without st.sleepernum thread
        threads := st.threads.set i (.awake .exited) }
  | takes (i : Nat) (thread : Thread (Worker τ) Unit) (job : Job τ)
      (rest : List (Job τ)) (found : st.threads[i]? = some thread)
      (enters : Enters thread) (front : st.taskq = job :: rest) :
      Stepped st (.lock i) { st with
        taskq := rest
        sleepernum := without st.sleepernum thread
        threads := st.threads.set i (.awake (.running job)) }
  | finished (i : Nat) (job : Job τ)
      (found : st.threads[i]? = some (.awake (.running job))) :
      Stepped st (.finish i) { st with
        threads := st.threads.set i (.awake .locking)
        executed := st.executed ++ [job] }
  | woken (event : Event τ) (only : event.OnlyWakes)
      (stopper : Stopper) (threads : List (Thread (Worker τ) Unit))
      (wakes : Wakes st.threads threads)
      (fromJoining : ∀ next, stopper = .joining next →
        next = 0 ∨ stopper = st.stopper) :
      Stepped st event { st with threads := threads, stopper := stopper }
  | cleared : Stepped st .clear { st with isRunning := false, stopper := .cleared }
  | joined (next : Nat) (waiting : st.stopper = .joining next)
      (exited : st.threads[next]? = some (.awake .exited)) :
      Stepped st .join { st with stopper := .joining (next + 1) }

theorem stepped_enqueue {st after : State τ} {i : Nat} {job : Job τ} {woken : List Nat}
    (found : st.submitters[i]? = some (.checked job))
    (ran : enqueue i job woken st = some after) :
    Stepped st (.enqueue i woken) after := by
  unfold enqueue wakeUpOne at ran
  dsimp only at ran
  split at ran
  · rename_i all
    cases signalled : signal woken st.threads with
    | none => simp [signalled] at ran
    | some threads =>
        rw [signalled] at ran
        cases ran
        exact .enqueued i job woken threads found (.inl ⟨all, signalled⟩)
  · rename_i some_up
    cases ran
    exact .enqueued i job woken st.threads found (.inr ⟨some_up, rfl⟩)

section

variable (st : State τ) (i : Nat)

theorem handlerTask_waits (empty : st.taskq = []) (running : st.isRunning = true) :
    handlerTask i st = { st with
      sleepernum := st.sleepernum + 1
      threads := st.threads.set i (.blocked ()) } := by
  simp [handlerTask, empty, running]

theorem handlerTask_exits (empty : st.taskq = []) (stopped : st.isRunning = false) :
    handlerTask i st = { st with threads := st.threads.set i (.awake .exited) } := by
  simp [handlerTask, empty, stopped]

theorem handlerTask_takes {job : Job τ} {rest : List (Job τ)}
    (front : st.taskq = job :: rest) :
    handlerTask i st = { st with
      taskq := rest
      threads := st.threads.set i (.awake (.running job)) } := by
  simp [handlerTask, front]

end

theorem stepped_handlerTask {st : State τ} {i : Nat} {thread : Thread (Worker τ) Unit}
    (found : st.threads[i]? = some thread) (enters : Enters thread) :
    Stepped st (.lock i)
      (handlerTask i { st with sleepernum := without st.sleepernum thread }) := by
  have waits := handlerTask_waits { st with sleepernum := without st.sleepernum thread } i
  have exits := handlerTask_exits { st with sleepernum := without st.sleepernum thread } i
  by_cases empty : st.taskq = []
  · by_cases running : st.isRunning = true
    · rw [waits empty running]
      exact .waits i thread found enters empty running
    · rw [Bool.not_eq_true] at running
      rw [exits empty running]
      exact .exits i thread found enters empty running
  · obtain ⟨job, rest, front⟩ := List.exists_cons_of_ne_nil empty
    rw [handlerTask_takes { st with sleepernum := without st.sleepernum thread } i front]
    exact .takes i thread job rest found enters front

theorem stepped_of_step {st after : State τ} {event : Event τ}
    (stepped : step st event = some after) : Stepped st event after := by
  cases event with
  | check i task =>
      simp only [step] at stepped
      split at stepped
      · rename_i found
        cases stepped
        unfold check
        dsimp only
        cases running : st.isRunning with
        | true =>
            have stepped := Stepped.checked i task found running
            rw [running] at stepped
            exact stepped
        | false =>
            have stepped := Stepped.rejected i task running
            rw [running] at stepped
            exact stepped
      · cases stepped
  | enqueue i woken =>
      simp only [step] at stepped
      split at stepped
      · rename_i job found
        exact stepped_enqueue found stepped
      · cases stepped
  | lock i =>
      simp only [step] at stepped
      split at stepped
      · rename_i found
        cases stepped
        have entered := stepped_handlerTask found .locking
        simpa [without] using entered
      · rename_i found
        cases stepped
        exact stepped_handlerTask found .woken
      · cases stepped
  | finish i =>
      simp only [step] at stepped
      split at stepped
      · rename_i job found
        cases stepped
        exact .finished i job found
      · cases stepped
  | spurious i =>
      cases stepped
      exact .woken (.spurious i) trivial st.stopper _ (wakes_wakeAt st.threads i)
        fun _ _ => .inr rfl
  | stop =>
      simp only [step] at stepped
      split at stepped
      · rename_i working
        cases stepped
        refine .woken .stop trivial _ st.threads (Wakes.refl st.threads) ?_
        intro next joining
        left
        split at joining
        · cases joining
        · cases joining
          rfl
      · cases stepped
  | clear =>
      simp only [step] at stepped
      split at stepped
      · cases stepped
        exact .cleared
      · cases stepped
  | wakeAllThread =>
      simp only [step] at stepped
      split at stepped
      · cases stepped
        have joins : ∀ next, Stopper.joining 0 = .joining next →
            next = 0 ∨ Stopper.joining 0 = st.stopper := by
          intro next joining
          cases joining
          exact .inl rfl
        unfold wakeAllThread
        split
        · exact .woken .wakeAllThread trivial _ _ (wakes_wakeAll st.threads) joins
        · exact .woken .wakeAllThread trivial _ _ (Wakes.refl st.threads) joins
      · cases stepped
  | join =>
      simp only [step] at stepped
      split at stepped
      · rename_i next waiting
        split at stepped
        · rename_i exited
          cases stepped
          exact .joined next waiting exited
        · cases stepped
      · cases stepped

theorem wakes_of_notified {st : State τ} {woken : List Nat}
    {threads : List (Thread (Worker τ) Unit)}
    (notified : st.sleepernum = st.threads.length ∧
        signal woken st.threads = some threads ∨
      st.sleepernum ≠ st.threads.length ∧ threads = st.threads) :
    Wakes st.threads threads := by
  rcases notified with ⟨-, signalled⟩ | ⟨-, rfl⟩
  · exact (wakes_of_signal signalled).1
  · exact Wakes.refl st.threads

end LinuxSystemLearning.ThreadPool
