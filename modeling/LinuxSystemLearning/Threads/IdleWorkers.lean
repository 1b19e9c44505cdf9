import LinuxSystemLearning.Threads.Shutdown

/-!
# Idle workers next to queued tasks

`Enqueue` wakes a worker only if `_sleepernum` equals the number of threads, that
is, when every worker is in the wait.  So a task can stay in the queue while
some workers sleep and the others are busy: this happens exactly when a task
is pushed next to a sleeper that is not woken, and the workers on the way to the
queue are no more than the tasks that were there already.
-/

set_option autoImplicit false

namespace LinuxSystemLearning.ThreadPool

open LinuxSystemLearning.Interleaving
open LinuxSystemLearning.Waiting

variable {τ : Type}

def Worker.looks : Worker τ → Bool
  | .locking => true
  | _ => false

/-- A task is queued, a worker sleeps with no wakeup pending, and all the others are
inside a task. -/
def Stalled (st : State τ) : Prop :=
  st.taskq ≠ [] ∧ 0 < asleep st.threads ∧
    ∀ thread ∈ st.threads, thread.isBlocked = false →
      ∃ job, thread = .awake (.running job)

/-- A task is pushed while nobody sleeps, or with a wakeup, or more workers are on the
way to the queue than tasks are in it. -/
def Prompt (st : State τ) : Event τ → Prop
  | .enqueue _ _ => asleep st.threads = 0 ∨ st.sleepernum = st.threads.length ∨
      st.taskq.length < ready Worker.looks st.threads
  | _ => True

/-! ## With prompt pushes -/

/-- The queued tasks and the workers on the way to them. -/
def supply (st : State τ) : Supply :=
  supplyOf Worker.looks st.taskq.length st.threads

theorem supply_move {st after : State τ} {event : Event τ} (prompt : Prompt st event)
    (stepped : Stepped st event after) : Supply.Move (supply st) (supply after) := by
  cases stepped with
  | checked i task _ _ => exact Supply.move_wakes (Wakes.refl st.threads)
  | rejected i task _ => exact Supply.move_wakes (Wakes.refl st.threads)
  | enqueued i job woken threads _ notified =>
      unfold supply
      rw [List.length_append, List.length_singleton]
      rcases notified with ⟨-, signalled⟩ | ⟨silent, rfl⟩
      · exact Supply.move_signal signalled
      · rcases prompt with nobody | all | room
        · exact .supply rfl rfl (.inr nobody)
        · exact absurd all silent
        · exact .expected rfl room rfl
  | waits i thread _ _ empty _ => exact .sleep (by simp [supply, supplyOf, empty])
  | exits i thread _ _ empty _ => exact .sleep (by simp [supply, supplyOf, empty])
  | takes i thread job rest found enters front =>
      unfold supply
      rw [front, List.length_cons]
      exact Supply.move_take found enters.up
  | finished i job found => exact Supply.move_awake found (Nat.zero_le _)
  | woken event only stopper threads wakes _ => exact Supply.move_wakes wakes
  | cleared => exact Supply.move_wakes (Wakes.refl st.threads)
  | joined next _ _ => exact Supply.move_wakes (Wakes.refl st.threads)

theorem not_stalled_of_covered {st : State τ} (covered : (supply st).Covered) :
    ¬ Stalled st := by
  intro stalled
  obtain ⟨queued, sleeps, busy⟩ := stalled
  have tasks := List.length_pos_iff.mpr queued
  have enough : st.taskq.length ≤ ready Worker.looks st.threads := covered sleeps
  have somebody : 0 < ready Worker.looks st.threads := Nat.lt_of_lt_of_le tasks enough
  obtain ⟨thread, member, isReady⟩ := List.countP_pos_iff.mp somebody
  cases thread with
  | awake worker =>
      obtain ⟨job, same⟩ := busy _ member rfl
      cases same
      cases isReady
  | blocked wait => cases isReady
  | woken wait =>
      obtain ⟨job, same⟩ := busy _ member rfl
      cases same

/-! ## Behind a push that is not prompt -/

/-- As long as the pool runs no worker leaves. -/
def AtWork (st : State τ) : Prop :=
  st.isRunning = true → doing Worker.isExited st.threads = 0

theorem Enters.not_exited {thread : Thread (Worker τ) Unit} (enters : Enters thread) :
    thread.isDoing Worker.isExited = false := by
  cases enters <;> rfl

theorem AtWork.stepped {st after : State τ} {event : Event τ} (atWork : AtWork st)
    (stepped : Stepped st event after) : AtWork after := by
  cases stepped with
  | checked i task _ _ => exact atWork
  | rejected i task _ => exact atWork
  | enqueued i job woken threads _ notified =>
      intro running
      rw [(wakes_of_notified notified).doing_eq]
      exact atWork running
  | waits i thread found enters _ _ =>
      intro running
      have count := doing_set Worker.isExited found (.blocked ())
      rw [enters.not_exited, Thread.isDoing_blocked, atWork running] at count
      simpa using count
  | exits i thread _ _ _ stopped =>
      intro running
      rw [stopped] at running
      cases running
  | takes i thread job rest found enters _ =>
      intro running
      have count := doing_set Worker.isExited found (.awake (.running job))
      rw [enters.not_exited, Thread.isDoing_awake, atWork running] at count
      simpa [Worker.isExited] using count
  | finished i job found =>
      intro running
      have count := doing_set Worker.isExited found (.awake .locking)
      rw [Thread.isDoing_awake, Thread.isDoing_awake, atWork running] at count
      simpa [Worker.isExited] using count
  | woken event only stopper threads wakes _ =>
      intro running
      rw [wakes.doing_eq]
      exact atWork running
  | cleared =>
      intro running
      cases running
  | joined next _ _ => exact atWork

/-- A worker on its way to a queue with tasks takes the first. -/
theorem step_lock {st : State τ} {i : Nat} {thread : Thread (Worker τ) Unit}
    (found : st.threads[i]? = some thread) (isReady : thread.isReady Worker.looks = true)
    {job : Job τ} {rest : List (Job τ)} (front : st.taskq = job :: rest) :
    ∃ after, step st (.lock i) = some after ∧ after.taskq = rest ∧
      after.threads = st.threads.set i (.awake (.running job)) ∧
      after.isRunning = st.isRunning := by
  cases thread with
  | awake worker =>
      cases worker with
      | locking =>
          refine ⟨handlerTask i st, by simp [step, found], ?_⟩
          rw [handlerTask_takes st i front]
          exact ⟨rfl, rfl, rfl⟩
      | running job => cases isReady
      | exited => cases isReady
  | blocked wait => cases isReady
  | woken wait =>
      refine ⟨handlerTask i { st with sleepernum := st.sleepernum - 1 },
        by simp [step, found], ?_⟩
      rw [handlerTask_takes { st with sleepernum := st.sleepernum - 1 } i front]
      exact ⟨rfl, rfl, rfl⟩

theorem up_of_isReady {thread : Thread (Worker τ) Unit}
    (isReady : thread.isReady Worker.looks = true) :
    thread.isBlocked = false ∧ thread.isDoing Worker.isExited = false := by
  cases thread with
  | awake worker =>
      cases worker with
      | locking => exact ⟨rfl, rfl⟩
      | running job => cases isReady
      | exited => cases isReady
  | blocked wait => cases isReady
  | woken wait => exact ⟨rfl, rfl⟩

/-- The workers on the way to the queue take a task each and are busy then. -/
theorem stalled_of_short {st : State τ} (running : st.isRunning = true)
    (atWork : doing Worker.isExited st.threads = 0) (sleeps : 0 < asleep st.threads)
    (short : ready Worker.looks st.threads < st.taskq.length) :
    ∃ later, Reachable step st later ∧ later.isRunning = true ∧ Stalled later := by
  induction count : ready Worker.looks st.threads generalizing st with
  | zero =>
      refine ⟨st, ⟨[], rfl⟩, running, ?_, sleeps, ?_⟩
      · exact List.length_pos_iff.mp (Nat.lt_of_le_of_lt (Nat.zero_le _) short)
      · intro thread member up
        have notReady := List.countP_eq_zero.mp count thread member
        have notExited := List.countP_eq_zero.mp atWork thread member
        cases thread with
        | awake worker =>
            cases worker with
            | locking => exact absurd rfl notReady
            | running job => exact ⟨job, rfl⟩
            | exited => exact absurd rfl notExited
        | blocked wait => cases up
        | woken wait => exact absurd rfl notReady
  | succ n ih =>
      have somebody : 0 < ready Worker.looks st.threads := by omega
      obtain ⟨thread, member, isReady⟩ := List.countP_pos_iff.mp somebody
      obtain ⟨i, found⟩ := List.mem_iff_getElem?.mp member
      have queued : st.taskq ≠ [] :=
        List.length_pos_iff.mp (Nat.lt_of_le_of_lt (Nat.zero_le _) short)
      obtain ⟨job, rest, front⟩ := List.exists_cons_of_ne_nil queued
      obtain ⟨after, stepped, taskq, threads, still⟩ := step_lock found isReady front
      obtain ⟨up, present⟩ := up_of_isReady isReady
      have readyCount := countP_set (Thread.isReady Worker.looks) found
        (.awake (.running job))
      have asleepCount := countP_set Thread.isBlocked found (.awake (.running job))
      have exitedCount := doing_set Worker.isExited found (.awake (.running job))
      rw [isReady, Thread.isReady_awake] at readyCount
      rw [up, Thread.isBlocked_awake] at asleepCount
      rw [present, Thread.isDoing_awake] at exitedCount
      simp only [Worker.looks, Worker.isExited, Bool.toNat_true, Bool.toNat_false]
        at readyCount asleepCount exitedCount
      rw [front, List.length_cons] at short
      obtain ⟨later, reached, running, stalled⟩ := ih (still.trans running)
        (by rw [threads]; omega)
        (by rw [threads]; unfold asleep at *; omega)
        (by rw [threads, taskq]; unfold ready at *; omega)
        (by rw [threads]; unfold ready at *; omega)
      exact ⟨later, (Reachable.single stepped).trans reached, running, stalled⟩

/-! ## What the test of `_sleepernum` is enough for -/

/-- The counter of sleepers is right, and not all workers sleep next to a task. -/
structure SomebodyUp (st : State τ) : Prop where
  sleepernum : st.sleepernum = waiting st.threads
  up : st.taskq ≠ [] → asleep st.threads < st.threads.length

theorem asleep_lt_of_found {threads : List (Thread (Worker τ) Unit)} {i : Nat}
    {thread : Thread (Worker τ) Unit} (found : threads[i]? = some thread)
    (up : thread.isBlocked = false) : asleep threads < threads.length := by
  apply Nat.lt_of_le_of_ne List.countP_le_length
  intro all
  have blocked := List.countP_eq_length.mp all thread (List.mem_of_getElem? found)
  rw [up] at blocked
  cases blocked

/-- When the signal is left out, the counter says that somebody is up. -/
theorem SomebodyUp.notified {st : State τ} (somebodyUp : SomebodyUp st)
    (some_threads : 0 < st.threads.length) {woken : List Nat}
    {threads : List (Thread (Worker τ) Unit)}
    (notified : st.sleepernum = st.threads.length ∧
        signal woken st.threads = some threads ∨
      st.sleepernum ≠ st.threads.length ∧ threads = st.threads) :
    asleep threads < threads.length := by
  have sleepernum := somebodyUp.sleepernum
  have inside := asleep_add_stirring st.threads
  have most : waiting st.threads ≤ st.threads.length := List.countP_le_length
  rcases notified with ⟨-, signalled⟩ | ⟨silent, rfl⟩
  · obtain ⟨wakes, fewer⟩ := wakes_of_signal signalled
    rw [wakes.length_eq]
    omega
  · omega

theorem SomebodyUp.stepped {st after : State τ} {event : Event τ}
    (somebodyUp : SomebodyUp st) (some_threads : 0 < st.threads.length)
    (stepped : Stepped st event after) : SomebodyUp after := by
  obtain ⟨sleepernum, up⟩ := somebodyUp
  cases stepped with
  | checked i task _ _ => exact ⟨sleepernum, up⟩
  | rejected i task _ => exact ⟨sleepernum, up⟩
  | enqueued i job woken threads _ notified =>
      refine ⟨?_, fun _ => SomebodyUp.notified ⟨sleepernum, up⟩ some_threads notified⟩
      rw [(wakes_of_notified notified).waiting_eq]
      exact sleepernum
  | waits i thread found _ empty _ =>
      exact ⟨waiting_set sleepernum found (.blocked ()), fun queued => absurd empty queued⟩
  | exits i thread found _ empty _ =>
      refine ⟨?_, fun queued => absurd empty queued⟩
      simpa using waiting_set sleepernum found (.awake .exited)
  | takes i thread job rest found _ _ =>
      refine ⟨?_, fun _ => asleep_lt_of_found (getElem?_set_found found _) rfl⟩
      simpa using waiting_set sleepernum found (.awake (.running job))
  | finished i job found =>
      refine ⟨?_, fun _ => asleep_lt_of_found (getElem?_set_found found _) rfl⟩
      simpa [without] using waiting_set sleepernum found (.awake .locking)
  | woken event only stopper threads wakes _ =>
      refine ⟨?_, ?_⟩
      · rw [wakes.waiting_eq]
        exact sleepernum
      · intro queued
        have fewer := (wakes.ready_add_asleep Worker.looks).2
        rw [wakes.length_eq]
        exact Nat.lt_of_le_of_lt fewer (up queued)
  | cleared => exact ⟨sleepernum, up⟩
  | joined next _ _ => exact ⟨sleepernum, up⟩

theorem length_stepped {st after : State τ} {event : Event τ}
    (stepped : Stepped st event after) : after.threads.length = st.threads.length := by
  cases stepped with
  | checked i task _ _ => rfl
  | rejected i task _ => rfl
  | enqueued i job woken threads _ notified => exact (wakes_of_notified notified).length_eq
  | waits i thread _ _ _ _ => exact List.length_set
  | exits i thread _ _ _ _ => exact List.length_set
  | takes i thread job rest _ _ _ => exact List.length_set
  | finished i job _ => exact List.length_set
  | woken event only stopper threads wakes _ => exact wakes.length_eq
  | cleared => rfl
  | joined next _ _ => rfl

/-- A queued task never finds all workers asleep. -/
theorem reachable_somebodyUp {num submitterNum : Nat} (workers : 0 < num)
    {st : State τ} (reached : Reachable step (start num submitterNum) st) :
    SomebodyUp st := by
  have both := reached.invariant
    (fun st => SomebodyUp st ∧ st.threads.length = num) (by
      intro st event after held stepped
      have stepped := stepped_of_step stepped
      exact ⟨held.1.stepped (held.2.symm ▸ workers) stepped,
        (length_stepped stepped).trans held.2⟩)
    ⟨⟨by simp [start, waiting, List.countP_replicate], fun queued => absurd rfl queued⟩,
      List.length_replicate⟩
  exact both.1

/-! ## Every interleaving -/

section

variable {num submitterNum : Nat}

theorem covered_start (num submitterNum : Nat) :
    (supply (start num submitterNum : State τ)).Covered :=
  fun _ => Nat.zero_le _

theorem reachable_atWork {st : State τ}
    (reached : Reachable step (start num submitterNum) st) : AtWork st := by
  refine reached.invariant AtWork ?_ ?_
  · intro st event after atWork stepped
    exact atWork.stepped (stepped_of_step stepped)
  · intro _
    simp [start, doing, List.countP_replicate, Worker.isExited]

theorem not_stalled_of_prompt {events : List (Event τ)} {st : State τ}
    (ran : play step (start num submitterNum) events = some st)
    (prompt : Throughout step Prompt (start num submitterNum) events) : ¬ Stalled st := by
  apply not_stalled_of_covered
  refine invariant_throughout (fun st => (supply st).Covered) ?_
    (covered_start num submitterNum) ran prompt
  intro st event after covered prompt stepped
  exact covered.move (supply_move prompt (stepped_of_step stepped))

/-- From behind a push that was not prompt, the dequeues of the workers on their way
lead to a stalled pool. -/
theorem stalled_of_not_prompt {st after : State τ} {i : Nat} {woken : List Nat}
    (reached : Reachable step (start num submitterNum) st)
    (running : st.isRunning = true) (late : ¬ Prompt st (.enqueue i woken))
    (stepped : step st (.enqueue i woken) = some after) :
    ∃ later, Reachable step after later ∧ later.isRunning = true ∧ Stalled later := by
  obtain ⟨sleeps, silent, short⟩ : ¬ asleep st.threads = 0 ∧
      ¬ st.sleepernum = st.threads.length ∧
      ¬ st.taskq.length < ready Worker.looks st.threads := by
    simpa [Prompt] using late
  have atWork := reachable_atWork reached running
  cases stepped_of_step stepped with
  | enqueued i job woken threads _ notified =>
      rcases notified with ⟨all, -⟩ | ⟨-, rfl⟩
      · exact absurd all silent
      · refine stalled_of_short ?_ ?_ ?_ ?_
        · exact running
        · exact atWork
        · exact Nat.pos_of_ne_zero sleeps
        · dsimp only
          rw [List.length_append, List.length_singleton]
          omega
  | woken event only stopper threads wakes _ => exact only.elim

/-- While every push is prompt the pool never stalls; and one push that is not, in a
pool that runs, lets it stall. -/
theorem stalls_only_behind_late_push (num submitterNum : Nat) :
    (∀ (events : List (Event τ)) (st : State τ),
        play step (start num submitterNum) events = some st →
        Throughout step Prompt (start num submitterNum) events → ¬ Stalled st) ∧
      ∀ (events : List (Event τ)) (st after : State τ) (i : Nat) (woken : List Nat),
        play step (start num submitterNum) events = some st → st.isRunning = true →
        ¬ Prompt st (.enqueue i woken) → step st (.enqueue i woken) = some after →
        ∃ later, Reachable step after later ∧ later.isRunning = true ∧ Stalled later := by
  constructor
  · intro events st ran prompt
    exact not_stalled_of_prompt ran prompt
  · intro events st after i woken ran running late stepped
    exact stalled_of_not_prompt ⟨events, ran⟩ running late stepped

end

/-- One of two sleepers was woken for a task; the second task is pushed while the first
is running, and the other worker sleeps on. -/
theorem leaves_worker_asleep :
    ¬ ∀ st : State Nat, Reachable step (start 2 1) st → st.isRunning = true →
      ¬ Stalled st := by
  intro always
  let events : List (Event Nat) :=
    [.lock 0, .lock 1, .check 0 7, .enqueue 0 [0], .lock 0, .check 0 8, .enqueue 0 []]
  let st : State Nat :=
    ⟨true, [⟨1, 8⟩], 1, [.awake (.running ⟨0, 7⟩), .blocked ()], [.outside], .working,
      2, [⟨0, 7⟩, ⟨1, 8⟩], [], []⟩
  have ran : play step (start 2 1) events = some st := rfl
  refine always st ⟨events, ran⟩ rfl ⟨by simp [st], by decide, ?_⟩
  intro thread member up
  rcases List.mem_cons.mp member with rfl | member
  · exact ⟨_, rfl⟩
  · rw [List.mem_singleton.mp member] at up
    cases up

end LinuxSystemLearning.ThreadPool
