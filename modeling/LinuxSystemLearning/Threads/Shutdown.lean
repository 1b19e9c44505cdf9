import LinuxSystemLearning.Threads.ThreadPool

/-!
# Shutting the thread pool down

`Enqueue` tests `_is_running` before it takes the mutex.  A call that was let in
may push its task when the pool has been stopped since; as long as some worker
has not left `HandlerTask` the task is still executed, and behind the last of
them it stays in the queue for ever.
-/

set_option autoImplicit false

namespace LinuxSystemLearning.ThreadPool

open LinuxSystemLearning.Interleaving
open LinuxSystemLearning.Waiting

variable {τ : Type}

def Worker.isExited : Worker τ → Bool
  | .exited => true
  | _ => false

def Worker.runs [DecidableEq τ] (job : Job τ) : Worker τ → Bool
  | .running other => other == job
  | _ => false

def Submitter.holds (call : Nat) : Submitter τ → Bool
  | .outside => false
  | .checked job => job.call == call

def AllExited (st : State τ) : Prop :=
  doing Worker.isExited st.threads = st.threads.length

instance (st : State τ) : Decidable (AllExited st) :=
  inferInstanceAs (Decidable (_ = _))

/-- A call of `Enqueue` pushes its task while some worker has not left. -/
def InTime (st : State τ) : Event τ → Prop
  | .enqueue _ _ => ¬ AllExited st
  | _ => True

/-- The tasks of the calls that returned true are executed once, those of the calls
that returned false are not executed. -/
def ExecutedOnce [DecidableEq τ] (st : State τ) : Prop :=
  (∀ job ∈ st.accepted, st.executed.count job = 1) ∧
    ∀ job ∈ st.rejected, job ∉ st.executed

instance [DecidableEq τ] (st : State τ) : Decidable (ExecutedOnce st) :=
  inferInstanceAs (Decidable (_ ∧ _))

/-! ## Where a task can be -/

/-- A task is where its call has brought it: with the submitter, queued, running or
executed, or with the calls that returned false. -/
structure Accounted [DecidableEq τ] (st : State τ) : Prop where
  conserved : ∀ job, st.accepted.count job =
    st.taskq.count job + doing (Worker.runs job) st.threads + st.executed.count job
  numbered : ∀ call, st.accepted.countP (fun job => job.call == call) +
      st.submitters.countP (Submitter.holds call) +
      st.rejected.countP (fun job => job.call == call) =
    if call < st.calls then 1 else 0

section

variable [DecidableEq τ]

theorem Enters.not_runs {thread : Thread (Worker τ) Unit} (enters : Enters thread)
    (job : Job τ) : thread.isDoing (Worker.runs job) = false := by
  cases enters <;> rfl

theorem accounted_start (num submitterNum : Nat) :
    Accounted (start num submitterNum : State τ) where
  conserved job := by
    simp [start, doing, List.countP_replicate, Worker.runs]
  numbered call := by
    simp [start, List.countP_replicate, Submitter.holds]

theorem ite_eq_toNat {call other : Nat} :
    (if call = other then 1 else 0) = (call == other).toNat := by
  by_cases same : call = other
  · rw [if_pos same, beq_iff_eq.mpr same, Bool.toNat_true]
  · rw [if_neg same, beq_false_of_ne same, Bool.toNat_false]

/-- A submitter takes a new number, or the call returns false with it. -/
theorem numbered_succ {accepted rejected submitters rejected' submitters' calls call : Nat}
    (numbered : accepted + submitters + rejected = if call < calls then 1 else 0)
    (one : submitters' + rejected' =
      submitters + rejected + if calls = call then 1 else 0) :
    accepted + submitters' + rejected' = if call < calls + 1 then 1 else 0 := by
  split at numbered <;> split at one <;> split <;> omega

theorem Accounted.stepped {st after : State τ} {event : Event τ}
    (accounted : Accounted st) (stepped : Stepped st event after) :
    Accounted after := by
  obtain ⟨conserved, numbered⟩ := accounted
  cases stepped with
  | checked i task found _ =>
      refine ⟨conserved, ?_⟩
      intro call
      have count := countP_set (Submitter.holds call) found (.checked ⟨st.calls, task⟩)
      simp only [Submitter.holds, Bool.toNat_false] at count
      apply numbered_succ (numbered call)
      rw [ite_eq_toNat]
      dsimp only
      omega
  | rejected i task _ =>
      refine ⟨conserved, ?_⟩
      intro call
      apply numbered_succ (numbered call)
      rw [countP_concat, ite_eq_toNat]
      dsimp only
      omega
  | enqueued i job woken threads found notified =>
      have wakes := wakes_of_notified notified
      refine ⟨?_, ?_⟩
      · intro other
        dsimp only
        rw [wakes.doing_eq, List.count_append, List.count_append, conserved other]
        omega
      · intro call
        have count := countP_set (Submitter.holds call) found .outside
        have before := numbered call
        simp only [Submitter.holds, Bool.toNat_false] at count
        rw [countP_concat]
        dsimp only
        omega
  | waits i thread found enters empty _ =>
      refine ⟨?_, numbered⟩
      intro other
      have count := doing_set (Worker.runs other) found (.blocked ())
      have before := conserved other
      rw [enters.not_runs, Thread.isDoing_blocked] at count
      dsimp only
      omega
  | exits i thread found enters empty _ =>
      refine ⟨?_, numbered⟩
      intro other
      have count := doing_set (Worker.runs other) found (.awake .exited)
      have before := conserved other
      rw [enters.not_runs, Thread.isDoing_awake] at count
      simp only [Worker.runs, Bool.toNat_false] at count
      dsimp only
      omega
  | takes i thread job rest found enters front =>
      refine ⟨?_, numbered⟩
      intro other
      have count := doing_set (Worker.runs other) found (.awake (.running job))
      have before := conserved other
      rw [enters.not_runs, Thread.isDoing_awake] at count
      simp only [Worker.runs, Bool.toNat_false] at count
      simp only [front, List.count_eq_countP, countP_cons] at before ⊢
      omega
  | finished i job found =>
      refine ⟨?_, numbered⟩
      intro other
      have count := doing_set (Worker.runs other) found (.awake .locking)
      have before := conserved other
      rw [Thread.isDoing_awake, Thread.isDoing_awake] at count
      simp only [Worker.runs, Bool.toNat_false] at count
      simp only [List.count_eq_countP, countP_concat] at before ⊢
      omega
  | woken event only stopper threads wakes _ =>
      refine ⟨?_, numbered⟩
      intro other
      rw [wakes.doing_eq]
      exact conserved other
  | cleared => exact ⟨conserved, numbered⟩
  | joined next _ _ => exact ⟨conserved, numbered⟩

theorem Accounted.once {st : State τ} (accounted : Accounted st) (job : Job τ) :
    st.accepted.count job ≤ 1 ∧ (job ∈ st.rejected → st.accepted.count job = 0) := by
  have numbered := accounted.numbered job.call
  have fewer : st.accepted.count job ≤
      st.accepted.countP (fun other => other.call == job.call) := by
    apply List.countP_mono_left
    intro other _ same
    simp only [beq_iff_eq] at same ⊢
    rw [same]
  constructor
  · split at numbered <;> omega
  · intro member
    have positive : 0 < st.rejected.countP (fun other => other.call == job.call) :=
      List.countP_pos_iff.mpr ⟨job, member, by simp⟩
    split at numbered <;> omega

end

/-! ## Workers that have left -/

def JoinedExited (st : State τ) : Prop :=
  ∀ next, st.stopper = .joining next → ∀ i, i < next →
    st.threads[i]? = some (.awake .exited)

theorem not_exited_of_enters {thread : Thread (Worker τ) Unit}
    (enters : Enters thread) : thread ≠ .awake .exited := by
  rintro rfl
  cases enters

/-- A worker that has left does nothing any more. -/
theorem exited_stepped {st after : State τ} {event : Event τ}
    (stepped : Stepped st event after) {i : Nat}
    (exited : st.threads[i]? = some (.awake .exited)) :
    after.threads[i]? = some (.awake .exited) := by
  have other : ∀ j thread new, st.threads[j]? = some thread →
      thread ≠ .awake .exited → (st.threads.set j new)[i]? = some (.awake .exited) := by
    intro j thread new found different
    have apart : j ≠ i := by
      rintro rfl
      rw [found] at exited
      exact different (Option.some.inj exited)
    rw [List.getElem?_set_ne apart]
    exact exited
  cases stepped with
  | checked i task _ _ => exact exited
  | rejected i task _ => exact exited
  | enqueued i job woken threads found notified =>
      exact (wakes_of_notified notified).getElem?_awake exited
  | waits j thread found enters _ _ =>
      exact other j thread _ found (not_exited_of_enters enters)
  | exits j thread found enters _ _ =>
      exact other j thread _ found (not_exited_of_enters enters)
  | takes j thread job rest found enters _ =>
      exact other j thread _ found (not_exited_of_enters enters)
  | finished j job found => exact other j _ _ found (by simp)
  | woken event only stopper threads wakes _ => exact wakes.getElem?_awake exited
  | cleared => exact exited
  | joined next _ _ => exact exited

theorem JoinedExited.stepped {st after : State τ} {event : Event τ}
    (joinedExited : JoinedExited st) (stepped : Stepped st event after) :
    JoinedExited after := by
  have same : after.stopper = st.stopper → JoinedExited after := by
    intro same next joining i small
    rw [same] at joining
    exact exited_stepped stepped (joinedExited next joining i small)
  cases stepped with
  | checked i task _ _ => exact same rfl
  | rejected i task _ => exact same rfl
  | enqueued i job woken threads _ _ => exact same rfl
  | waits i thread _ _ _ _ => exact same rfl
  | exits i thread _ _ _ _ => exact same rfl
  | takes i thread job rest _ _ _ => exact same rfl
  | finished i job _ => exact same rfl
  | woken event only stopper threads wakes fromJoining =>
      intro next joining i small
      rcases fromJoining next joining with rfl | unchanged
      · exact absurd small (Nat.not_lt_zero i)
      · exact same unchanged next joining i small
  | cleared =>
      intro next joining
      cases joining
  | joined next waiting exited =>
      intro next' joining i small
      cases joining
      by_cases last : i = next
      · rw [last]
        exact exited
      · exact joinedExited next waiting i (by omega)

theorem allExited_iff (st : State τ) :
    AllExited st ↔ ∀ i, i < st.threads.length → st.threads[i]? = some (.awake .exited) := by
  unfold AllExited doing
  rw [List.countP_eq_length]
  constructor
  · intro all i small
    have exited := all st.threads[i] (List.getElem_mem small)
    rw [List.getElem?_eq_getElem small]
    cases at_i : st.threads[i] with
    | awake worker =>
        rw [at_i] at exited
        cases worker with
        | exited => rfl
        | locking => cases exited
        | running job => cases exited
    | blocked wait => rw [at_i] at exited; cases exited
    | woken wait => rw [at_i] at exited; cases exited
  · intro all thread member
    obtain ⟨i, small, rfl⟩ := List.mem_iff_getElem.mp member
    have exited := all i small
    rw [List.getElem?_eq_getElem small] at exited
    rw [Option.some.inj exited]
    rfl

theorem AllExited.found {st : State τ} (all : AllExited st) {i : Nat}
    {thread : Thread (Worker τ) Unit} (found : st.threads[i]? = some thread) :
    thread = .awake .exited := by
  have small : i < st.threads.length := by
    by_contra large
    rw [List.getElem?_eq_none (by omega)] at found
    cases found
  have exited := (allExited_iff st).mp all i small
  rw [found] at exited
  exact Option.some.inj exited

theorem allExited_wakes {st after : State τ} (wakes : Wakes st.threads after.threads) :
    AllExited after ↔ AllExited st := by
  unfold AllExited
  rw [wakes.doing_eq, wakes.length_eq]

/-! ## The queue behind the last worker -/

/-- The last worker to leave left an empty queue. -/
def EmptyBehind (st : State τ) : Prop := AllExited st → st.taskq = []

/-- Nobody is left to take what is queued. -/
def Stranded (st : State τ) : Prop := AllExited st ∧ st.taskq ≠ []

theorem EmptyBehind.stepped {st after : State τ} {event : Event τ}
    (emptyBehind : EmptyBehind st) (inTime : InTime st event)
    (stepped : Stepped st event after) : EmptyBehind after := by
  cases stepped with
  | checked i task _ _ => exact emptyBehind
  | rejected i task _ => exact emptyBehind
  | enqueued i job woken threads _ notified =>
      intro all
      exact absurd ((allExited_wakes (wakes_of_notified notified)).mp all) inTime
  | waits i thread _ _ empty _ => exact fun _ => empty
  | exits i thread _ _ empty _ => exact fun _ => empty
  | takes i thread job rest found _ _ =>
      intro all
      have exited := all.found (getElem?_set_found found _)
      cases exited
  | finished i job found =>
      intro all
      have exited := all.found (getElem?_set_found found _)
      cases exited
  | woken event only stopper threads wakes _ =>
      intro all
      exact emptyBehind ((allExited_wakes wakes).mp all)
  | cleared => exact emptyBehind
  | joined next _ _ => exact emptyBehind

/-- A task pushed behind the last worker stays. -/
theorem Stranded.stepped {st after : State τ} {event : Event τ}
    (stranded : Stranded st) (stepped : Stepped st event after) : Stranded after := by
  obtain ⟨all, queued⟩ := stranded
  cases stepped with
  | checked i task _ _ => exact ⟨all, queued⟩
  | rejected i task _ => exact ⟨all, queued⟩
  | enqueued i job woken threads _ notified =>
      exact ⟨(allExited_wakes (wakes_of_notified notified)).mpr all, by simp⟩
  | waits i thread found enters _ _ =>
      exact absurd (all.found found) (not_exited_of_enters enters)
  | exits i thread found enters _ _ =>
      exact absurd (all.found found) (not_exited_of_enters enters)
  | takes i thread job rest found enters _ =>
      exact absurd (all.found found) (not_exited_of_enters enters)
  | finished i job found =>
      have exited := all.found found
      cases exited
  | woken event only stopper threads wakes _ => exact ⟨(allExited_wakes wakes).mpr all, queued⟩
  | cleared => exact ⟨all, queued⟩
  | joined next _ _ => exact ⟨all, queued⟩

theorem stranded_of_late {st after : State τ} {event : Event τ}
    (late : ¬ InTime st event) (stepped : Stepped st event after) : Stranded after := by
  cases stepped with
  | enqueued i job woken threads _ notified =>
      have all : AllExited st := not_not.mp late
      exact ⟨(allExited_wakes (wakes_of_notified notified)).mpr all, by simp⟩
  | woken event only stopper threads wakes _ =>
      cases event with
      | enqueue i woken => exact only.elim
      | _ => exact absurd trivial late
  | _ => exact absurd trivial late

/-! ## Every interleaving -/

theorem emptyBehind_start (num submitterNum : Nat) :
    EmptyBehind (start num submitterNum : State τ) := fun _ => rfl

theorem allExited_of_joined {st : State τ} (joinedExited : JoinedExited st)
    (joined : Joined st) : AllExited st :=
  (allExited_iff st).mpr (joinedExited _ joined)

section

variable [DecidableEq τ] {num submitterNum : Nat}

theorem reachable_accounted {st : State τ}
    (reached : Reachable step (start num submitterNum) st) :
    Accounted st ∧ JoinedExited st := by
  refine reached.invariant (fun st => Accounted st ∧ JoinedExited st) ?_
    ⟨accounted_start num submitterNum, ?_⟩
  · intro st event after held stepped
    exact ⟨held.1.stepped (stepped_of_step stepped),
      held.2.stepped (stepped_of_step stepped)⟩
  · intro next joining
    cases joining

/-- When nobody is left and nothing is queued, what was accepted has been executed. -/
theorem executedOnce_of_empty {st : State τ} (accounted : Accounted st)
    (all : AllExited st) (empty : st.taskq = []) : ExecutedOnce st := by
  have executed : ∀ job, st.executed.count job = st.accepted.count job := by
    intro job
    have nobody : doing (Worker.runs job) st.threads = 0 := by
      apply List.countP_eq_zero.mpr
      intro thread member
      obtain ⟨i, found⟩ := List.mem_iff_getElem?.mp member
      rw [all.found found]
      simp [Worker.runs]
    have conserved := accounted.conserved job
    rw [empty, nobody] at conserved
    simpa using conserved.symm
  constructor
  · intro job member
    have positive := List.count_pos_iff.mpr member
    have once := (accounted.once job).1
    rw [executed]
    omega
  · intro job member
    have never := (accounted.once job).2 member
    rw [← executed] at never
    exact List.count_eq_zero.mp never

theorem not_executedOnce_of_queued {st : State τ} (accounted : Accounted st)
    (queued : st.taskq ≠ []) : ¬ ExecutedOnce st := by
  intro executedOnce
  obtain ⟨job, member⟩ := List.exists_mem_of_ne_nil _ queued
  have waiting := List.count_pos_iff.mpr member
  have conserved := accounted.conserved job
  have once := (accounted.once job).1
  have accepted : job ∈ st.accepted := List.count_pos_iff.mp (by omega)
  have executed := executedOnce.1 job accepted
  omega

/-- When `Join` has returned, every accepted task has been executed once and no
rejected one, if and only if every push was made before the last worker left. -/
theorem executed_once_iff {events : List (Event τ)} {st : State τ}
    (ran : play step (start num submitterNum) events = some st) (joined : Joined st) :
    ExecutedOnce st ↔ Throughout step InTime (start num submitterNum) events := by
  obtain ⟨accounted, joinedExited⟩ := reachable_accounted ⟨events, ran⟩
  constructor
  · intro executedOnce
    by_contra late
    have stranded : Stranded st := by
      refine bad_of_not_throughout (fun _ => True) Stranded ?_ ?_ ?_ trivial ran late
      · exact fun _ _ _ _ _ => trivial
      · exact fun _ _ _ _ late stepped => stranded_of_late late (stepped_of_step stepped)
      · exact fun _ _ _ stranded stepped => stranded.stepped (stepped_of_step stepped)
    exact not_executedOnce_of_queued accounted stranded.2 executedOnce
  · intro inTime
    have emptyBehind : EmptyBehind st :=
      invariant_throughout EmptyBehind
        (fun _ _ _ held met stepped => held.stepped met (stepped_of_step stepped))
        (emptyBehind_start num submitterNum) ran inTime
    have all := allExited_of_joined joinedExited joined
    exact executedOnce_of_empty accounted all (emptyBehind all)

end

/-- A task that is pushed while the pool runs and one that comes too late. -/
theorem executed_once_iff_stopped :
    ∃ events st, play step (start 1 1) events = some (st : State Nat) ∧ Joined st ∧
      st.accepted ≠ [] ∧ st.rejected ≠ [] ∧ Throughout step InTime (start 1 1) events := by
  let events : List (Event Nat) :=
    [.check 0 7, .enqueue 0 [], .lock 0, .finish 0, .stop, .clear, .check 0 8,
      .wakeAllThread, .lock 0, .join]
  let st : State Nat :=
    ⟨false, [], 0, [.awake .exited], [.outside], .joining 1, 2, [⟨0, 7⟩], [⟨1, 8⟩],
      [⟨0, 7⟩]⟩
  have ran : play step (start 1 1) events = some st := rfl
  exact ⟨events, st, ran, rfl, by decide, by decide,
    (executed_once_iff ran rfl).mp (by decide)⟩

/-- The pool is stopped and joined between the test of `_is_running` and the push. -/
theorem loses_accepted_task :
    ¬ ∀ st : State Nat, Reachable step (start 1 1) st → Joined st → ExecutedOnce st := by
  intro always
  let events : List (Event Nat) :=
    [.check 0 7, .stop, .clear, .wakeAllThread, .lock 0, .join, .enqueue 0 []]
  let st : State Nat :=
    ⟨false, [⟨0, 7⟩], 0, [.awake .exited], [.outside], .joining 1, 1, [⟨0, 7⟩], [], []⟩
  have ran : play step (start 1 1) events = some st := rfl
  have lost : ¬ ExecutedOnce st := by decide
  exact lost (always st ⟨events, ran⟩ rfl)

end LinuxSystemLearning.ThreadPool
