import LinuxSystemLearning.Library.Interleaving

/-!
# The thread wrapper

Two flags of a `Thread` object stand for what became of the thread it started.  The calls
of the pthread library are recorded; `pthread_create` succeeds and names the threads by
1, 2, and so on.
-/

set_option autoImplicit false

namespace LinuxSystemLearning.ThreadModule

open LinuxSystemLearning.Interleaving

/-! ## The object -/

inductive Pthread where
  | create (tid : Nat)
  | detach (tid : Nat)
  | cancel (tid : Nat)
  | join (tid : Nat)
deriving DecidableEq, Repr

/-- The members of the class; `trace` are the calls made so far, the last one in front,
and `detachCalled` tells whether the user called `Detach`. -/
structure Thread where
  tid : Nat
  isdetach : Bool
  isrunning : Bool
  trace : List Pthread
  detachCalled : Bool
deriving DecidableEq, Repr

def Thread.new : Thread where
  tid := 0
  isdetach := false
  isrunning := false
  trace := []
  detachCalled := false

def Thread.calls (call : Pthread) (thread : Thread) : Thread :=
  { thread with trace := call :: thread.trace }

def enableDetach (thread : Thread) : Thread :=
  if thread.isrunning then thread else { thread with isdetach := true }

def detach (thread : Thread) : Thread :=
  if thread.isdetach then thread
  else enableDetach (if thread.isrunning then thread.calls (.detach thread.tid) else thread)

def enableRunning (thread : Thread) : Thread := { thread with isrunning := true }

/-- What the new thread does to the object in the later version of `Routine`. -/
def routine (thread : Thread) : Thread := if thread.isdetach then detach thread else thread

def created (thread : Thread) : Thread :=
  { thread with
    tid := thread.tid + 1
    trace := .create (thread.tid + 1) :: thread.trace }

def start (thread : Thread) : Thread :=
  if thread.isrunning then thread
  else
    let thread := enableRunning (created thread)
    if thread.isdetach then detach thread else thread

/-- `canceled` is what `pthread_cancel` answers. -/
def stop (canceled : Bool) (thread : Thread) : Thread :=
  if thread.isrunning then
    let thread := thread.calls (.cancel thread.tid)
    if canceled then { thread with isrunning := false } else thread
  else thread

def join (thread : Thread) : Thread :=
  if thread.isdetach then thread else thread.calls (.join thread.tid)

inductive Call where
  | start
  | detach
  | stop (canceled : Bool)
  | join
  | routine
deriving DecidableEq, Repr

/-- A call of the user, or the new thread reading the flag, at any time. -/
def step (thread : Thread) : Call → Option Thread
  | .start => some (start thread)
  | .detach => some { detach thread with detachCalled := true }
  | .stop canceled => some (stop canceled thread)
  | .join => some (join thread)
  | .routine => some (routine thread)

/-! ## What the calls are to keep -/

/-- Each join is of a thread that was created, and neither detached nor joined before. -/
def JoinsSound : List Pthread → Prop
  | [] => True
  | .join tid :: earlier =>
      (.create tid ∈ earlier ∧ .detach tid ∉ earlier ∧ .join tid ∉ earlier) ∧
        JoinsSound earlier
  | _ :: earlier => JoinsSound earlier

/-- The thread was detached while it could be: nobody had joined it. -/
def Detached (tid : Nat) : List Pthread → Prop
  | [] => False
  | call :: earlier => (call = .detach tid ∧ .join tid ∉ earlier) ∨ Detached tid earlier

structure Sound (thread : Thread) : Prop where
  detachOnce : ∀ tid, thread.trace.count (.detach tid) ≤ 1
  joins : JoinsSound thread.trace
  detached : thread.detachCalled = true → thread.tid ≠ 0 → Detached thread.tid thread.trace

/-- The thread of the object is there, and nobody has detached or joined it. -/
def Joinable (thread : Thread) : Prop :=
  thread.tid ≠ 0 ∧ .detach thread.tid ∉ thread.trace ∧ .join thread.tid ∉ thread.trace

instance (thread : Thread) : Decidable (Joinable thread) :=
  inferInstanceAs (Decidable (_ ∧ _ ∧ _))

/-- A thread is started before `Detach` is ever called; `Detach` is called while there is
no thread, or while the thread runs and can be detached, or again after it was stopped;
and what is joined is there to be joined. -/
def Proper (thread : Thread) : Call → Prop
  | .start => thread.isrunning = true ∨ thread.detachCalled = false
  | .detach =>
      thread.isdetach = true ∨ thread.tid = 0 ∨
        (thread.isrunning = true ∧ Joinable thread) ∨
        (thread.isrunning = false ∧ .detach thread.tid ∈ thread.trace)
  | .stop _ => True
  | .join => thread.isdetach = true ∨ Joinable thread
  | .routine => True

instance (thread : Thread) (call : Call) : Decidable (Proper thread call) :=
  match call with
  | .start => inferInstanceAs (Decidable (_ ∨ _))
  | .detach => inferInstanceAs (Decidable (_ ∨ _ ∨ _ ∨ _))
  | .stop _ => inferInstanceAs (Decidable True)
  | .join => inferInstanceAs (Decidable (_ ∨ _))
  | .routine => inferInstanceAs (Decidable True)

/-! ## What the calls do -/

variable {thread : Thread}

theorem detach_flag (flag : thread.isdetach = true) : detach thread = thread := by
  simp [detach, flag]

theorem detach_running (flag : thread.isdetach = false) (running : thread.isrunning = true) :
    detach thread = thread.calls (.detach thread.tid) := by
  simp [detach, enableDetach, Thread.calls, flag, running]

theorem detach_idle (flag : thread.isdetach = false) (idle : thread.isrunning = false) :
    detach thread = { thread with isdetach := true } := by
  simp [detach, enableDetach, flag, idle]

/-- `Start` calls `Detach` only with the flag set, when `Detach` does nothing. -/
theorem start_idle (idle : thread.isrunning = false) :
    start thread = enableRunning (created thread) := by
  unfold start
  rw [if_neg (by simp [idle])]
  dsimp only
  split
  · rename_i flag
    exact detach_flag flag
  · rfl

theorem start_running (running : thread.isrunning = true) : start thread = thread := by
  simp [start, running]

/-- The new thread calls `Detach` only with the flag set as well. -/
theorem routine_eq (thread : Thread) : routine thread = thread := by
  unfold routine
  split
  · rename_i flag
    exact detach_flag flag
  · rfl

theorem join_open (flag : thread.isdetach = false) :
    join thread = thread.calls (.join thread.tid) := by
  simp [join, flag]

/-! ## The trace -/

theorem Detached.mem {tid : Nat} {trace : List Pthread} (detached : Detached tid trace) :
    .detach tid ∈ trace := by
  induction trace with
  | nil => exact detached.elim
  | cons call earlier ih =>
      rcases detached with here | before
      · exact here.1 ▸ List.mem_cons_self
      · exact List.mem_cons_of_mem _ (ih before)

structure Inv (thread : Thread) : Prop where
  sound : Sound thread
  zero : .create 0 ∉ thread.trace
  created : thread.tid ≠ 0 → .create thread.tid ∈ thread.trace
  noDetach : ∀ tid, thread.tid < tid → .detach tid ∉ thread.trace
  flag : thread.isdetach = true → thread.detachCalled = true
  runs : thread.isrunning = true → thread.tid ≠ 0
  asked : ∀ tid, .detach tid ∈ thread.trace → thread.detachCalled = true

theorem inv_new : Inv Thread.new where
  sound := ⟨by simp [Thread.new], trivial, by simp [Thread.new]⟩
  zero := List.not_mem_nil
  created := fun present => absurd rfl present
  noDetach := fun _ _ => List.not_mem_nil
  flag := fun flag => by cases flag
  runs := fun running => by cases running
  asked := fun _ member => absurd member List.not_mem_nil

/-- A call that neither detaches nor joins changes nothing about the other calls. -/
theorem Sound.calls_cancel (sound : Sound thread) (tid : Nat) :
    Sound (thread.calls (.cancel tid)) where
  detachOnce := by
    intro other
    simpa [Thread.calls] using sound.detachOnce other
  joins := sound.joins
  detached := fun asked present => Or.inr (sound.detached asked present)

theorem Inv.stop (inv : Inv thread) (canceled : Bool) :
    Inv (ThreadModule.stop canceled thread) := by
  have recorded : Inv (thread.calls (.cancel thread.tid)) :=
    { sound := inv.sound.calls_cancel thread.tid
      zero := by simpa [Thread.calls] using inv.zero
      created := fun present => List.mem_cons_of_mem _ (inv.created present)
      noDetach := by simpa [Thread.calls] using inv.noDetach
      flag := inv.flag
      runs := inv.runs
      asked := by simpa [Thread.calls] using inv.asked }
  unfold ThreadModule.stop
  split
  · cases canceled with
    | false => exact recorded
    | true => exact { recorded with
        sound := ⟨recorded.sound.detachOnce, recorded.sound.joins, recorded.sound.detached⟩
        runs := fun running => by cases running }
  · exact inv

theorem Inv.start (inv : Inv thread)
    (proper : thread.isrunning = true ∨ thread.detachCalled = false) :
    Inv (ThreadModule.start thread) := by
  cases running : thread.isrunning with
  | true =>
      rw [start_running running]
      exact inv
  | false =>
      have silent : thread.detachCalled = false := by simpa [running] using proper
      rw [start_idle running]
      refine ⟨⟨?_, inv.sound.joins, ?_⟩, ?_, ?_, ?_, inv.flag, ?_, ?_⟩
      · simpa [enableRunning, ThreadModule.created] using inv.sound.detachOnce
      · intro asked
        exact absurd asked (by simp [enableRunning, ThreadModule.created, silent])
      · simpa [enableRunning, ThreadModule.created] using inv.zero
      · exact fun _ => List.mem_cons_self
      · intro tid above
        have before := inv.noDetach tid (Nat.lt_of_succ_lt above)
        simpa [enableRunning, ThreadModule.created] using before
      · exact fun _ => Nat.succ_ne_zero _
      · simpa [enableRunning, ThreadModule.created] using inv.asked

theorem Inv.detach (inv : Inv thread) (proper : Proper thread .detach) :
    Inv { ThreadModule.detach thread with detachCalled := true } := by
  cases flag : thread.isdetach with
  | true =>
      have asked := inv.flag flag
      rw [detach_flag flag, ← asked]
      exact inv
  | false =>
      cases running : thread.isrunning with
      | true =>
          have present := inv.runs running
          have joinable : Joinable thread := by
            simpa [Proper, flag, running, present] using proper
          rw [detach_running flag running]
          refine ⟨⟨?_, inv.sound.joins, ?_⟩, ?_, ?_, ?_, fun _ => rfl, inv.runs, fun _ _ => rfl⟩
          · intro tid
            have before := inv.sound.detachOnce tid
            dsimp only [Thread.calls]
            by_cases same : tid = thread.tid
            · have none : thread.trace.count (.detach tid) = 0 := by
                rw [same]
                exact List.count_eq_zero_of_not_mem joinable.2.1
              rw [same] at none ⊢
              simp [none]
            · simpa [List.count_cons, Ne.symm same] using before
          · exact fun _ _ => Or.inl ⟨rfl, joinable.2.2⟩
          · simpa [Thread.calls] using inv.zero
          · exact fun present => List.mem_cons_of_mem _ (inv.created present)
          · intro tid above
            have other : tid ≠ thread.tid := Nat.ne_of_gt above
            simpa [Thread.calls, other] using inv.noDetach tid above
      | false =>
          rw [detach_idle flag running]
          refine ⟨⟨inv.sound.detachOnce, inv.sound.joins, ?_⟩, inv.zero, inv.created,
            inv.noDetach, fun _ => rfl, inv.runs, fun _ _ => rfl⟩
          intro _ present
          have before : .detach thread.tid ∈ thread.trace := by
            simpa [Proper, flag, running, present] using proper
          exact inv.sound.detached (inv.asked _ before) present

theorem Inv.join (inv : Inv thread) (proper : Proper thread .join) :
    Inv (ThreadModule.join thread) := by
  cases flag : thread.isdetach with
  | true =>
      have same : ThreadModule.join thread = thread := by simp [ThreadModule.join, flag]
      rw [same]
      exact inv
  | false =>
      have joinable : Joinable thread := by simpa [Proper, flag] using proper
      rw [join_open flag]
      refine ⟨⟨?_, ⟨⟨inv.created joinable.1, joinable.2⟩, inv.sound.joins⟩, ?_⟩, ?_, ?_, ?_,
        inv.flag, inv.runs, ?_⟩
      · simpa [Thread.calls] using inv.sound.detachOnce
      · exact fun asked present => Or.inr (inv.sound.detached asked present)
      · simpa [Thread.calls] using inv.zero
      · exact fun present => List.mem_cons_of_mem _ (inv.created present)
      · simpa [Thread.calls] using inv.noDetach
      · simpa [Thread.calls] using inv.asked

theorem Inv.step {after : Thread} {call : Call} (inv : Inv thread)
    (proper : Proper thread call) (stepped : ThreadModule.step thread call = some after) :
    Inv after := by
  cases call with
  | start =>
      cases stepped
      exact inv.start proper
  | detach =>
      cases stepped
      exact inv.detach proper
  | stop canceled =>
      cases stepped
      exact inv.stop canceled
  | join =>
      cases stepped
      exact inv.join proper
  | routine =>
      cases stepped
      rw [routine_eq]
      exact inv

/-! ## Calls that are not proper -/

/-- A thread started after `Detach` is never detached: the flag that is set by then keeps
`Detach` from doing it. -/
theorem Inv.start_unsound (inv : Inv thread) (bad : ¬ Proper thread .start) :
    ¬ Sound (ThreadModule.start thread) := by
  obtain ⟨idle, asked⟩ := not_or.mp bad
  rw [Bool.not_eq_true] at idle
  rw [Bool.not_eq_false] at asked
  rw [start_idle idle]
  intro sound
  have detached := (sound.detached asked (Nat.succ_ne_zero _)).mem
  have fresh := inv.noDetach (thread.tid + 1) (Nat.lt_succ_self _)
  exact fresh (by simpa [enableRunning, ThreadModule.created] using detached)

theorem detach_unsound (bad : ¬ Proper thread .detach) :
    ¬ Sound { ThreadModule.detach thread with detachCalled := true } := by
  obtain ⟨flag, present, running, stopped⟩ : thread.isdetach = false ∧ thread.tid ≠ 0 ∧
      (thread.isrunning = true → ¬ Joinable thread) ∧
      (thread.isrunning = false → .detach thread.tid ∉ thread.trace) := by
    simpa [Proper] using bad
  cases state : thread.isrunning with
  | true =>
      rw [detach_running flag state]
      intro sound
      by_cases before : .detach thread.tid ∈ thread.trace
      · -- The flag was not set while the thread ran, so the second call detaches it again.
        have twice := sound.detachOnce thread.tid
        have once := List.count_pos_iff.mpr before
        simp only [Thread.calls, List.count_cons_self] at twice
        omega
      · rcases sound.detached rfl present with ⟨-, unjoined⟩ | earlier
        · exact running state ⟨present, before, unjoined⟩
        · exact before earlier.mem
  | false =>
      rw [detach_idle flag state]
      intro sound
      exact stopped state (sound.detached rfl present).mem

theorem Inv.join_unsound (inv : Inv thread) (bad : ¬ Proper thread .join) :
    ¬ Sound (ThreadModule.join thread) := by
  obtain ⟨flag, bad⟩ := not_or.mp bad
  rw [Bool.not_eq_true] at flag
  rw [join_open flag]
  intro sound
  obtain ⟨⟨created, fresh⟩, -⟩ := sound.joins
  apply bad
  refine ⟨?_, fresh⟩
  intro none
  rw [none] at created
  exact inv.zero created

theorem Inv.unsound {after : Thread} {call : Call} (inv : Inv thread)
    (bad : ¬ Proper thread call) (stepped : ThreadModule.step thread call = some after) :
    ¬ Sound after := by
  cases call with
  | start =>
      cases stepped
      exact inv.start_unsound bad
  | detach =>
      cases stepped
      exact detach_unsound bad
  | stop canceled => exact absurd trivial bad
  | join =>
      cases stepped
      exact inv.join_unsound bad
  | routine => exact absurd trivial bad

theorem step_total (thread : Thread) (call : Call) :
    ∃ after, step thread call = some after := by
  cases call with
  | start => exact ⟨_, rfl⟩
  | detach => exact ⟨_, rfl⟩
  | stop canceled => exact ⟨_, rfl⟩
  | join => exact ⟨_, rfl⟩
  | routine => exact ⟨_, rfl⟩

/-- The flags stand for what became of the thread exactly in the runs in which each call
is proper. -/
theorem sound_iff_proper (calls : List Call) :
    Always step Sound Thread.new calls ↔ Throughout step Proper Thread.new calls := by
  obtain ⟨last, ran⟩ := exists_play step_total Thread.new calls
  exact always_iff_throughout Inv (fun _ inv => inv.sound)
    (fun _ _ _ inv proper stepped => inv.step proper stepped)
    (fun _ _ _ inv bad stepped => inv.unsound bad stepped) inv_new ran

/-- `Detach` before `Start`: the thread is left as it was created. -/
theorem detach_before_start_lost :
    ¬ Always step Sound Thread.new [.detach, .start] := by
  intro always
  have sound := always.last rfl
  have detached := (sound.detached rfl (by decide)).mem
  exact absurd detached (by decide)

/-- A thread that is started, detached and stopped. -/
example : Throughout step Proper Thread.new [.start, .routine, .detach, .stop true] := by
  decide

end LinuxSystemLearning.ThreadModule
