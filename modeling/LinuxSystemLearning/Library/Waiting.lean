import LinuxSystemLearning.Library.Interleaving
import Mathlib.Data.List.Forall2

/-!
# Threads that wait on a condition variable

A group of threads, some of which wait on one condition variable.  A thread that
waits is `blocked` until a signal, a broadcast or a spurious wakeup makes it
`woken`; it still is inside the wait then, until it has the mutex again.  What
a thread does outside the wait and what it keeps in mind during it are
parameters.

`Supply` is the abstract side: items that wait to be taken, threads that will
look for one before they sleep again, and threads that only a wakeup brings
back.  No wakeup is lost when a sleeper means that there are as many of the
former as items, and this survives every `Supply.Move`.
-/

set_option autoImplicit false

namespace LinuxSystemLearning.Waiting

universe u v w

inductive Thread (α : Type u) (β : Type v) where
  | awake (doing : α)
  | blocked (wait : β)
  | woken (wait : β)
  deriving DecidableEq

variable {α : Type u} {β : Type v}

namespace Thread

def isBlocked : Thread α β → Bool
  | .blocked _ => true
  | _ => false

/-- Outside the wait, and what it does there satisfies `test`. -/
def isDoing (test : α → Bool) : Thread α β → Bool
  | .awake doing => test doing
  | _ => false

/-- The thread will get the mutex and look before it waits again. -/
def isReady (looks : α → Bool) : Thread α β → Bool
  | .awake doing => looks doing
  | .blocked _ => false
  | .woken _ => true

def isWaiting : Thread α β → Bool
  | .awake _ => false
  | _ => true

def wake : Thread α β → Thread α β
  | .blocked wait => .woken wait
  | thread => thread

section

variable (doing : α) (wait : β) (test : α → Bool)

@[simp] theorem isBlocked_awake : (awake doing : Thread α β).isBlocked = false := rfl
@[simp] theorem isBlocked_blocked : (blocked wait : Thread α β).isBlocked = true := rfl
@[simp] theorem isBlocked_woken : (woken wait : Thread α β).isBlocked = false := rfl

@[simp] theorem isDoing_awake :
    (awake doing : Thread α β).isDoing test = test doing := rfl
@[simp] theorem isDoing_blocked :
    (blocked wait : Thread α β).isDoing test = false := rfl
@[simp] theorem isDoing_woken : (woken wait : Thread α β).isDoing test = false := rfl

@[simp] theorem isReady_awake :
    (awake doing : Thread α β).isReady test = test doing := rfl
@[simp] theorem isReady_blocked :
    (blocked wait : Thread α β).isReady test = false := rfl
@[simp] theorem isReady_woken : (woken wait : Thread α β).isReady test = true := rfl

@[simp] theorem isWaiting_awake : (awake doing : Thread α β).isWaiting = false := rfl
@[simp] theorem isWaiting_blocked :
    (blocked wait : Thread α β).isWaiting = true := rfl
@[simp] theorem isWaiting_woken : (woken wait : Thread α β).isWaiting = true := rfl

end

end Thread

open Thread

/-! ## Counting -/

/-- The threads that are blocked with no wakeup pending. -/
def asleep (threads : List (Thread α β)) : Nat := threads.countP isBlocked

def ready (looks : α → Bool) (threads : List (Thread α β)) : Nat :=
  threads.countP (isReady looks)

/-- The threads with a pending wakeup that have not got the mutex again. -/
def stirring (threads : List (Thread α β)) : Nat := ready (fun _ => false) threads

def waiting (threads : List (Thread α β)) : Nat := threads.countP isWaiting

def doing (test : α → Bool) (threads : List (Thread α β)) : Nat :=
  threads.countP (isDoing test)

theorem countP_cons {γ : Type w} (test : γ → Bool) (thread : γ) (rest : List γ) :
    (thread :: rest).countP test = rest.countP test + (test thread).toNat := by
  rw [List.countP_cons]
  cases test thread <;> rfl

theorem countP_concat {γ : Type w} (test : γ → Bool) (threads : List γ) (thread : γ) :
    (threads ++ [thread]).countP test = threads.countP test + (test thread).toNat := by
  rw [List.countP_append, countP_cons, List.countP_nil, Nat.zero_add]

/-- One thread moves: what it no longer counts for, it counted for before. -/
theorem countP_set {γ : Type w} (test : γ → Bool) {threads : List γ} {i : Nat}
    {old : γ} (found : threads[i]? = some old) (new : γ) :
    (threads.set i new).countP test + (test old).toNat =
      threads.countP test + (test new).toNat := by
  induction threads generalizing i with
  | nil => simp at found
  | cons thread rest ih =>
      cases i with
      | zero =>
          cases found
          rw [List.set_cons_zero, countP_cons, countP_cons]
          omega
      | succ i =>
          have tail := ih (by simpa using found)
          rw [List.set_cons_succ, countP_cons, countP_cons]
          omega

theorem getElem?_set_found {γ : Type w} {threads : List γ} {i : Nat} {old : γ}
    (found : threads[i]? = some old) (new : γ) : (threads.set i new)[i]? = some new :=
  List.getElem?_set_self (List.getElem?_eq_some_iff.mp found).1

theorem doing_set (test : α → Bool) {threads : List (Thread α β)} {i : Nat}
    {old : Thread α β} (found : threads[i]? = some old) (new : Thread α β) :
    doing test (threads.set i new) + (old.isDoing test).toNat =
      doing test threads + (new.isDoing test).toNat :=
  countP_set (isDoing test) found new

theorem asleep_add_stirring (threads : List (Thread α β)) :
    asleep threads + stirring threads = waiting threads := by
  induction threads with
  | nil => rfl
  | cons thread rest ih =>
      unfold asleep stirring ready waiting at *
      rw [countP_cons, countP_cons, countP_cons]
      cases thread <;> simp <;> omega

/-- A counter of the threads in the wait, without the one that has just got the mutex
again. -/
def without (num : Int) (thread : Thread α β) : Int := num - thread.isWaiting.toNat

/-- The counter follows a thread into the wait and out of it. -/
theorem waiting_set {num : Int} {threads : List (Thread α β)} {i : Nat}
    {thread : Thread α β} (counted : num = waiting threads)
    (found : threads[i]? = some thread) (new : Thread α β) :
    without num thread + new.isWaiting.toNat = waiting (threads.set i new) := by
  have count := countP_set isWaiting found new
  unfold without
  unfold waiting at counted ⊢
  omega

/-! ## Wakeups -/

/-- Some of the threads were woken and nothing else happened. -/
def Wakes (before after : List (Thread α β)) : Prop :=
  List.Forall₂ (fun thread thread' => thread' = thread ∨ thread' = thread.wake)
    before after

theorem Wakes.refl (threads : List (Thread α β)) : Wakes threads threads := by
  induction threads with
  | nil => exact .nil
  | cons thread rest ih => exact .cons (.inl rfl) ih

theorem wake_wake (thread : Thread α β) : thread.wake.wake = thread.wake := by
  cases thread <;> rfl

theorem Wakes.trans {before middle after : List (Thread α β)}
    (one : Wakes before middle) (two : Wakes middle after) : Wakes before after := by
  induction one generalizing after with
  | nil => exact two
  | cons head _ ih =>
      cases two with
      | cons head' tail' =>
          refine .cons ?_ (ih tail')
          rcases head with rfl | rfl
          · exact head'
          · rw [wake_wake] at head'
            exact .inr (head'.elim id id)

/-- A wakeup shows only in what tells the woken from the blocked. -/
theorem Wakes.map_eq {γ : Type w} {before after : List (Thread α β)}
    (wakes : Wakes before after) (view : Thread α β → γ)
    (same : ∀ thread, view thread.wake = view thread) :
    after.map view = before.map view := by
  induction wakes with
  | nil => rfl
  | cons head _ ih =>
      rw [List.map_cons, List.map_cons, ih]
      rcases head with rfl | rfl
      · rfl
      · rw [same]

theorem Wakes.countP_eq {before after : List (Thread α β)}
    (wakes : Wakes before after) (test : Thread α β → Bool)
    (same : ∀ thread, test thread.wake = test thread) :
    after.countP test = before.countP test := by
  have mapped := wakes.map_eq test same
  have count : ∀ threads : List (Thread α β),
      threads.countP test = (threads.map test).countP id := by
    intro threads
    rw [List.countP_map]
    rfl
  rw [count after, count before, mapped]

theorem Wakes.length_eq {before after : List (Thread α β)}
    (wakes : Wakes before after) : after.length = before.length :=
  (List.Forall₂.length_eq wakes).symm

theorem Wakes.waiting_eq {before after : List (Thread α β)}
    (wakes : Wakes before after) : waiting after = waiting before :=
  wakes.countP_eq isWaiting fun thread => by cases thread <;> rfl

theorem Wakes.doing_eq {before after : List (Thread α β)}
    (wakes : Wakes before after) (test : α → Bool) :
    doing test after = doing test before :=
  wakes.countP_eq (isDoing test) fun thread => by cases thread <;> rfl

/-- A thread outside the wait is left alone. -/
theorem Wakes.getElem?_awake {before after : List (Thread α β)}
    (wakes : Wakes before after) {i : Nat} {doing : α}
    (found : before[i]? = some (.awake doing)) : after[i]? = some (.awake doing) := by
  induction wakes generalizing i with
  | nil => simp at found
  | cons head _ ih =>
      cases i with
      | zero =>
          cases found
          rcases head with rfl | rfl
          · rfl
          · rfl
      | succ i => exact ih found

/-- Whoever is no longer asleep is ready. -/
theorem Wakes.ready_add_asleep {before after : List (Thread α β)}
    (wakes : Wakes before after) (looks : α → Bool) :
    ready looks after + asleep after = ready looks before + asleep before ∧
      asleep after ≤ asleep before := by
  induction wakes with
  | nil => exact ⟨rfl, Nat.le_refl _⟩
  | @cons thread _ _ _ head _ ih =>
      unfold ready asleep at *
      rcases head with rfl | rfl
      · rw [countP_cons, countP_cons, countP_cons, countP_cons]
        omega
      · rw [countP_cons, countP_cons, countP_cons, countP_cons]
        cases thread <;> simp [wake] <;> omega

def wakeAt (threads : List (Thread α β)) (i : Nat) : List (Thread α β) :=
  threads.modify i Thread.wake

def wakeAll (threads : List (Thread α β)) : List (Thread α β) :=
  threads.map Thread.wake

/-- `pthread_cond_signal` when the scheduler wakes the chosen threads: at least one
of them if any is blocked. -/
def signal (chosen : List Nat) (threads : List (Thread α β)) :
    Option (List (Thread α β)) :=
  let after := chosen.foldl wakeAt threads
  if asleep threads = 0 ∨ asleep after < asleep threads then some after else none

theorem wakes_wakeAt (threads : List (Thread α β)) (i : Nat) :
    Wakes threads (wakeAt threads i) := by
  induction threads generalizing i with
  | nil => simp [wakeAt, Wakes]
  | cons thread rest ih =>
      cases i with
      | zero => exact .cons (.inr rfl) (Wakes.refl rest)
      | succ i => exact .cons (.inl rfl) (ih i)

theorem wakes_wakeAll (threads : List (Thread α β)) :
    Wakes threads (wakeAll threads) := by
  induction threads with
  | nil => exact .nil
  | cons thread rest ih => exact .cons (.inr rfl) ih

theorem wakes_foldl (chosen : List Nat) (threads : List (Thread α β)) :
    Wakes threads (chosen.foldl wakeAt threads) := by
  induction chosen generalizing threads with
  | nil => exact Wakes.refl threads
  | cons i chosen ih => exact (wakes_wakeAt threads i).trans (ih _)

theorem wakes_of_signal {chosen : List Nat} {threads after : List (Thread α β)}
    (signalled : signal chosen threads = some after) :
    Wakes threads after ∧ (asleep after < asleep threads ∨ asleep after = 0) := by
  have wakes := wakes_foldl chosen threads
  unfold signal at signalled
  dsimp only at signalled
  split at signalled
  · rename_i heard
    cases signalled
    refine ⟨wakes, ?_⟩
    have fewer := (wakes.ready_add_asleep fun _ => false).2
    omega
  · cases signalled

/-! ## Items and those who take them -/

structure Supply where
  items : Nat
  ready : Nat
  asleep : Nat

/-- No wakeup is lost: nobody sleeps next to an item that nobody is on the way to. -/
def Supply.Covered (supply : Supply) : Prop :=
  0 < supply.asleep → supply.items ≤ supply.ready

inductive Supply.Move (before after : Supply) : Prop where
  /-- An item comes and, if anybody sleeps, somebody is woken. -/
  | supply (more : after.items = before.items + 1)
      (threads : after.ready + after.asleep = before.ready + before.asleep)
      (signalled : after.asleep < before.asleep ∨ after.asleep = 0)
  /-- An item comes for which somebody is on the way already. -/
  | expected (more : after.items = before.items + 1)
      (room : before.items < before.ready) (ready : after.ready = before.ready)
  /-- One of those who are ready takes an item, or somebody else does. -/
  | take (fewer : after.items + 1 = before.items)
      (ready : before.ready ≤ after.ready + 1) (asleep : after.asleep = before.asleep)
  /-- A thread goes to sleep, having seen that there is nothing. -/
  | sleep (nothing : after.items = 0)
  /-- Somebody gets ready. -/
  | wake (same : after.items = before.items) (ready : before.ready ≤ after.ready)
      (asleep : after.asleep ≤ before.asleep)

theorem Supply.Covered.move {before after : Supply} (covered : before.Covered)
    (move : Supply.Move before after) : after.Covered := by
  unfold Supply.Covered at *
  intro sleeps
  cases move with
  | supply more threads signalled => omega
  | expected more room ready => omega
  | take fewer ready asleep => omega
  | sleep nothing => omega
  | wake same ready asleep => omega

def supplyOf (looks : α → Bool) (items : Nat) (threads : List (Thread α β)) : Supply :=
  ⟨items, ready looks threads, asleep threads⟩

section Moves

variable {looks : α → Bool} {items : Nat} {threads after : List (Thread α β)}

theorem Supply.move_signal {chosen : List Nat}
    (signalled : signal chosen threads = some after) :
    Supply.Move (supplyOf looks items threads) (supplyOf looks (items + 1) after) := by
  obtain ⟨wakes, fewer⟩ := wakes_of_signal signalled
  exact .supply rfl (wakes.ready_add_asleep looks).1 fewer

theorem Supply.move_wakes (wakes : Wakes threads after) :
    Supply.Move (supplyOf looks items threads) (supplyOf looks items after) := by
  have counts := wakes.ready_add_asleep looks
  refine .wake rfl ?_ counts.2
  simp only [supplyOf]
  omega

theorem Supply.move_take {i : Nat} {old : Thread α β} {doing : α}
    (found : threads[i]? = some old) (up : old.isBlocked = false) :
    Supply.Move (supplyOf looks (items + 1) threads)
      (supplyOf looks items (threads.set i (.awake doing))) := by
  have readyCount := countP_set (isReady looks) found (.awake doing)
  have asleepCount := countP_set isBlocked found (.awake doing)
  have one := Bool.toNat_le (old.isReady looks)
  rw [up] at asleepCount
  refine .take rfl ?_ ?_
  · simp only [supplyOf, Waiting.ready]
    omega
  · simpa [supplyOf, Waiting.asleep] using asleepCount

theorem Supply.move_awake {i : Nat} {doing new : α}
    (found : threads[i]? = some (.awake doing))
    (still : (looks doing).toNat ≤ (looks new).toNat) :
    Supply.Move (supplyOf looks items threads)
      (supplyOf looks items (threads.set i (.awake new))) := by
  have readyCount := countP_set (isReady looks) found (.awake new)
  have asleepCount := countP_set isBlocked found (.awake new)
  rw [isReady_awake, isReady_awake] at readyCount
  rw [isBlocked_awake, isBlocked_awake] at asleepCount
  refine .wake rfl ?_ ?_
  · simp only [supplyOf, Waiting.ready]
    omega
  · simp only [supplyOf, Waiting.asleep]
    omega

end Moves

end LinuxSystemLearning.Waiting
