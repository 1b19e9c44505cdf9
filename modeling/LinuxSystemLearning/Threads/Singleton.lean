import LinuxSystemLearning.Threads.ThreadPool

/-!
# The thread pool as a singleton

`ThreadPool::GetInstance` with the `Start` it calls, and `Enqueue` on what it returned.
`GetInstance` tests `inc` twice, the first time without `_lock`; it assigns `inc` and
calls `Start` behind that, so another thread can have the pointer while `_is_running`
is still false.

A step is one read or write of `inc`, `_is_running` or the mutex, or a step of the pool
as in `ThreadPool`.  Nobody calls `Stop`.
-/

set_option autoImplicit false

namespace LinuxSystemLearning.Singleton

open LinuxSystemLearning.Interleaving
open LinuxSystemLearning.Waiting (countP_set)

variable {τ : Type}

/-- Where a thread stands in `GetInstance`; a pool is named by when it was created. -/
inductive Call where
  | outside
  /-- `inc` was null. -/
  | waiting
  /-- Has `_lock`. -/
  | locked
  /-- `inc` was null again. -/
  | creating
  /-- `inc` is assigned. -/
  | created
  /-- In `Start` of the pool, before the test of `_is_running`. -/
  | entered (p : Nat)
  /-- Before `_is_running = true`. -/
  | idle (p : Nat)
  /-- In the loop over `_threads`. -/
  | launching (p : Nat)
  /-- Before `_lock` is given back. -/
  | leaving
  /-- Before `return inc`. -/
  | returning
  | holds (pointer : Option Nat)

namespace Call

def isInside : Call → Bool
  | .locked => true
  | .creating => true
  | .created => true
  | .entered _ => true
  | .idle _ => true
  | .launching _ => true
  | .leaving => true
  | _ => false

/-- Between the assignment of `inc` and that of `_is_running`. -/
def isStarting : Call → Bool
  | .created => true
  | .entered _ => true
  | .idle _ => true
  | _ => false

end Call

/-- `launched` of the threads have been started. -/
structure Pool (τ : Type) where
  core : ThreadPool.State τ
  launched : Nat

def Pool.isIdle (pool : Pool τ) : Bool := !pool.core.isRunning

/-- `pools` are the objects created so far. -/
structure State (τ : Type) where
  inc : Option Nat
  lock : Bool
  calls : List Call
  pools : List (Pool τ)

inductive Event (τ : Type) where
  /-- The next step of the thread in `GetInstance`. -/
  | getInstance (i : Nat)
  /-- The test of `_is_running` in `Enqueue`. -/
  | enqueue (i : Nat) (task : τ)
  /-- The critical section of `Enqueue`. -/
  | push (i : Nat) (woken : List Nat)
  /-- The thread, outside `Enqueue`, is about to call `GetInstance` again. -/
  | again (i : Nat)
  | lock (p i : Nat)
  | finish (p i : Nat)
  | spurious (p i : Nat)

def start (threadNum : Nat) : State τ :=
  ⟨none, false, List.replicate threadNum .outside, []⟩

def newPool (gnum threadNum : Nat) : Pool τ :=
  ⟨{ ThreadPool.start gnum threadNum with isRunning := false }, 0⟩

def move (i : Nat) (call : Call) (st : State τ) : State τ :=
  { st with calls := st.calls.set i call }

def launch (i p : Nat) (pool : Pool τ) (st : State τ) : State τ :=
  if pool.launched < pool.core.threads.length then
    { st with pools := st.pools.set p { pool with launched := pool.launched + 1 } }
  else move i .leaving st

variable (gnum : Nat)

/-- One step of the thread `i` in `GetInstance`. -/
def getInstance (i : Nat) (st : State τ) : Option (State τ) :=
  match st.calls[i]? with
  | some .outside => some (move i (if st.inc.isNone then .waiting else .returning) st)
  | some .waiting => if st.lock then none else some { move i .locked st with lock := true }
  | some .locked => some (move i (if st.inc.isNone then .creating else .leaving) st)
  | some .creating => some { move i .created st with
      inc := some st.pools.length
      pools := st.pools ++ [newPool gnum st.calls.length] }
  | some .created =>
      match st.inc with
      | none => none -- a null pointer
      | some p => some (move i (.entered p) st)
  | some (.entered p) =>
      match st.pools[p]? with
      | none => none
      | some pool => some (move i (if pool.core.isRunning then .leaving else .idle p) st)
  | some (.idle p) =>
      match st.pools[p]? with
      | none => none
      | some pool => some { move i (.launching p) st with
          pools := st.pools.set p
            { pool with core := { pool.core with isRunning := true } } }
  | some (.launching p) =>
      match st.pools[p]? with
      | none => none
      | some pool => some (launch i p pool st)
  | some .leaving => some { move i .returning st with lock := false }
  | some .returning => some (move i (.holds st.inc) st)
  | _ => none

def run (p : Nat) (event : ThreadPool.Event τ) (st : State τ) : Option (State τ) :=
  match st.pools[p]? with
  | none => none
  | some pool =>
      match ThreadPool.step pool.core event with
      | none => none
      | some core => some { st with pools := st.pools.set p { pool with core := core } }

def worker (p i : Nat) (event : ThreadPool.Event τ) (st : State τ) : Option (State τ) :=
  match st.pools[p]? with
  | none => none
  | some pool => if i < pool.launched then run p event st else none

/-- A call of a method on the pointer the thread `i` has. -/
def onInstance (i : Nat) (event : ThreadPool.Event τ) (st : State τ) : Option (State τ) :=
  match st.calls[i]? with
  | some (.holds (some p)) => run p event st
  | _ => none

def step (st : State τ) : Event τ → Option (State τ)
  | .getInstance i => getInstance gnum i st
  | .enqueue i task => onInstance i (.check i task) st
  | .push i woken => onInstance i (.enqueue i woken) st
  | .again i =>
      match st.calls[i]? with
      | some (.holds (some p)) =>
          match (st.pools[p]?).bind fun pool => pool.core.submitters[i]? with
          | some .outside => some (move i .outside st)
          | _ => none
      | _ => none
  | .lock p i => worker p i (.lock i) st
  | .finish p i => worker p i (.finish i) st
  | .spurious p i => worker p i (.spurious i) st

/-- One object at most, every pointer handed out is to it, and no `Enqueue` returned
false. -/
structure Usable (st : State τ) : Prop where
  single : st.pools.length ≤ 1
  handed : ∀ (i : Nat) (pointer : Option Nat), st.calls[i]? = some (.holds pointer) →
    pointer = some 0 ∧ st.pools.length = 1
  accepted : ∀ pool ∈ st.pools, pool.core.rejected = []

/-- An `Enqueue` that tests `_is_running` does so while no thread is between the
assignment of `inc` and that of `_is_running`. -/
def FindsStarted (st : State τ) : Event τ → Prop
  | .enqueue _ _ => ∀ call ∈ st.calls, call.isStarting = false
  | _ => True

/-! ## Where the threads can be -/

/-- What `inc` is when a thread stands there. -/
def Call.Fits (inc : Option Nat) : Call → Prop
  | .outside => True
  | .waiting => True
  | .locked => True
  | .creating => inc = none
  | .created => inc = some 0
  | .entered p => p = 0 ∧ inc = some 0
  | .idle p => p = 0 ∧ inc = some 0
  | .launching p => p = 0 ∧ inc = some 0
  | .leaving => inc = some 0
  | .returning => inc = some 0
  | .holds pointer => pointer = some 0 ∧ inc = some 0

/-- A pool that does not run is one that some thread is starting. -/
structure Inv (st : State τ) : Prop where
  alone : st.calls.countP Call.isInside = st.lock.toNat
  fits : ∀ (i : Nat) (call : Call), st.calls[i]? = some call → call.Fits st.inc
  single : st.inc = none ∧ st.pools.length = 0 ∨ st.inc = some 0 ∧ st.pools.length = 1
  starting : st.calls.countP Call.isStarting = st.pools.countP Pool.isIdle

def Accepted (st : State τ) : Prop := ∀ pool ∈ st.pools, pool.core.rejected = []

variable {gnum} {st after : State τ} {i p : Nat}

theorem Inv.at_most_one (inv : Inv st) : st.pools.length ≤ 1 := by
  rcases inv.single with ⟨-, none_yet⟩ | ⟨-, one⟩
  · rw [none_yet]
    exact Nat.zero_le 1
  · exact Nat.le_of_eq one

theorem Inv.handed (inv : Inv st) {pointer : Option Nat}
    (found : st.calls[i]? = some (.holds pointer)) :
    pointer = some 0 ∧ st.pools.length = 1 := by
  obtain ⟨first, assigned⟩ := inv.fits i _ found
  rcases inv.single with ⟨null, -⟩ | ⟨-, one⟩
  · rw [null] at assigned
    cases assigned
  · exact ⟨first, one⟩

theorem Inv.usable (inv : Inv st) (accepted : Accepted st) : Usable st :=
  ⟨inv.at_most_one, fun _ _ found => inv.handed found, accepted⟩

/-- While a thread starts the pool, the pool does not run. -/
theorem Inv.idle_of_starting (inv : Inv st) {call : Call} {pool : Pool τ}
    (found : st.calls[i]? = some call) (starting : call.isStarting = true)
    (object : st.pools[p]? = some pool) : pool.isIdle = true := by
  have some_start : 0 < st.calls.countP Call.isStarting :=
    List.countP_pos_iff.mpr ⟨call, List.mem_of_getElem? found, starting⟩
  rw [inv.starting] at some_start
  rcases inv.single with ⟨-, none_yet⟩ | ⟨-, one⟩
  · rw [List.length_eq_zero_iff.mp none_yet] at object
    cases object
  · obtain ⟨only, shape⟩ := List.length_eq_one_iff.mp one
    obtain ⟨member, inPools, isIdle⟩ := List.countP_pos_iff.mp some_start
    have found := List.mem_of_getElem? object
    rw [shape, List.mem_singleton] at inPools found
    rw [found, ← inPools]
    exact isIdle

theorem Inv.running_of_started (inv : Inv st)
    (started : ∀ call ∈ st.calls, call.isStarting = false) {pool : Pool τ}
    (member : pool ∈ st.pools) : pool.core.isRunning = true := by
  have nobody : st.calls.countP Call.isStarting = 0 := by
    rw [List.countP_eq_zero]
    intro call inCalls
    rw [started call inCalls]
    exact Bool.false_ne_true
  rw [inv.starting, List.countP_eq_zero] at nobody
  have runs := nobody pool member
  rw [Pool.isIdle, Bool.not_eq_true, Bool.not_eq_false'] at runs
  exact runs

theorem Inv.others_outside (inv : Inv st) {call : Call} (found : st.calls[i]? = some call)
    (inside : call.isInside = true) {j : Nat} {other : Call} (different : i ≠ j)
    (found' : st.calls[j]? = some other) : other.isInside = false := by
  have fewer := countP_set Call.isInside found .outside
  have still : (st.calls.set i .outside)[j]? = some other := by
    rw [List.getElem?_set_ne different]
    exact found'
  have one := Bool.toNat_le st.lock
  rw [inside, inv.alone] at fewer
  cases other_inside : other.isInside with
  | false => rfl
  | true =>
      have more : 0 < (st.calls.set i .outside).countP Call.isInside :=
        List.countP_pos_iff.mpr ⟨other, List.mem_of_getElem? still, other_inside⟩
      have outside : Call.outside.isInside = false := rfl
      rw [outside] at fewer
      simp only [Bool.toNat_true, Bool.toNat_false] at fewer
      omega

/-! ## What a step does -/

theorem fits_move {calls : List Call} {call : Call} {inc : Option Nat}
    (mine : call.Fits inc)
    (others : ∀ (j : Nat) (other : Call), i ≠ j → calls[j]? = some other → other.Fits inc)
    (j : Nat) (other : Call) (found : (calls.set i call)[j]? = some other) :
    other.Fits inc := by
  rw [List.getElem?_set] at found
  split at found
  · split at found
    · cases found
      exact mine
    · cases found
  · rename_i different
    exact others j other different found

theorem Inv.moved (inv : Inv st) {call : Call} (found : st.calls[i]? = some call)
    (call' : Call) (fits : call'.Fits st.inc) {lock : Bool} {pools : List (Pool τ)}
    (locks : lock.toNat + call.isInside.toNat = st.lock.toNat + call'.isInside.toNat)
    (objects : pools.length = st.pools.length)
    (starts : pools.countP Pool.isIdle + call.isStarting.toNat =
      st.pools.countP Pool.isIdle + call'.isStarting.toNat) :
    Inv { st with calls := st.calls.set i call', lock := lock, pools := pools } := by
  have inside := countP_set Call.isInside found call'
  have starting := countP_set Call.isStarting found call'
  have alone := inv.alone
  have before := inv.starting
  refine ⟨by dsimp only; omega, ?_, ?_, by dsimp only; omega⟩
  · exact fits_move fits fun j other _ => inv.fits j other
  · dsimp only
    rw [objects]
    exact inv.single

theorem Inv.objects (inv : Inv st) {pools : List (Pool τ)}
    (objects : pools.length = st.pools.length)
    (same : pools.countP Pool.isIdle = st.pools.countP Pool.isIdle) :
    Inv { st with pools := pools } := by
  refine ⟨inv.alone, inv.fits, ?_, inv.starting.trans same.symm⟩
  dsimp only
  rw [objects]
  exact inv.single

theorem Inv.create (inv : Inv st) (found : st.calls[i]? = some .creating) :
    Inv { move i .created st with
      inc := some st.pools.length
      pools := st.pools ++ [newPool gnum st.calls.length] } := by
  have null : st.inc = none := inv.fits i _ found
  have none_yet : st.pools.length = 0 := by
    rcases inv.single with ⟨-, none_yet⟩ | ⟨assigned, -⟩
    · exact none_yet
    · rw [null] at assigned
      cases assigned
  have inside : (st.calls.set i .created).countP Call.isInside =
      st.calls.countP Call.isInside :=
    Nat.add_right_cancel (countP_set Call.isInside found .created)
  have starting : (st.calls.set i .created).countP Call.isStarting =
      st.calls.countP Call.isStarting + 1 := countP_set Call.isStarting found .created
  refine ⟨inside.trans inv.alone, ?_, .inr ⟨?_, ?_⟩, ?_⟩
  · refine fits_move (congrArg some none_yet) fun j other different found' => ?_
    -- the others stand where `inc` may be anything: they have read null or nothing
    have outside := inv.others_outside found rfl different found'
    have fits := inv.fits j other found'
    rw [null] at fits
    cases other with
    | outside => exact trivial
    | waiting => exact trivial
    | returning => cases fits
    | holds pointer => cases fits.2
    | locked => cases outside
    | creating => cases outside
    | created => cases outside
    | entered p => cases outside
    | idle p => cases outside
    | launching p => cases outside
    | leaving => cases outside
  · exact congrArg some none_yet
  · dsimp only
    rw [List.length_append, none_yet]
    rfl
  · show (st.calls.set i .created).countP Call.isStarting =
      (st.pools ++ [newPool gnum st.calls.length]).countP Pool.isIdle
    rw [starting, List.countP_append, inv.starting]
    rfl

theorem Inv.assigned_of_isSome (inv : Inv st) (assigned : ¬ st.inc.isNone = true) :
    st.inc = some 0 := by
  rcases inv.single with ⟨null, -⟩ | ⟨first, -⟩
  · rw [null] at assigned
    exact absurd rfl assigned
  · exact first

theorem Inv.getInstance (inv : Inv st)
    (ran : Singleton.getInstance gnum i st = some after) : Inv after := by
  unfold Singleton.getInstance at ran
  split at ran
  · rename_i found
    cases ran
    split
    · exact inv.moved found .waiting trivial rfl rfl rfl
    · rename_i assigned
      exact inv.moved found .returning (inv.assigned_of_isSome assigned) rfl rfl rfl
  · rename_i found
    split at ran
    · cases ran
    · rename_i free
      cases ran
      rw [Bool.not_eq_true] at free
      have locks : true.toNat + Call.waiting.isInside.toNat =
          st.lock.toNat + Call.locked.isInside.toNat := by
        rw [free]
        rfl
      exact inv.moved found .locked trivial locks rfl rfl
  · rename_i found
    cases ran
    split
    · rename_i null
      exact inv.moved found .creating (Option.isNone_iff_eq_none.mp null) rfl rfl rfl
    · rename_i assigned
      exact inv.moved found .leaving (inv.assigned_of_isSome assigned) rfl rfl rfl
  · rename_i found
    cases ran
    exact inv.create found
  · rename_i found
    split at ran
    · cases ran
    · rename_i p assigned
      cases ran
      have first : st.inc = some 0 := inv.fits i _ found
      rw [first] at assigned
      cases assigned
      exact inv.moved found (.entered 0) ⟨rfl, first⟩ rfl rfl rfl
  · rename_i p found
    split at ran
    · cases ran
    · rename_i pool object
      cases ran
      have stopped := inv.idle_of_starting found rfl object
      rw [Pool.isIdle, Bool.not_eq_true'] at stopped
      rw [stopped]
      exact inv.moved found (.idle p) (inv.fits i (.entered p) found) rfl rfl rfl
  · rename_i p found
    split at ran
    · cases ran
    · rename_i pool object
      cases ran
      have stopped := inv.idle_of_starting found rfl object
      have fewer := countP_set Pool.isIdle object
        { pool with core := { pool.core with isRunning := true } }
      rw [stopped] at fewer
      exact inv.moved found (.launching p) (inv.fits i (.idle p) found) rfl List.length_set fewer
  · rename_i p found
    split at ran
    · cases ran
    · rename_i pool object
      cases ran
      unfold launch
      split
      · have same := countP_set Pool.isIdle object
          { pool with launched := pool.launched + 1 }
        exact inv.objects List.length_set (Nat.add_right_cancel same)
      · exact inv.moved found .leaving (inv.fits i _ found).2 rfl rfl rfl
  · rename_i found
    cases ran
    have taken : 0 < st.calls.countP Call.isInside :=
      List.countP_pos_iff.mpr ⟨_, List.mem_of_getElem? found, rfl⟩
    rw [inv.alone] at taken
    have locks : false.toNat + Call.leaving.isInside.toNat =
        st.lock.toNat + Call.returning.isInside.toNat := by
      cases held : st.lock with
      | true => rfl
      | false =>
          rw [held] at taken
          exact absurd taken (Nat.lt_irrefl 0)
    exact inv.moved found .returning (inv.fits i .leaving found) locks rfl rfl
  · rename_i found
    cases ran
    have first : st.inc = some 0 := inv.fits i _ found
    exact inv.moved found (.holds st.inc) ⟨first, first⟩ rfl rfl rfl
  · cases ran

theorem isRunning_kept {core core' : ThreadPool.State τ} {event : ThreadPool.Event τ}
    (stepped : ThreadPool.Stepped core event core') (goes_on : event ≠ .clear) :
    core'.isRunning = core.isRunning := by
  cases stepped with
  | cleared => exact absurd rfl goes_on
  | _ => rfl

/-- Only the test of `_is_running` rejects, and only when it reads false. -/
theorem rejected_kept {core core' : ThreadPool.State τ} {event : ThreadPool.Event τ}
    (stepped : ThreadPool.Stepped core event core')
    (passes : ∀ i task, event = .check i task → core.isRunning = true) :
    core'.rejected = core.rejected := by
  cases stepped with
  | rejected i task stopped =>
      rw [passes i task rfl] at stopped
      cases stopped
  | _ => rfl

theorem run_eq {event : ThreadPool.Event τ} (ran : run p event st = some after) :
    ∃ pool core, st.pools[p]? = some pool ∧ ThreadPool.Stepped pool.core event core ∧
      after = { st with pools := st.pools.set p { pool with core := core } } := by
  unfold run at ran
  split at ran
  · cases ran
  · rename_i pool object
    split at ran
    · cases ran
    · rename_i core stepped
      cases ran
      exact ⟨pool, core, object, ThreadPool.stepped_of_step stepped, rfl⟩

theorem Inv.run {event : ThreadPool.Event τ} (inv : Inv st) (goes_on : event ≠ .clear)
    (ran : Singleton.run p event st = some after) : Inv after := by
  obtain ⟨pool, core, object, stepped, rfl⟩ := run_eq ran
  have same := countP_set Pool.isIdle object { pool with core := core }
  have kept : Pool.isIdle { pool with core := core } = pool.isIdle :=
    congrArg not (isRunning_kept stepped goes_on)
  rw [kept] at same
  exact inv.objects List.length_set (Nat.add_right_cancel same)

theorem Accepted.run {event : ThreadPool.Event τ} (accepted : Accepted st)
    (passes : ∀ pool ∈ st.pools, ∀ i task, event = .check i task →
      pool.core.isRunning = true)
    (ran : Singleton.run p event st = some after) : Accepted after := by
  obtain ⟨pool, core, object, stepped, rfl⟩ := run_eq ran
  intro pool' member
  have inPools := List.mem_of_getElem? object
  rcases List.mem_or_eq_of_mem_set member with other | rfl
  · exact accepted pool' other
  · exact (rejected_kept stepped (passes pool inPools)).trans (accepted pool inPools)

theorem run_of_worker {i : Nat} {event : ThreadPool.Event τ}
    (ran : worker p i event st = some after) : run p event st = some after := by
  unfold worker at ran
  split at ran
  · cases ran
  · split at ran
    · exact ran
    · cases ran

theorem run_of_onInstance {event : ThreadPool.Event τ}
    (ran : onInstance i event st = some after) : ∃ p, run p event st = some after := by
  unfold onInstance at ran
  split at ran
  · rename_i p found
    exact ⟨p, ran⟩
  · cases ran

theorem Inv.step {event : Event τ} (inv : Inv st)
    (stepped : Singleton.step gnum st event = some after) : Inv after := by
  cases event with
  | getInstance i => exact inv.getInstance stepped
  | enqueue i task =>
      obtain ⟨p, ran⟩ := run_of_onInstance stepped
      exact inv.run (by intro same; cases same) ran
  | push i woken =>
      obtain ⟨p, ran⟩ := run_of_onInstance stepped
      exact inv.run (by intro same; cases same) ran
  | again i =>
      simp only [Singleton.step] at stepped
      split at stepped
      · rename_i p found
        split at stepped
        · cases stepped
          exact inv.moved found .outside trivial rfl rfl rfl
        · cases stepped
      · cases stepped
  | lock p i => exact inv.run (by intro same; cases same) (run_of_worker stepped)
  | finish p i => exact inv.run (by intro same; cases same) (run_of_worker stepped)
  | spurious p i => exact inv.run (by intro same; cases same) (run_of_worker stepped)

theorem Accepted.getInstance (accepted : Accepted st)
    (ran : Singleton.getInstance gnum i st = some after) : Accepted after := by
  have set_kept : ∀ {p : Nat} {pool pool' : Pool τ}, st.pools[p]? = some pool →
      pool'.core.rejected = pool.core.rejected →
        ∀ other ∈ st.pools.set p pool', other.core.rejected = [] := by
    intro p pool pool' object same other member
    rcases List.mem_or_eq_of_mem_set member with old | rfl
    · exact accepted other old
    · exact same.trans (accepted pool (List.mem_of_getElem? object))
  unfold Singleton.getInstance at ran
  split at ran
  · cases ran
    exact accepted
  · split at ran
    · cases ran
    · cases ran
      exact accepted
  · cases ran
    exact accepted
  · cases ran
    intro pool member
    rcases List.mem_append.mp member with old | new
    · exact accepted pool old
    · rw [List.mem_singleton.mp new]
      rfl
  · split at ran
    · cases ran
    · cases ran
      exact accepted
  · split at ran
    · cases ran
    · cases ran
      exact accepted
  · split at ran
    · cases ran
    · rename_i pool object
      cases ran
      exact set_kept object rfl
  · split at ran
    · cases ran
    · rename_i pool object
      cases ran
      unfold launch
      split
      · exact set_kept object rfl
      · exact accepted
  · cases ran
    exact accepted
  · cases ran
    exact accepted
  · cases ran

theorem Accepted.step {event : Event τ} (inv : Inv st) (accepted : Accepted st)
    (finds : FindsStarted st event)
    (stepped : Singleton.step gnum st event = some after) : Accepted after := by
  cases event with
  | getInstance i => exact accepted.getInstance stepped
  | enqueue i task =>
      obtain ⟨p, ran⟩ := run_of_onInstance stepped
      exact accepted.run (fun pool member _ _ _ => inv.running_of_started finds member) ran
  | push i woken =>
      obtain ⟨p, ran⟩ := run_of_onInstance stepped
      exact accepted.run (by intro _ _ _ _ same; cases same) ran
  | again i =>
      simp only [Singleton.step] at stepped
      split at stepped
      · split at stepped
        · cases stepped
          exact accepted
        · cases stepped
      · cases stepped
  | lock p i => exact accepted.run (by intro _ _ _ _ same; cases same) (run_of_worker stepped)
  | finish p i => exact accepted.run (by intro _ _ _ _ same; cases same) (run_of_worker stepped)
  | spurious p i =>
      exact accepted.run (by intro _ _ _ _ same; cases same) (run_of_worker stepped)

/-- An `Enqueue` that tests `_is_running` too early returns false. -/
theorem not_usable_of_early {event : Event τ} (inv : Inv st)
    (early : ¬ FindsStarted st event)
    (stepped : step gnum st event = some after) : ¬ Usable after := by
  intro usable
  cases event with
  | enqueue i task =>
      obtain ⟨p, ran⟩ := run_of_onInstance stepped
      obtain ⟨pool, core, object, checked, rfl⟩ := run_eq ran
      simp only [FindsStarted, not_forall, Bool.not_eq_false] at early
      obtain ⟨call, member, starting⟩ := early
      obtain ⟨j, found⟩ := List.getElem?_of_mem member
      have stopped := inv.idle_of_starting found starting object
      rw [Pool.isIdle, Bool.not_eq_true'] at stopped
      have inRange := (List.getElem?_eq_some_iff.mp object).1
      have accepted := usable.accepted { pool with core := core } (List.mem_set inRange _)
      cases checked with
      | checked _ _ _ running =>
          rw [stopped] at running
          cases running
      | rejected => exact absurd accepted (List.append_ne_nil_of_right_ne_nil _
          (List.cons_ne_nil _ _))
      | woken _ only => exact only
  | getInstance _ => exact early trivial
  | push _ _ => exact early trivial
  | again _ => exact early trivial
  | lock _ _ => exact early trivial
  | finish _ _ => exact early trivial
  | spurious _ _ => exact early trivial

/-! ## Every interleaving -/

theorem inv_start (threadNum : Nat) : Inv (start threadNum : State τ) := by
  have nobody : ∀ test : Call → Bool, test .outside = false →
      (start threadNum : State τ).calls.countP test = 0 := by
    intro test fails
    show (List.replicate threadNum Call.outside).countP test = 0
    rw [List.countP_replicate, fails]
    exact if_neg Bool.false_ne_true
  refine ⟨nobody _ rfl, ?_, .inl ⟨rfl, rfl⟩, nobody _ rfl⟩
  intro i call found
  rw [(List.mem_replicate.mp (List.mem_of_getElem? found)).2]
  exact trivial

/-- Whatever the order of the steps, there is one object at most, and every pointer
handed out is to it. -/
theorem one_instance {threadNum : Nat}
    (reached : Reachable (step gnum) (start threadNum) st) :
    st.pools.length ≤ 1 ∧ ∀ (i : Nat) (pointer : Option Nat),
      st.calls[i]? = some (.holds pointer) → pointer = some 0 ∧ st.pools.length = 1 := by
  have inv := reached.invariant Inv (fun _ _ _ inv stepped => inv.step stepped)
    (inv_start threadNum)
  exact ⟨inv.at_most_one, fun _ _ found => inv.handed found⟩

/-- The instance is usable in every state of a run exactly if no `Enqueue` tests
`_is_running` while another thread is between the assignment of `inc` and that of
`_is_running`. -/
theorem usable_iff_finds_started {threadNum : Nat} {events : List (Event τ)}
    {last : State τ} (ran : play (step gnum) (start threadNum) events = some last) :
    Always (step gnum) Usable (start threadNum) events ↔
      Throughout (step gnum) FindsStarted (start threadNum) events := by
  refine always_iff_throughout (fun st => Inv st ∧ Accepted st) ?_ ?_ ?_ ?_ ran
  · exact fun st both => both.1.usable both.2
  · exact fun st event after both finds stepped =>
      ⟨both.1.step stepped, both.2.step both.1 finds stepped⟩
  · exact fun st event after both early stepped => not_usable_of_early both.1 early stepped
  · exact ⟨inv_start threadNum, fun pool member => absurd member List.not_mem_nil⟩

instance (st : State τ) (event : Event τ) : Decidable (FindsStarted st event) :=
  match event with
  | .enqueue _ _ => inferInstanceAs (Decidable (∀ call ∈ st.calls, call.isStarting = false))
  | .getInstance _ => isTrue trivial
  | .push _ _ => isTrue trivial
  | .again _ => isTrue trivial
  | .lock _ _ => isTrue trivial
  | .finish _ _ => isTrue trivial
  | .spurious _ _ => isTrue trivial

/-- One thread creates the pool and has its task accepted. -/
theorem usable_iff_finds_started_alone :
    Always (step 0) Usable (start 1)
      (List.replicate 10 (.getInstance 0) ++ [.enqueue 0 7, .push 0 []] :
        List (Event Nat)) := by
  obtain ⟨last, ran⟩ : ∃ last, play (step 0) (start 1)
      (List.replicate 10 (.getInstance 0) ++ [.enqueue 0 7, .push 0 []] :
        List (Event Nat)) = some last := ⟨_, rfl⟩
  exact (usable_iff_finds_started ran).mpr (by decide)

/-- The second thread has the pointer and calls `Enqueue` before the first one has set
`_is_running`. -/
theorem enqueue_refused :
    let events : List (Event Nat) :=
      List.replicate 4 (.getInstance 0) ++ [.getInstance 1, .getInstance 1, .enqueue 1 7]
    (play (step 5) (start 2) events).isSome = true ∧
      ¬ Always (step 5) Usable (start 2) events := by
  intro events
  refine ⟨rfl, ?_⟩
  intro usable
  obtain ⟨last, ran, refused⟩ : ∃ last : State Nat,
      play (step 5) (start 2) events = some last ∧
        ∃ pool ∈ last.pools, pool.core.rejected ≠ [] :=
    ⟨_, rfl, _, List.mem_singleton_self _, List.cons_ne_nil _ _⟩
  obtain ⟨pool, member, rejected⟩ := refused
  exact rejected ((usable.last ran).accepted pool member)

end LinuxSystemLearning.Singleton
