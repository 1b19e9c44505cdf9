import LinuxSystemLearning.Library.RoundRobin
import LinuxSystemLearning.Processes.ProcessPool
import LinuxSystemLearning.Processes.Work

/-!
# The balance of the process pool

`Run` sends one code after the other, each to the channel behind the last one.
-/

set_option autoImplicit false

namespace LinuxSystemLearning.ProcessPool

open LinuxSystemLearning.Cxx
open LinuxSystemLearning.Interleaving
open LinuxSystemLearning.Loop (Ends)
open LinuxSystemLearning.RoundRobin

/-! ## The code -/

structure ChannelManager where
  channels : List Channel
  next : Int

/-- The place of the channel that is selected.  Outside the vector there is none. -/
def ChannelManager.select (cm : ChannelManager) : Except Fault (Nat × ChannelManager) :=
  if asSize cm.next < cm.channels.length then do
    let next ← checkInt (cm.next + 1)
    .ok (asSize cm.next, { cm with next := toInt (asSize next % cm.channels.length : Nat) })
  else .error .undefinedBehaviour

/-- What `Send` writes, and the place of its channel. -/
structure Sent where
  channel : Nat
  bytes : Bytes

structure Pool where
  cm : ChannelManager
  tm : TaskManager Task
  sent : List Sent

/-- `rand` is what `rand()` returns. -/
def run (rand : Nat) (pool : Pool) : Except Fault Pool := do
  let code ← pool.tm.code rand
  let (c, cm) ← pool.cm.select
  .ok { pool with
    cm := cm
    sent := pool.sent ++ [⟨c, intBytes code⟩] }

def runs : List Nat → Pool → Except Fault Pool
  | [], pool => .ok pool
  | rand :: rands, pool => do runs rands (← run rand pool)

def Pool.places (pool : Pool) : List Nat := pool.sent.map Sent.channel

def Sent.ofCall (call : Nat × Int32) : Sent := ⟨call.1, intBytes call.2⟩

def Pool.pipe (i : Nat) (pool : Pool) : Bytes :=
  (pool.sent.filter (·.channel == i)).flatMap Sent.bytes

/-- A pool some state of which was reached, with a channel at least. -/
structure Started where
  processNum : Int32
  opened : List Nat
  st : State
  reached : Reachable (step processNum.toInt) (start opened) st
  nonempty : st.channels ≠ []

def Started.pool (started : Started) : Pool := ⟨⟨started.st.channels, 0⟩, poolTasks, []⟩

/-! ## How many channels there are -/

/-- A channel for each round of the loop of `Start`. -/
def Stage.Counts (processNum : Int) (channels : Nat) : Stage → Prop
  | .loop i => channels = i ∧ (channels = 0 ∨ (channels : Int) ≤ processNum)
  | .piped i _ _ => channels = i ∧ (channels : Int) < processNum
  | .forked i _ _ _ => channels = i ∧ (channels : Int) < processNum
  | _ => channels = 0 ∨ (channels : Int) ≤ processNum

variable {processNum : Int} {st after : State} {event : Event}

theorem Stage.Counts.bounded {stage : Stage} {channels : Nat}
    (counts : stage.Counts processNum channels) :
    channels = 0 ∨ (channels : Int) ≤ processNum := by
  cases stage with
  | loop i => exact counts.2
  | piped i rfd wfd => exact Or.inr (Int.le_of_lt counts.2)
  | forked i rfd wfd subid => exact Or.inr (Int.le_of_lt counts.2)
  | running => exact counts
  | closing i => exact counts
  | waiting i => exact counts
  | stopped => exact counts

theorem counts_stepParent {fails : Bool}
    (counts : st.stage.Counts processNum st.channels.length)
    (stepped : stepParent processNum fails st = some after) :
    after.stage.Counts processNum after.channels.length := by
  have bounded := counts.bounded
  cases parentMove stepped with
  | pipe stage more =>
      rw [stage] at counts
      exact ⟨counts.1, counts.1.symm ▸ more⟩
  | fork stage =>
      rw [stage] at counts
      exact counts
  | @insert i rfd wfd subid stage =>
      rw [stage] at counts
      obtain ⟨round, more⟩ := counts
      have length : (insertChannel i rfd wfd subid st).channels.length = st.channels.length + 1 :=
        List.length_append
      rw [length]
      exact ⟨congrArg (· + 1) round, Or.inr more⟩
  | loopEnds _ => exact bounded
  | forkFails _ => exact bounded
  | stop _ => exact bounded
  | close _ _ => exact bounded
  | done _ _ => exact bounded
  | waited _ _ _ => exact bounded

theorem kept_stepChild {j : Nat} (stepped : stepChild j st = some after) :
    after.stage = st.stage ∧ after.channels = st.channels := by
  cases childMove stepped with
  | close _ _ => exact ⟨rfl, rfl⟩
  | begin _ _ => exact ⟨rfl, rfl⟩
  | take _ _ _ _ => exact ⟨rfl, rfl⟩
  | eof _ _ _ _ _ => exact ⟨rfl, rfl⟩
  | fail _ _ _ => exact ⟨rfl, rfl⟩

theorem counts_step (counts : st.stage.Counts processNum st.channels.length)
    (stepped : step processNum st event = some after) :
    after.stage.Counts processNum after.channels.length := by
  cases event with
  | parent fails => exact counts_stepParent counts stepped
  | send i =>
      obtain ⟨-, pipes, -, rfl⟩ := send_eq_some stepped
      exact counts
  | child j =>
      obtain ⟨stage, channels⟩ := kept_stepChild stepped
      rw [stage, channels]
      exact counts

/-- There are not more channels than an `int` counts. -/
theorem Started.length_le (started : Started) :
    (started.st.channels.length : Int) ≤ intMax := by
  have first : (start started.opened).stage.Counts started.processNum.toInt
      (start started.opened).channels.length := ⟨rfl, Or.inl rfl⟩
  have counts := started.reached.invariant
    (fun st => st.stage.Counts started.processNum.toInt st.channels.length)
    (fun _ _ _ counts stepped => counts_step counts stepped) first
  have small := started.processNum.toInt_lt
  have bounded := counts.bounded
  unfold intMax
  omega

theorem exists_round {n k : Nat} (within : k ≤ n) :
    ∃ st, Reachable (step n) (start []) st ∧ st.stage = .loop k ∧ st.channels.length = k := by
  induction k with
  | zero => exact ⟨start [], ⟨[], rfl⟩, rfl, rfl⟩
  | succ k ih =>
      obtain ⟨st, reached, stage, length⟩ := ih (Nat.le_of_succ_le within)
      have more : (k : Int) < n := Int.ofNat_lt.mpr within
      have piped : step n st (.parent false) = some (pipe k st) := by
        simp [step, stepParent, stage, more]
      obtain ⟨rfd, wfd, forked⟩ : ∃ rfd wfd,
          step n (pipe k st) (.parent false) = some (fork k rfd wfd (pipe k st)) := ⟨_, _, rfl⟩
      obtain ⟨subid, inserted⟩ : ∃ subid,
          step n (fork k rfd wfd (pipe k st)) (.parent false) =
            some (insertChannel k rfd wfd subid (fork k rfd wfd (pipe k st))) := ⟨_, rfl⟩
      refine ⟨_, ((reached.trans (.single piped)).trans (.single forked)).trans
        (.single inserted), rfl, ?_⟩
      exact List.length_append.trans (congrArg (· + 1) length)

theorem exists_started {n : Nat} (some : 0 < n) (small : (n : Int) ≤ intMax) :
    ∃ started : Started, started.st.channels.length = n := by
  obtain ⟨st, reached, -, length⟩ := exists_round (Nat.le_refl n)
  have value : (Int32.ofNat n).toInt = n := by
    apply Int32.toInt_ofNat_of_lt
    unfold intMax at small
    omega
  refine ⟨⟨Int32.ofNat n, [], st, value.symm ▸ reached, ?_⟩, length⟩
  exact List.ne_nil_of_length_pos (length.symm ▸ some)

/-! ## One call of `Run` -/

/-- The pool has `n` channels, and the next one is behind the last one that was sent to. -/
structure Turning (n : Nat) (pool : Pool) : Prop where
  count : pool.cm.channels.length = n
  small : (n : Int) ≤ intMax
  next : ∃ place : Nat, pool.cm.next = place ∧ InTurn n (pool.places ++ [place])
  tasks : pool.tm = poolTasks

variable {n : Nat} {pool : Pool}

theorem toInt_eq {value : Nat} (small : (value : Int) ≤ intMax) : toInt value = value := by
  unfold intMax at small
  rw [toInt, Int.bmod_eq_of_le]
  · omega
  · omega

theorem select_eq {cm : ChannelManager} {place : Nat} (here : cm.next = place)
    (inside : place < cm.channels.length) (small : (cm.channels.length : Int) ≤ intMax) :
    cm.select =
      .ok (place, { cm with next := ((place + 1) % cm.channels.length : Nat) }) := by
  have whole := small
  unfold intMax at whole
  have size : asSize place = place := by
    rw [asSize_of_nonneg (Int.natCast_nonneg place) (by omega), Int.toNat_natCast]
  have size' : asSize (place + 1) = place + 1 := by
    rw [asSize_of_nonneg (by omega) (by omega)]
    rfl
  have counted : checkInt (place + 1 : Int) = .ok (place + 1 : Int) := by
    rw [checkInt_eq_ok]
    unfold intMin intMax
    omega
  have rest : (((place + 1) % cm.channels.length : Nat) : Int) ≤ intMax := by
    have less : (place + 1) % cm.channels.length < cm.channels.length :=
      Nat.mod_lt _ (by omega)
    omega
  unfold ChannelManager.select
  rw [here, size, if_pos inside, counted]
  show Except.ok _ = _
  rw [size', toInt_eq rest]

theorem run_eq {rand place : Nat} {code : Int32} {cm : ChannelManager}
    (chosen : pool.tm.code rand = .ok code) (selected : pool.cm.select = .ok (place, cm)) :
    run rand pool =
      .ok { pool with cm := cm, sent := pool.sent ++ [⟨place, intBytes code⟩] } := by
  rw [run, chosen]
  show (pool.cm.select >>= _) = _
  rw [selected]
  rfl

theorem exists_run (turning : Turning n pool) (rand : Nat) :
    ∃ after place code, run rand pool = .ok after ∧ poolTasks.code rand = .ok code ∧
      after.sent = pool.sent ++ [⟨place, intBytes code⟩] ∧ Turning n after := by
  obtain ⟨place, here, inTurn⟩ := turning.next
  have inside : place < n := inTurn.bounded place (List.mem_append_right _ List.mem_cons_self)
  have count := turning.count
  have code : poolTasks.code rand = .ok (Int32.ofNat (rand % 3)) := rfl
  have chosen := code
  rw [← turning.tasks] at chosen
  have ran := run_eq chosen (select_eq here (count ▸ inside) (count ▸ turning.small))
  refine ⟨_, place, _, ran, code, rfl, count, turning.small, ?_, turning.tasks⟩
  refine ⟨(place + 1) % n, by rw [count], ?_⟩
  have places : (pool.sent ++ [(⟨place, intBytes (Int32.ofNat (rand % 3))⟩ : Sent)]).map
      Sent.channel = pool.places ++ [place] := List.map_append
  rw [Pool.places, places]
  exact inTurn.concat

/-! ## All calls -/

theorem exists_runs (turning : Turning n pool) (rands : List Nat) :
    ∃ (after : Pool) (calls : List (Nat × Int32)), runs rands pool = .ok after ∧
      Turning n after ∧
      rands.map poolTasks.code = calls.map (fun call => .ok call.2) ∧
        after.sent = pool.sent ++ calls.map Sent.ofCall := by
  induction rands generalizing pool with
  | nil => exact ⟨pool, [], rfl, turning, rfl, (List.append_nil _).symm⟩
  | cons rand rands ih =>
      obtain ⟨middle, place, code, ran, chosen, sent, turning'⟩ := exists_run turning rand
      obtain ⟨after, calls, rest, turning'', codes, later⟩ := ih turning'
      refine ⟨after, (place, code) :: calls, bind_eq_ok.mpr ⟨middle, ran, rest⟩, turning'',
        ?_, ?_⟩
      · rw [List.map_cons, List.map_cons, chosen, codes]
      · rw [later, sent, List.append_assoc]
        rfl

theorem turning_start (started : Started) :
    Turning started.st.channels.length started.pool where
  count := rfl
  small := started.length_le
  next := ⟨0, rfl, inTurn_singleton (List.length_pos_of_ne_nil started.nonempty)⟩
  tasks := rfl

/-- Every call selects a channel of the pool, and in every part of the calls any two channels
are sent to equally often, but for one time. -/
theorem runs_balanced (started : Started) (rands : List Nat) :
    ∃ pool, runs rands started.pool = .ok pool ∧ pool.places.length = rands.length ∧
      (∀ place ∈ pool.places, place < started.st.channels.length) ∧
        Balanced started.st.channels.length pool.places := by
  obtain ⟨pool, calls, ran, turning, codes, sent⟩ := exists_runs (turning_start started) rands
  obtain ⟨next, -, inTurn⟩ := turning.next
  have sofar : InTurn started.st.channels.length pool.places :=
    inTurn.part (List.prefix_append pool.places [next]).isInfix
  have length := congrArg List.length codes
  rw [List.length_map, List.length_map] at length
  refine ⟨pool, ran, ?_, sofar.bounded, sofar.balanced⟩
  rw [Pool.places, sent, length, List.length_map, List.length_append, List.length_map]
  exact Nat.zero_add _

/-! ## What the workers call -/

theorem pipe_eq {calls : List (Nat × Int32)} (sent : pool.sent = calls.map Sent.ofCall)
    (i : Nat) :
    pool.pipe i = ((calls.filter (·.1 == i)).map Prod.snd).flatMap intBytes := by
  rw [Pool.pipe, sent, List.filter_map, List.flatMap_map, List.flatMap_map]
  rfl

theorem poolTasks_length : (poolTasks.tasks.length : Int) ≤ intMax := by decide

/-- Each call chooses a task, and when its pipe is closed the worker behind a channel has
called the tasks that were sent to it, in their order. -/
theorem workers_call (started : Started) (rands : List Nat) :
    ∃ (pool : Pool) (calls : List (Nat × Int32)), runs rands started.pool = .ok pool ∧
      rands.map poolTasks.code = calls.map (fun call => .ok call.2) ∧
      pool.sent = calls.map Sent.ofCall ∧
      (∀ call ∈ calls, ∃ task, poolTasks.taskOf call.2 = some task) ∧
      ∀ i, Ends (workBody poolTasks) ⟨pool.pipe i, false, []⟩
        (.ok ⟨true, ((calls.filter (·.1 == i)).map Prod.snd).filterMap poolTasks.taskOf⟩) := by
  obtain ⟨pool, calls, ran, -, codes, sent⟩ := exists_runs (turning_start started) rands
  have chosen : ∀ call ∈ calls, ∃ task, poolTasks.taskOf call.2 = some task ∧
      call.2.toInt < poolTasks.tasks.length := by
    intro call member
    have here : Except.ok call.2 ∈ rands.map poolTasks.code := by
      rw [codes]
      exact List.mem_map_of_mem member
    obtain ⟨rand, -, code⟩ := List.mem_map.mp here
    obtain ⟨task, -, taken, less⟩ := exists_taskOf_code poolTasks_length code
    exact ⟨task, taken, less⟩
  refine ⟨pool, calls, ran, codes, sent, ?_, ?_⟩
  · intro call member
    obtain ⟨task, taken, -⟩ := chosen call member
    exact ⟨task, taken⟩
  · intro i
    rw [pipe_eq sent i]
    refine (ends_iff_inside _ []).mpr ?_
    intro code member
    obtain ⟨call, sentHere, rfl⟩ := List.mem_map.mp member
    obtain ⟨task, -, less⟩ := chosen call (List.mem_filter.mp sentHere).1
    exact Int.ne_of_lt less

end LinuxSystemLearning.ProcessPool
