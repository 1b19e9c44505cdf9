import LinuxSystemLearning.Cxx.Text
import LinuxSystemLearning.Library.LittleEndian
import LinuxSystemLearning.Library.Loop

/-!
# The workers of the process pool

`Work` reads a code of four bytes after the other from its pipe and calls the task with the
code.  The check of `Excute` lets the number of tasks through as well.
-/

set_option autoImplicit false

namespace LinuxSystemLearning.ProcessPool

open LinuxSystemLearning.Cxx
open LinuxSystemLearning.LittleEndian
open LinuxSystemLearning.Loop (Step Ends ends_of_measure ends_iff_of_next ends_iff_of_stop)

/-! ## The tasks -/

/-- An `int` where a `size_t` is expected. -/
def asSize (value : Int) : Nat := (value % 2 ^ 64).toNat

structure TaskManager (τ : Type) where
  tasks : List τ

namespace TaskManager

variable {τ : Type}

def register (t : τ) (tm : TaskManager τ) : TaskManager τ := ⟨tm.tasks ++ [t]⟩

/-- `rand` is what `rand()` returns.  There is no remainder of 0. -/
def code (rand : Nat) (tm : TaskManager τ) : Except Fault Int32 :=
  if tm.tasks.length = 0 then .error .undefinedBehaviour
  else .ok (Int32.ofNat (rand % tm.tasks.length))

def excute (code : Int32) (tm : TaskManager τ) : Except Fault (List τ) :=
  if 0 ≤ code.toInt ∧ asSize code.toInt ≤ tm.tasks.length then
    match tm.tasks[asSize code.toInt]? with
    | some task => .ok [task]
    | none => .error .undefinedBehaviour
  else .ok []

end TaskManager

/-! ## `Work` -/

def intBytes (code : Int32) : Bytes := encode 4 code.toUInt32.toNat

def ofIntBytes (bytes : Bytes) : Int32 := (UInt32.ofNat (decode bytes)).toInt32

/-- What is in the pipe of a worker, how `read` answers behind it, and the tasks that were
called so far. -/
structure Worker (τ : Type) where
  pipe : Bytes
  fails : Bool
  called : List τ

/-- `Work` is left at the end of the file or because of an error. -/
structure Returned (τ : Type) where
  eof : Bool
  called : List τ

def read (size : Nat) (pipe : Bytes) (fails : Bool) : Int × Bytes :=
  if pipe = [] then (if fails then -1 else 0, [])
  else ((pipe.take size).length, pipe.take size)

variable {τ : Type}

def workBody (tm : TaskManager τ) (worker : Worker τ) :
    Step (Worker τ) (Except Fault (Returned τ)) :=
  let (n, buffer) := read 4 worker.pipe worker.fails
  let worker := { worker with pipe := worker.pipe.drop buffer.length }
  if 0 < n then
    if n ≠ 4 then .next worker
    else
      match tm.excute (ofIntBytes buffer) with
      | .ok called => .next { worker with called := worker.called ++ called }
      | .error fault => .stop (.error fault)
  else if n = 0 then .stop (.ok ⟨true, worker.called⟩)
  else .stop (.ok ⟨false, worker.called⟩)

/-! ## What is called -/

def TaskManager.taskOf (tm : TaskManager τ) (code : Int32) : Option τ :=
  if 0 ≤ code.toInt then tm.tasks[code.toInt.toNat]? else none

/-- For these codes and then the end of the file, `Work` calls their tasks in their order
and returns. -/
def Dispatches (tm : TaskManager τ) (codes : List Int32) : Prop :=
  Ends (workBody tm) ⟨codes.flatMap intBytes, false, []⟩
    (.ok ⟨true, codes.filterMap tm.taskOf⟩)

variable {tm : TaskManager τ} {code : Int32}

theorem length_intBytes (code : Int32) : (intBytes code).length = 4 := length_encode _ _

theorem ofIntBytes_intBytes (code : Int32) : ofIntBytes (intBytes code) = code := by
  have fits : code.toUInt32.toNat < 256 ^ 4 := code.toUInt32.toNat_lt
  rw [ofIntBytes, intBytes, decode_encode fits, UInt32.ofNat_toNat, Int32.toInt32_toUInt32]

theorem asSize_of_nonneg {value : Int} (nonneg : 0 ≤ value) (small : value < 2 ^ 64) :
    asSize value = value.toNat := by
  rw [asSize, Int.emod_eq_of_lt nonneg small]

/-- The number of the tasks is taken for a code. -/
theorem excute_eq (tm : TaskManager τ) (code : Int32) : tm.excute code =
    if code.toInt = tm.tasks.length then .error .undefinedBehaviour
    else .ok (tm.taskOf code).toList := by
  have small : code.toInt < 2 ^ 64 := by
    have range := code.toInt_lt
    omega
  unfold TaskManager.excute TaskManager.taskOf
  by_cases nonneg : 0 ≤ code.toInt
  · rw [asSize_of_nonneg nonneg small, if_pos nonneg]
    by_cases last : code.toInt = tm.tasks.length
    · have place : code.toInt.toNat = tm.tasks.length := by omega
      rw [if_pos last, place, if_pos ⟨nonneg, Nat.le_refl _⟩,
        List.getElem?_eq_none (Nat.le_refl _)]
    · rw [if_neg last]
      by_cases inside : code.toInt.toNat < tm.tasks.length
      · rw [if_pos ⟨nonneg, Nat.le_of_lt inside⟩, List.getElem?_eq_getElem inside]
        rfl
      · have above : ¬ (0 ≤ code.toInt ∧ code.toInt.toNat ≤ tm.tasks.length) := by omega
        rw [if_neg above, List.getElem?_eq_none (Nat.not_lt.mp inside)]
        rfl
  · have other : code.toInt ≠ tm.tasks.length := by omega
    rw [if_neg fun both => nonneg both.1, if_neg nonneg, if_neg other]
    rfl

theorem exists_taskOf_code {rand : Nat} (small : (tm.tasks.length : Int) ≤ intMax)
    (chosen : tm.code rand = .ok code) :
    ∃ task, tm.tasks[rand % tm.tasks.length]? = some task ∧ tm.taskOf code = some task ∧
      code.toInt < tm.tasks.length := by
  unfold TaskManager.code at chosen
  split at chosen
  · cases chosen
  · rename_i some
    cases chosen
    have less : rand % tm.tasks.length < tm.tasks.length :=
      Nat.mod_lt rand (Nat.pos_of_ne_zero some)
    have value : (Int32.ofNat (rand % tm.tasks.length)).toInt =
        (rand % tm.tasks.length : Nat) := by
      apply Int32.toInt_ofNat_of_lt
      unfold intMax at small
      omega
    have there := List.getElem?_eq_getElem less
    refine ⟨_, there, ?_, ?_⟩
    · rw [TaskManager.taskOf, value, if_pos (Int.natCast_nonneg _), Int.toNat_natCast, there]
    · rw [value]
      exact Int.ofNat_lt.mpr less

/-! ## One round -/

theorem read_code (code : Int32) (rest : Bytes) (fails : Bool) :
    read 4 (intBytes code ++ rest) fails = (4, intBytes code) := by
  have length := length_intBytes code
  have nonempty : intBytes code ++ rest ≠ [] := by
    intro empty
    rw [(List.append_eq_nil_iff.mp empty).1] at length
    cases length
  have front : (intBytes code ++ rest).take 4 = intBytes code := List.take_left' length
  rw [read, if_neg nonempty, front, length]
  rfl

theorem workBody_code (tm : TaskManager τ) (code : Int32) (rest : Bytes) (fails : Bool)
    (called : List τ) :
    workBody tm ⟨intBytes code ++ rest, fails, called⟩ =
      if code.toInt = tm.tasks.length then .stop (.error .undefinedBehaviour)
      else .next ⟨rest, fails, called ++ (tm.taskOf code).toList⟩ := by
  have behind : (intBytes code ++ rest).drop (intBytes code).length = rest := List.drop_left
  have positive : (0 : Int) < 4 := by decide
  simp only [workBody, read_code, behind, ofIntBytes_intBytes, excute_eq, if_pos positive]
  by_cases last : code.toInt = tm.tasks.length
  · simp [last]
  · simp [last]

theorem workBody_shorter {worker after : Worker τ} (again : workBody tm worker = .next after) :
    after.pipe.length < worker.pipe.length := by
  unfold workBody read at again
  dsimp only at again
  by_cases empty : worker.pipe = []
  · simp only [if_pos empty] at again
    cases fails : worker.fails with
    | false => simp [fails] at again
    | true => simp [fails] at again
  · have some_byte := List.length_pos_of_ne_nil empty
    have dropped : (worker.pipe.drop (worker.pipe.take 4).length).length <
        worker.pipe.length := by
      rw [List.length_drop, List.length_take]
      omega
    simp only [if_neg empty] at again
    split at again
    · split at again
      · cases again
        exact dropped
      · split at again
        · cases again
          exact dropped
        · cases again
    · split at again
      · cases again
      · cases again

/-! ## All rounds -/

theorem exists_ends_work (tm : TaskManager τ) (worker : Worker τ) :
    ∃ result, Ends (workBody tm) worker result :=
  ends_of_measure (fun _ => True) (·.pipe.length)
    (fun _ _ _ again => ⟨trivial, workBody_shorter again⟩) worker trivial

theorem ends_iff_inside (codes : List Int32) (called : List τ) :
    Ends (workBody tm) ⟨codes.flatMap intBytes, false, called⟩
        (.ok ⟨true, called ++ codes.filterMap tm.taskOf⟩) ↔
      ∀ code ∈ codes, code.toInt ≠ tm.tasks.length := by
  induction codes generalizing called with
  | nil =>
      have stops : workBody tm ⟨[], false, called⟩ = .stop (.ok ⟨true, called⟩) := rfl
      rw [List.flatMap_nil, ends_iff_of_stop stops, List.filterMap_nil, List.append_nil]
      exact iff_of_true rfl nofun
  | cons code codes ih =>
      rw [List.flatMap_cons, List.forall_mem_cons]
      by_cases last : code.toInt = tm.tasks.length
      · have stops := workBody_code tm code (codes.flatMap intBytes) false called
        rw [if_pos last] at stops
        rw [ends_iff_of_stop stops]
        exact iff_of_false nofun fun both => both.1 last
      · have again := workBody_code tm code (codes.flatMap intBytes) false called
        rw [if_neg last] at again
        have tasks : called ++ (code :: codes).filterMap tm.taskOf =
            called ++ (tm.taskOf code).toList ++ codes.filterMap tm.taskOf := by
          rw [List.append_assoc]
          cases found : tm.taskOf code with
          | none => rw [List.filterMap_cons_none found]; rfl
          | some task => rw [List.filterMap_cons_some found]; rfl
        rw [ends_iff_of_next again, tasks, ih, and_iff_right last]

/-- The tasks are called exactly if no code is the number of the tasks. -/
theorem dispatches_iff (tm : TaskManager τ) (codes : List Int32) :
    Dispatches tm codes ↔ ∀ code ∈ codes, code.toInt ≠ tm.tasks.length :=
  ends_iff_inside codes []

inductive Task where
  | printLog
  | download
  | upload
  deriving DecidableEq

def poolTasks : TaskManager Task :=
  (((⟨[]⟩ : TaskManager Task).register .printLog).register .download).register .upload

/-- The code behind the last task. -/
theorem fourth_not_dispatched : ¬ Dispatches poolTasks [3] := by
  intro ends
  have stops : workBody poolTasks ⟨intBytes 3 ++ [], false, []⟩ =
      .stop (.error .undefinedBehaviour) := workBody_code _ 3 [] false []
  have never := (ends_iff_of_stop stops _).mp ends
  cases never

end LinuxSystemLearning.ProcessPool
