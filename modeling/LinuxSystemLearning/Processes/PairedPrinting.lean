import Mathlib.Logic.Function.Basic
import LinuxSystemLearning.Cxx.Text
import LinuxSystemLearning.Library.Interleaving

/-!
# Two processes that print in pairs

A parent and its child print letters, two in each round, between `P` and `V` of one
semaphore.  The parent removes the semaphore when its rounds are over; the child may be
anywhere then, and ends when its next `semop` fails.
-/

set_option autoImplicit false

namespace LinuxSystemLearning.PairedPrinting

open LinuxSystemLearning.Cxx LinuxSystemLearning.Interleaving

/-! ## Semaphore sets -/

/-- The value of each set that is there, the id of the set under the key, and the next id
to be given out. -/
structure Kernel where
  sets : Nat → Option Nat
  keyed : Option Nat
  next : Nat

/-- `semget` with `IPC_CREAT`: the set under the key, or a new one of value 0. -/
def semget (kernel : Kernel) : Nat × Kernel :=
  match kernel.keyed with
  | some semid => (semid, kernel)
  | none =>
      (kernel.next,
        { sets := Function.update kernel.sets kernel.next (some 0)
          keyed := some kernel.next
          next := kernel.next + 1 })

def semctlRmid (semid : Nat) (kernel : Kernel) : Kernel :=
  { kernel with
    sets := Function.update kernel.sets semid none
    keyed := if kernel.keyed = some semid then none else kernel.keyed }

inductive Answer where
  | waits
  | fails
  | done (kernel : Kernel)

def semop (semid : Nat) (num : Int) (kernel : Kernel) : Answer :=
  match kernel.sets semid with
  | none => .fails
  | some value =>
      if value + num < 0 then .waits
      else .done
        { kernel with sets := Function.update kernel.sets semid (some (value + num).toNat) }

/-! ## One process -/

/-- Where a process stands: in `Build`, at the head of its loop, before its two letters,
before `V`, in the destructor. -/
inductive Stage where
  | build
  | key
  | get
  | got
  | head
  | first
  | second
  | v
  | removed
  | over
deriving DecidableEq, Repr

/-- `undo` is what the kernel adds to the set when the process ends (`SEM_UNDO`). -/
structure Process where
  stage : Stage
  semid : Nat
  undo : Int
deriving DecidableEq, Repr

def exit (process : Process) (kernel : Kernel) : Process × Kernel :=
  ({ process with stage := .over, undo := 0 },
    { kernel with
      sets := Function.update kernel.sets process.semid
        ((kernel.sets process.semid).map fun (value : Nat) => (value + process.undo).toNat) })

/-- `fails` is a failure of `semop` for a reason of its own, such as a signal. -/
def pv (num : Int) (fails : Bool) (after : Stage) (process : Process) (kernel : Kernel) :
    Option (Process × Kernel) :=
  if fails then some (exit process kernel)
  else
    match semop process.semid num kernel with
    | .waits => none
    | .fails => some (exit process kernel)
    | .done kernel => some ({ process with stage := after, undo := process.undo - num }, kernel)

/-- A step of the loop, the same in both processes: `P`, the letter, the letter, `V`. -/
def round (letter : UInt8) (fails : Bool) (process : Process) (kernel : Kernel) :
    Option (Process × Kernel × Bytes) :=
  match process.stage with
  | .head => (pv (-1) fails .first process kernel).map fun moved => (moved.1, moved.2, [])
  | .first => some ({ process with stage := .second }, kernel, [letter])
  | .second => some ({ process with stage := .v }, kernel, [letter])
  | .v => (pv 1 fails .head process kernel).map fun moved => (moved.1, moved.2, [])
  | _ => none

/-! ## Both processes -/

structure State where
  kernel : Kernel
  parent : Process
  child : Process
  /-- The rounds the parent has not begun. -/
  cnt : Nat
  /-- What both wrote to the terminal. -/
  stdout : Bytes

def intToHEX (num : UInt32) : Bytes :=
  ascii "0x" ++ (Nat.toDigits 16 num.toNat).map Char.toUInt8

/-- The lines of `Build` and of the destructor. -/
def buildLine : Bytes := ascii "Build a semaphore\n"
def keyLine (key : UInt32) : Bytes := ascii "Got key" ++ intToHEX key ++ ascii "\n"
def idLine (semid : Nat) : Bytes := ascii "Got semaphore id:" ++ stdToString semid ++ ascii "\n"
def removedLine (semid : Nat) : Bytes :=
  ascii "Semaphore " ++ stdToString semid ++ ascii "removed\n"

def letterF : UInt8 := 70
def letterC : UInt8 := 67

def stepParent (fails : Bool) (st : State) : Option State :=
  let looping := (round letterF fails st.parent st.kernel).map fun moved =>
    { st with
      parent := moved.1
      kernel := moved.2.1
      stdout := st.stdout ++ moved.2.2
      cnt := if st.parent.stage = .head then st.cnt - 1 else st.cnt }
  match st.parent.stage with
  | .head =>
      if st.cnt = 0 then
        some { st with
          kernel := semctlRmid st.parent.semid st.kernel
          parent := { st.parent with stage := .removed } }
      else looping
  | .removed =>
      some { st with
        parent := { st.parent with stage := .over }
        stdout := st.stdout ++ removedLine st.parent.semid }
  | _ => looping

/-- A step of the child, which begins with a `Build` of its own. -/
def stepChild (key : UInt32) (fails : Bool) (st : State) : Option State :=
  match st.child.stage with
  | .build =>
      some { st with
        child := { st.child with stage := .key }
        stdout := st.stdout ++ buildLine }
  | .key =>
      some { st with
        child := { st.child with stage := .get }
        stdout := st.stdout ++ keyLine key }
  | .get =>
      some { st with
        child := { st.child with stage := .got, semid := (semget st.kernel).1 }
        kernel := (semget st.kernel).2 }
  | .got =>
      some { st with
        child := { st.child with stage := .head }
        stdout := st.stdout ++ idLine st.child.semid }
  | _ =>
      (round letterC fails st.child st.kernel).map fun moved =>
        { st with
          child := moved.1
          kernel := moved.2.1
          stdout := st.stdout ++ moved.2.2 }

inductive Event where
  | parent (fails : Bool)
  | child (fails : Bool)
deriving DecidableEq, Repr

def step (key : UInt32) (st : State) : Event → Option State
  | .parent fails => stepParent fails st
  | .child fails => stepChild key fails st

/-- Behind `fork`: the set has the value 1, the parent has its rounds before it. -/
def start (key : UInt32) (rounds : Nat) : State where
  kernel := { sets := Function.update (fun _ => none) 0 (some 1), keyed := some 0, next := 1 }
  parent := { stage := .head, semid := 0, undo := 0 }
  child := { stage := .build, semid := 0, undo := 0 }
  cnt := rounds
  stdout := buildLine ++ keyLine key ++ idLine 0

/-! ## What is printed -/

def letters (text : Bytes) : Bytes := text.filter fun byte => byte = letterF ∨ byte = letterC

def Block (block : Bytes) : Prop := block = [letterC, letterC] ∨ block = [letterF, letterF]

/-- The letters printed so far begin a text made of whole blocks. -/
def Paired (st : State) : Prop :=
  ∃ blocks : List Bytes, (∀ block ∈ blocks, Block block) ∧ letters st.stdout <+: blocks.flatten

/-! ## The lines of the builder -/

theorem letters_append (front back : Bytes) :
    letters (front ++ back) = letters front ++ letters back := List.filter_append ..

theorem letters_eq_nil {text : Bytes} (none : letterF ∉ text ∧ letterC ∉ text) :
    letters text = [] := by
  rw [letters, List.filter_eq_nil_iff]
  intro byte member letter
  rcases of_decide_eq_true letter with rfl | rfl
  · exact none.1 member
  · exact none.2 member

theorem letters_stdToString (value : Nat) : letters (stdToString value) = [] := by
  apply letters_eq_nil
  constructor
  · intro member
    exact absurd (isdigit_of_mem_stdToString member) (by decide)
  · intro member
    exact absurd (isdigit_of_mem_stdToString member) (by decide)

/-- The hexadecimal digits are the small letters. -/
theorem letters_toDigits (value : Nat) :
    letters ((Nat.toDigits 16 value).map Char.toUInt8) = [] := by
  have digit : ∀ d < 16, letters [d.digitChar.toUInt8] = [] := by decide
  induction value using Nat.strongRecOn with
  | ind value ih =>
      by_cases small : value < 16
      · rw [Nat.toDigits_of_lt_base small]
        exact digit value small
      · rw [Nat.toDigits_of_base_le (by decide) (Nat.not_lt.mp small), List.map_append,
          letters_append, ih (value / 16) (by omega)]
        exact digit (value % 16) (by omega)

theorem letters_keyLine (key : UInt32) : letters (keyLine key) = [] := by
  rw [keyLine, intToHEX, letters_append, letters_append, letters_append, letters_toDigits]
  decide

theorem letters_idLine (semid : Nat) : letters (idLine semid) = [] := by
  rw [idLine, letters_append, letters_append, letters_stdToString]
  decide

theorem letters_removedLine (semid : Nat) : letters (removedLine semid) = [] := by
  rw [removedLine, letters_append, letters_append, letters_stdToString]
  decide

/-! ## A step of the loop -/

def Stage.holds : Stage → Bool
  | .first => true
  | .second => true
  | .v => true
  | _ => false

@[simp] theorem Stage.holds_head : Stage.head.holds = false := rfl
@[simp] theorem Stage.holds_first : Stage.first.holds = true := rfl
@[simp] theorem Stage.holds_second : Stage.second.holds = true := rfl
@[simp] theorem Stage.holds_v : Stage.v.holds = true := rfl
@[simp] theorem Stage.holds_over : Stage.over.holds = false := rfl

/-- What the process has printed of a block that is not whole yet. -/
def pending (letter : UInt8) (process : Process) : Bytes :=
  if process.stage = .second then [letter] else []

theorem pv_cases {num : Int} {fails : Bool} {after : Stage} {process : Process}
    {kernel : Kernel} {moved : Process × Kernel}
    (done : pv num fails after process kernel = some moved) :
    moved = exit process kernel ∨
      ∃ value, kernel.sets process.semid = some value ∧ 0 ≤ value + num ∧
        moved = ({ process with stage := after, undo := process.undo - num },
          { kernel with sets :=
              Function.update kernel.sets process.semid (some (value + num).toNat) }) := by
  unfold pv semop at done
  cases fails with
  | true => exact Or.inl (Option.some.inj done).symm
  | false =>
      cases found : kernel.sets process.semid with
      | none =>
          simp only [found, Bool.false_eq_true, if_false, Option.some.injEq] at done
          exact Or.inl done.symm
      | some value =>
          by_cases negative : (value : Int) + num < 0
          · simp [found, negative] at done
          · simp only [found, negative, Bool.false_eq_true, if_false, Option.some.injEq] at done
            exact Or.inr ⟨value, rfl, Int.not_lt.mp negative, done.symm⟩

/-- One step of the loop: the process enters, leaves, ends, or prints a letter. -/
theorem round_cases {letter : UInt8} {fails : Bool} {process process' : Process}
    {kernel kernel' : Kernel} {text : Bytes}
    (moved : round letter fails process kernel = some (process', kernel', text)) :
    (∃ value, process.stage = .head ∧ kernel.sets process.semid = some (value + 1) ∧
        process' = { process with stage := .first, undo := process.undo + 1 } ∧
        kernel' = { kernel with
          sets := Function.update kernel.sets process.semid (some value) } ∧
        text = []) ∨
      (∃ value, process.stage = .v ∧ kernel.sets process.semid = some value ∧
        process' = { process with stage := .head, undo := process.undo - 1 } ∧
        kernel' = { kernel with
          sets := Function.update kernel.sets process.semid (some (value + 1)) } ∧
        text = []) ∨
      ((process.stage = .head ∨ process.stage = .v) ∧
        (process', kernel') = exit process kernel ∧ text = []) ∨
      (process.stage = .first ∧ process' = { process with stage := .second } ∧
        kernel' = kernel ∧ text = [letter]) ∨
      (process.stage = .second ∧ process' = { process with stage := .v } ∧
        kernel' = kernel ∧ text = [letter]) := by
  unfold round at moved
  cases stage : process.stage with
  | head =>
      simp only [stage, Option.map_eq_some_iff, Prod.mk.injEq] at moved
      obtain ⟨result, done, rfl, rfl, rfl⟩ := moved
      rcases pv_cases done with ended | ⟨value, found, enough, rfl⟩
      · exact Or.inr (Or.inr (Or.inl ⟨Or.inl rfl, ended, rfl⟩))
      · obtain ⟨less, rfl⟩ : ∃ less, value = less + 1 := ⟨value - 1, by omega⟩
        refine Or.inl ⟨less, rfl, found, ?_, ?_, rfl⟩
        · simp
        · simp
  | v =>
      simp only [stage, Option.map_eq_some_iff, Prod.mk.injEq] at moved
      obtain ⟨result, done, rfl, rfl, rfl⟩ := moved
      rcases pv_cases done with ended | ⟨value, found, -, rfl⟩
      · exact Or.inr (Or.inr (Or.inl ⟨Or.inr rfl, ended, rfl⟩))
      · refine Or.inr (Or.inl ⟨value, rfl, found, rfl, ?_, rfl⟩)
        have next : ((value : Int) + 1).toNat = value + 1 := by omega
        simp only [next]
  | first =>
      simp only [stage, Option.some.injEq, Prod.mk.injEq] at moved
      obtain ⟨rfl, rfl, rfl⟩ := moved
      exact Or.inr (Or.inr (Or.inr (Or.inl ⟨rfl, rfl, rfl, rfl⟩)))
  | second =>
      simp only [stage, Option.some.injEq, Prod.mk.injEq] at moved
      obtain ⟨rfl, rfl, rfl⟩ := moved
      exact Or.inr (Or.inr (Or.inr (Or.inr ⟨rfl, rfl, rfl, rfl⟩)))
  | _ => simp [stage] at moved

/-! ## The letters of one process and the other -/

/-- The letters are whole blocks and then the tail. -/
def Tiled (tail text : Bytes) : Prop :=
  ∃ blocks : List Bytes, (∀ block ∈ blocks, Block block) ∧
    letters text = blocks.flatten ++ tail

def IsLetter (letter : UInt8) : Prop := letter = letterF ∨ letter = letterC

theorem letters_letter {letter : UInt8} (is : IsLetter letter) : letters [letter] = [letter] := by
  rcases is with rfl | rfl
  · rfl
  · rfl

theorem Tiled.silent {tail text line : Bytes} (tiled : Tiled tail text)
    (silent : letters line = []) : Tiled tail (text ++ line) := by
  obtain ⟨blocks, whole, same⟩ := tiled
  exact ⟨blocks, whole, by rw [letters_append, silent, List.append_nil, same]⟩

theorem Tiled.begin {letter : UInt8} {text : Bytes} (tiled : Tiled [] text)
    (is : IsLetter letter) : Tiled [letter] (text ++ [letter]) := by
  obtain ⟨blocks, whole, same⟩ := tiled
  refine ⟨blocks, whole, ?_⟩
  rw [letters_append, letters_letter is, same, List.append_nil]

theorem blocks_concat {blocks : List Bytes} (whole : ∀ block ∈ blocks, Block block)
    {letter : UInt8} (is : IsLetter letter) :
    ∀ block ∈ blocks ++ [[letter, letter]], Block block := by
  intro block member
  rcases List.mem_append.mp member with earlier | last
  · exact whole block earlier
  · rw [List.mem_singleton.mp last]
    rcases is with rfl | rfl
    · exact Or.inr rfl
    · exact Or.inl rfl

theorem Tiled.close {letter : UInt8} {text : Bytes} (tiled : Tiled [letter] text)
    (is : IsLetter letter) : Tiled [] (text ++ [letter]) := by
  obtain ⟨blocks, whole, same⟩ := tiled
  refine ⟨blocks ++ [[letter, letter]], blocks_concat whole is, ?_⟩
  rw [letters_append, letters_letter is, same]
  simp

theorem Tiled.paired {st : State} {tail : Bytes} (tiled : Tiled tail st.stdout)
    (short : tail = [] ∨ ∃ letter, IsLetter letter ∧ tail = [letter]) : Paired st := by
  obtain ⟨blocks, whole, same⟩ := tiled
  rcases short with rfl | ⟨letter, is, rfl⟩
  · exact ⟨blocks, whole, same ▸ by simp⟩
  · refine ⟨blocks ++ [[letter, letter]], blocks_concat whole is, ?_⟩
    rw [same]
    exact ⟨[letter], by simp⟩

/-- The semaphore and those who hold it make one, and its holder's undo is one. -/
structure Shared (kernel : Kernel) (mine other : Process) : Prop where
  balance : ∀ value, kernel.sets 0 = some value →
    value + mine.stage.holds.toNat + other.stage.holds.toNat = 1
  apart : mine.stage.holds = true → other.stage.holds = false
  undo : mine.undo = mine.stage.holds.toNat
  undoOther : other.undo = other.stage.holds.toNat

theorem Shared.symm {kernel : Kernel} {mine other : Process} (shared : Shared kernel mine other) :
    Shared kernel other mine where
  balance := by
    intro value found
    have sum := shared.balance value found
    omega
  apart := by
    intro holds
    cases mineHolds : mine.stage.holds with
    | false => rfl
    | true =>
        rw [shared.apart mineHolds] at holds
        cases holds
  undo := shared.undoOther
  undoOther := shared.undo

/-- A step of the loop changes the set of the process at most. -/
theorem round_frame {letter : UInt8} {fails : Bool} {process process' : Process}
    {kernel kernel' : Kernel} {text : Bytes}
    (moved : round letter fails process kernel = some (process', kernel', text)) :
    process'.semid = process.semid ∧ kernel'.keyed = kernel.keyed ∧ kernel'.next = kernel.next ∧
      ∀ semid, semid ≠ process.semid → kernel'.sets semid = kernel.sets semid := by
  rcases round_cases moved with ⟨value, -, -, rfl, rfl, -⟩ | ⟨value, -, -, rfl, rfl, -⟩ |
    ⟨-, ended, -⟩ | ⟨-, rfl, rfl, -⟩ | ⟨-, rfl, rfl, -⟩
  · exact ⟨rfl, rfl, rfl, fun semid other => Function.update_of_ne other ..⟩
  · exact ⟨rfl, rfl, rfl, fun semid other => Function.update_of_ne other ..⟩
  · obtain ⟨rfl, rfl⟩ := Prod.mk.inj ended
    exact ⟨rfl, rfl, rfl, fun semid other => Function.update_of_ne other ..⟩
  · exact ⟨rfl, rfl, rfl, fun _ _ => rfl⟩
  · exact ⟨rfl, rfl, rfl, fun _ _ => rfl⟩

theorem Shared.round {letter : UInt8} {fails : Bool} {mine mine' other : Process}
    {kernel kernel' : Kernel} {text : Bytes} (shared : Shared kernel mine other)
    (owned : mine.semid = 0)
    (moved : PairedPrinting.round letter fails mine kernel = some (mine', kernel', text)) :
    Shared kernel' mine' other := by
  obtain ⟨balance, apart, undo, undoOther⟩ := shared
  rcases round_cases moved with ⟨value, stage, found, rfl, rfl, -⟩ |
    ⟨value, stage, found, rfl, rfl, -⟩ | ⟨stage, ended, -⟩ | ⟨stage, rfl, rfl, -⟩ |
    ⟨stage, rfl, rfl, -⟩
  · -- `P` passes: the value was one, and nobody held the semaphore.
    rw [owned] at found
    have sum := balance _ found
    have alone : other.stage.holds.toNat = 0 := by omega
    refine ⟨?_, ?_, ?_, undoOther⟩
    · intro value' found'
      simp only [owned, Function.update_self, Option.some.injEq] at found'
      simp only [Stage.holds_first, Bool.toNat_true]
      omega
    · intro _
      simpa using alone
    · simp [undo, stage]
  · rw [owned] at found
    have sum := balance _ found
    refine ⟨?_, ?_, ?_, undoOther⟩
    · intro value' found'
      simp only [owned, Function.update_self, Option.some.injEq] at found'
      simp only [stage, Stage.holds_v, Bool.toNat_true] at sum
      simp only [Stage.holds_head, Bool.toNat_false]
      omega
    · intro holds
      cases holds
    · simp [undo, stage]
  · -- The process ends, and the kernel undoes its `P`.
    obtain ⟨rfl, rfl⟩ := Prod.mk.inj ended
    refine ⟨?_, ?_, rfl, undoOther⟩
    · intro value' found'
      simp only [owned, Function.update_self, Option.map_eq_some_iff] at found'
      obtain ⟨value, found, rfl⟩ := found'
      have sum := balance value found
      simp only [undo, Stage.holds_over, Bool.toNat_false]
      omega
    · intro holds
      cases holds
  · refine ⟨?_, ?_, ?_, undoOther⟩
    · simpa [stage] using balance
    · exact fun _ => apart (by simp [stage])
    · simpa [stage] using undo
  · refine ⟨?_, ?_, ?_, undoOther⟩
    · simpa [stage] using balance
    · exact fun _ => apart (by simp [stage])
    · simpa [stage] using undo

theorem pending_of_not_holds {letter : UInt8} {process : Process}
    (free : process.stage.holds = false) : pending letter process = [] := by
  rw [pending, if_neg]
  intro second
  rw [second] at free
  cases free

theorem round_prints {letter : UInt8} {fails : Bool} {process process' : Process}
    {kernel kernel' : Kernel} {text : Bytes}
    (moved : round letter fails process kernel = some (process', kernel', text)) :
    (text = [] ∧ pending letter process = [] ∧ pending letter process' = []) ∨
      (process.stage.holds = true ∧ text = [letter] ∧ pending letter process = [] ∧
        pending letter process' = [letter]) ∨
      (process.stage.holds = true ∧ text = [letter] ∧ pending letter process = [letter] ∧
        pending letter process' = []) := by
  rcases round_cases moved with ⟨value, stage, -, rfl, -, rfl⟩ |
    ⟨value, stage, -, rfl, -, rfl⟩ | ⟨stage, ended, rfl⟩ | ⟨stage, rfl, -, rfl⟩ |
    ⟨stage, rfl, -, rfl⟩
  · exact Or.inl ⟨rfl, by simp [pending, stage], by simp [pending]⟩
  · exact Or.inl ⟨rfl, by simp [pending, stage], by simp [pending]⟩
  · obtain ⟨rfl, -⟩ := Prod.mk.inj ended
    refine Or.inl ⟨rfl, ?_, by simp [pending]⟩
    rcases stage with head | v
    · simp [pending, head]
    · simp [pending, v]
  · exact Or.inr (Or.inl ⟨by simp [stage], rfl, by simp [pending, stage], by simp [pending]⟩)
  · exact Or.inr (Or.inr ⟨by simp [stage], rfl, by simp [pending, stage], by simp [pending]⟩)

theorem Tiled.round {letter letter' : UInt8} {fails : Bool} {mine mine' other : Process}
    {kernel kernel' : Kernel} {text stdout : Bytes} (is : IsLetter letter)
    (apart : mine.stage.holds = true → other.stage.holds = false)
    (moved : PairedPrinting.round letter fails mine kernel = some (mine', kernel', text))
    (tiled : Tiled (pending letter mine ++ pending letter' other) stdout) :
    Tiled (pending letter mine' ++ pending letter' other) (stdout ++ text) := by
  rcases round_prints moved with ⟨rfl, before, after⟩ | ⟨holds, rfl, before, after⟩ |
    ⟨holds, rfl, before, after⟩
  · rw [after, List.append_nil]
    rwa [before] at tiled
  · have none : pending letter' other = [] := pending_of_not_holds (apart holds)
    rw [before, none] at tiled
    rw [after, none]
    exact tiled.begin is
  · have none : pending letter' other = [] := pending_of_not_holds (apart holds)
    rw [before, none] at tiled
    rw [after, none]
    exact tiled.close is

theorem Shared.pending_comm {kernel : Kernel} {mine other : Process}
    (shared : Shared kernel mine other) (letter letter' : UInt8) :
    pending letter mine ++ pending letter' other =
      pending letter' other ++ pending letter mine := by
  cases holds : mine.stage.holds with
  | false => rw [pending_of_not_holds holds, List.nil_append, List.append_nil]
  | true =>
      have none : pending letter' other = [] := pending_of_not_holds (shared.apart holds)
      rw [none, List.nil_append, List.append_nil]

/-! ## Every interleaving -/

/-- Before the child has an id, the key stands for the set of the parent. -/
def Stage.early : Stage → Bool
  | .build => true
  | .key => true
  | .get => true
  | _ => false

structure Inv (st : State) : Prop where
  owned : st.parent.semid = 0
  next : 0 < st.kernel.next
  keyed : st.child.stage.early = true → ∀ semid, st.kernel.keyed = some semid → semid = 0
  stranger : st.child.semid ≠ 0 →
    st.kernel.sets st.child.semid = some 0 ∧ st.child.stage.holds = false
  shared : Shared st.kernel st.parent st.child
  tiled : Tiled (pending letterF st.parent ++ pending letterC st.child) st.stdout

theorem inv_start (key : UInt32) (rounds : Nat) : Inv (start key rounds) where
  owned := rfl
  next := Nat.one_pos
  keyed := by
    intro _ semid same
    exact (Option.some.inj same).symm
  stranger := fun other => absurd rfl other
  shared := by
    refine ⟨?_, ?_, rfl, rfl⟩
    · intro value found
      have one : value = 1 := by simpa [start] using found.symm
      rw [one]
      rfl
    · intro holds
      cases holds
  tiled := by
    refine ⟨[], by simp, ?_⟩
    simp only [start, letters_append, letters_keyLine, letters_idLine]
    rfl

theorem Inv.paired {st : State} (inv : Inv st) : Paired st := by
  refine inv.tiled.paired ?_
  cases holds : st.parent.stage.holds with
  | false =>
      rw [pending_of_not_holds holds, List.nil_append]
      unfold pending
      split
      · exact Or.inr ⟨letterC, Or.inr rfl, rfl⟩
      · exact Or.inl rfl
  | true =>
      have none : pending letterC st.child = [] :=
        pending_of_not_holds (inv.shared.apart holds)
      rw [none, List.append_nil]
      unfold pending
      split
      · exact Or.inr ⟨letterF, Or.inl rfl, rfl⟩
      · exact Or.inl rfl

theorem Inv.parentRound {fails : Bool} {st : State} {moved : Process × Kernel × Bytes} {cnt : Nat}
    (inv : Inv st) (done : round letterF fails st.parent st.kernel = some moved) :
    Inv { st with
      parent := moved.1
      kernel := moved.2.1
      stdout := st.stdout ++ moved.2.2
      cnt := cnt } := by
  obtain ⟨semid, keyed, next, frame⟩ := round_frame done
  refine ⟨semid.trans inv.owned, ?_, ?_, ?_, inv.shared.round inv.owned done, ?_⟩
  · rw [next]
    exact inv.next
  · rw [keyed]
    exact inv.keyed
  · intro other
    obtain ⟨value, free⟩ := inv.stranger other
    refine ⟨?_, free⟩
    dsimp only
    rw [frame _ (inv.owned ▸ other)]
    exact value
  · exact inv.tiled.round (Or.inl rfl) inv.shared.apart done

/-- The parent may remove the set while the child holds the semaphore or waits for it. -/
theorem Inv.remove {st : State} (inv : Inv st) (head : st.parent.stage = .head) :
    Inv { st with
      kernel := semctlRmid st.parent.semid st.kernel
      parent := { st.parent with stage := .removed } } := by
  have parent : st.parent.undo = 0 := by simpa [head] using inv.shared.undo
  refine ⟨inv.owned, inv.next, ?_, ?_, ⟨?_, ?_, parent, inv.shared.undoOther⟩, ?_⟩
  · intro early semid same
    simp only [semctlRmid] at same
    split at same
    · cases same
    · exact inv.keyed early semid same
  · intro other
    obtain ⟨value, free⟩ := inv.stranger other
    refine ⟨?_, free⟩
    simp only [semctlRmid, inv.owned]
    rw [Function.update_of_ne other]
    exact value
  · intro value found
    simp [semctlRmid, inv.owned] at found
  · intro holds
    cases holds
  · simpa [pending, head] using inv.tiled

theorem Inv.stepParent {fails : Bool} {st after : State} (inv : Inv st)
    (stepped : PairedPrinting.stepParent fails st = some after) : Inv after := by
  unfold PairedPrinting.stepParent at stepped
  dsimp only at stepped
  split at stepped
  · rename_i head
    split at stepped
    · cases stepped
      exact inv.remove head
    · obtain ⟨moved, done, rfl⟩ := Option.map_eq_some_iff.mp stepped
      exact inv.parentRound done
  · rename_i removed
    cases stepped
    have parent : st.parent.undo = 0 := by
      have undo := inv.shared.undo
      rw [removed] at undo
      exact undo
    refine ⟨inv.owned, inv.next, inv.keyed, inv.stranger,
      ⟨?_, ?_, parent, inv.shared.undoOther⟩, ?_⟩
    · intro value found
      have sum := inv.shared.balance value found
      rw [removed] at sum
      exact sum
    · intro holds
      cases holds
    · have line := inv.tiled.silent (letters_removedLine st.parent.semid)
      rw [pending, if_neg (by simp [removed])] at line
      rw [pending, if_neg (by simp)]
      exact line
  · obtain ⟨moved, done, rfl⟩ := Option.map_eq_some_iff.mp stepped
    exact inv.parentRound done

theorem round_not_early {letter : UInt8} {fails : Bool} {process process' : Process}
    {kernel kernel' : Kernel} {text : Bytes}
    (moved : round letter fails process kernel = some (process', kernel', text)) :
    process'.stage.early = false := by
  rcases round_cases moved with ⟨value, -, -, rfl, -, -⟩ | ⟨value, -, -, rfl, -, -⟩ |
    ⟨-, ended, -⟩ | ⟨-, rfl, -, -⟩ | ⟨-, rfl, -, -⟩
  · rfl
  · rfl
  · obtain ⟨rfl, -⟩ := Prod.mk.inj ended
    rfl
  · rfl
  · rfl

/-- On a set of its own, which nobody raises, the child never gets past `P`. -/
theorem round_stranger {letter : UInt8} {fails : Bool} {process process' : Process}
    {kernel kernel' : Kernel} {text : Bytes} (empty : kernel.sets process.semid = some 0)
    (free : process.stage.holds = false) (undo : process.undo = 0)
    (moved : round letter fails process kernel = some (process', kernel', text)) :
    kernel'.sets process.semid = some 0 ∧ process'.stage.holds = false ∧ process'.undo = 0 := by
  rcases round_cases moved with ⟨value, -, found, -⟩ | ⟨value, stage, -⟩ | ⟨-, ended, -⟩ |
    ⟨stage, -⟩ | ⟨stage, -⟩
  · rw [empty] at found
    cases found
  · rw [stage] at free
    cases free
  · obtain ⟨rfl, rfl⟩ := Prod.mk.inj ended
    refine ⟨?_, rfl, rfl⟩
    simp [empty, undo]
  · rw [stage] at free
    cases free
  · rw [stage] at free
    cases free

theorem Inv.childRound {fails : Bool} {st : State} {moved : Process × Kernel × Bytes}
    (inv : Inv st) (done : round letterC fails st.child st.kernel = some moved) :
    Inv { st with
      child := moved.1
      kernel := moved.2.1
      stdout := st.stdout ++ moved.2.2 } := by
  obtain ⟨semid, keyed, next, frame⟩ := round_frame done
  have late := round_not_early done
  have tiled : Tiled (pending letterC moved.1 ++ pending letterF st.parent)
      (st.stdout ++ moved.2.2) :=
    Tiled.round (Or.inr rfl) inv.shared.symm.apart done
      (inv.shared.pending_comm letterF letterC ▸ inv.tiled)
  have shared : Shared moved.2.1 st.parent moved.1 := by
    by_cases same : st.child.semid = 0
    · exact (inv.shared.symm.round same done).symm
    · obtain ⟨empty, free⟩ := inv.stranger same
      have undo : st.child.undo = 0 := by simpa [free] using inv.shared.undoOther
      obtain ⟨-, free', undo'⟩ := round_stranger empty free undo done
      refine ⟨?_, fun _ => free', inv.shared.undo, ?_⟩
      · intro value found
        rw [frame 0 (Ne.symm same)] at found
        have sum := inv.shared.balance value found
        rw [free] at sum
        rw [free']
        exact sum
      · rw [undo', free']
        rfl
  refine ⟨inv.owned, ?_, ?_, ?_, shared, ?_⟩
  · rw [next]
    exact inv.next
  · intro early
    rw [late] at early
    cases early
  · intro other
    rw [semid] at other ⊢
    obtain ⟨empty, free⟩ := inv.stranger other
    have undo : st.child.undo = 0 := by simpa [free] using inv.shared.undoOther
    obtain ⟨empty', free', -⟩ := round_stranger empty free undo done
    exact ⟨empty', free'⟩
  · rw [shared.pending_comm letterF letterC]
    exact tiled

/-- A line of `Build` is no letter, and the child holds nothing before and after it. -/
theorem Inv.line {st : State} (inv : Inv st) {stage : Stage} {line : Bytes}
    (before : st.child.stage.holds = false) (after : stage.holds = false)
    (early : stage.early = true → st.child.stage.early = true)
    (silent : letters line = []) :
    Inv { st with
      child := { st.child with stage := stage }
      stdout := st.stdout ++ line } := by
  have undo : st.child.undo = 0 := by simpa [before] using inv.shared.undoOther
  refine ⟨inv.owned, inv.next, fun begun => inv.keyed (early begun), ?_,
    ⟨?_, fun _ => after, inv.shared.undo, ?_⟩, ?_⟩
  · intro other
    exact ⟨(inv.stranger other).1, after⟩
  · intro value found
    have sum := inv.shared.balance value found
    rw [before] at sum
    rw [after]
    exact sum
  · rw [after]
    exact undo
  · have printed := inv.tiled.silent silent
    rw [pending_of_not_holds before] at printed
    have none : pending letterC { st.child with stage := stage } = [] :=
      pending_of_not_holds after
    rw [none]
    exact printed

/-- The child finds the set of the parent, or a new one if the parent has removed it. -/
theorem Inv.get {st : State} (inv : Inv st) (get : st.child.stage = .get) :
    Inv { st with
      child := { st.child with stage := .got, semid := (semget st.kernel).1 }
      kernel := (semget st.kernel).2 } := by
  have undo : st.child.undo = 0 := by simpa [get, Stage.holds] using inv.shared.undoOther
  have early : st.child.stage.early = true := by rw [get]; rfl
  have tiled : Tiled (pending letterF st.parent ++ []) st.stdout := by
    simpa [pending, get] using inv.tiled
  cases found : st.kernel.keyed with
  | some semid =>
      have same : semget st.kernel = (semid, st.kernel) := by rw [semget, found]
      rw [same, inv.keyed early semid found]
      refine ⟨inv.owned, inv.next, (fun begun => nomatch begun), fun other => absurd rfl other,
        ⟨?_, fun _ => rfl, inv.shared.undo, undo⟩, tiled⟩
      intro value here
      have sum := inv.shared.balance value here
      rw [get] at sum
      exact sum
  | none =>
      have new : semget st.kernel = (st.kernel.next,
          { sets := Function.update st.kernel.sets st.kernel.next (some 0)
            keyed := some st.kernel.next
            next := st.kernel.next + 1 }) := by rw [semget, found]
      rw [new]
      refine ⟨inv.owned, Nat.succ_pos _, (fun begun => nomatch begun),
        fun _ => ⟨Function.update_self .., rfl⟩,
        ⟨?_, fun _ => rfl, inv.shared.undo, undo⟩, tiled⟩
      intro value here
      dsimp only at here
      rw [Function.update_of_ne (Nat.ne_of_lt inv.next)] at here
      have sum := inv.shared.balance value here
      rw [get] at sum
      exact sum

theorem Inv.stepChild {key : UInt32} {fails : Bool} {st after : State} (inv : Inv st)
    (stepped : PairedPrinting.stepChild key fails st = some after) : Inv after := by
  unfold PairedPrinting.stepChild at stepped
  split at stepped
  · rename_i build
    cases stepped
    exact inv.line (by simp [build, Stage.holds]) rfl (fun _ => by rw [build]; rfl) (by decide)
  · rename_i build
    cases stepped
    exact inv.line (by simp [build, Stage.holds]) rfl (fun _ => by rw [build]; rfl)
      (letters_keyLine key)
  · rename_i get
    cases stepped
    exact inv.get get
  · rename_i got
    cases stepped
    exact inv.line (by simp [got, Stage.holds]) rfl (fun early => nomatch early)
      (letters_idLine st.child.semid)
  · obtain ⟨moved, done, rfl⟩ := Option.map_eq_some_iff.mp stepped
    exact inv.childRound done

theorem Inv.step {key : UInt32} {st after : State} {event : Event} (inv : Inv st)
    (stepped : PairedPrinting.step key st event = some after) : Inv after := by
  cases event with
  | parent fails => exact inv.stepParent stepped
  | child fails => exact inv.stepChild stepped

/-- The letters come in pairs, in every interleaving, for any number of rounds. -/
theorem letters_paired {key : UInt32} {rounds : Nat} {st : State}
    (reached : Reachable (step key) (start key rounds) st) : Paired st :=
  (reached.invariant Inv (fun _ _ _ inv stepped => inv.step stepped)
    (inv_start key rounds)).paired

/-- The child is between its letters when the parent, without any rounds, removes the
semaphore. -/
def removedBetween : List Event :=
  [.child false, .child false, .child false, .child false, .child false, .child false,
    .parent false, .child false, .parent false, .child false]

theorem letters_paired_removed :
    ∃ st, play (step 5) (start 5 0) removedBetween = some st ∧
      letters st.stdout = [letterC, letterC] ∧ Paired st := by
  have ran : (play (step 5) (start 5 0) removedBetween).map (fun st => letters st.stdout) =
      some [letterC, letterC] := by decide
  obtain ⟨st, ran, printed⟩ := Option.map_eq_some_iff.mp ran
  exact ⟨st, ran, printed, letters_paired ⟨removedBetween, ran⟩⟩

end LinuxSystemLearning.PairedPrinting
