import Mathlib.Data.List.Basic

/-!
# Files and open file descriptions

What `open`, `write` and `dup2` promise about the contents of a regular file.  A file that
is opened for appending is written at its end, wherever the offset is.
-/

set_option autoImplicit false

namespace LinuxSystemLearning.Files

universe u

structure OpenFlags where
  creat : Bool
  wronly : Bool
  trunc : Bool
  append : Bool
  deriving DecidableEq

/-- An open file description, with the contents of the file. -/
structure OpenFile (α : Type u) where
  content : List α
  offset : Nat
  inside : offset ≤ content.length
  writable : Bool
  append : Bool

variable {α : Type u}

def OpenFile.empty (writable append : Bool) : OpenFile α :=
  ⟨[], 0, Nat.le_refl 0, writable, append⟩

/-- `none` stands for a file that is not there. -/
def openFile (flags : OpenFlags) (content : Option (List α)) : Option (OpenFile α) :=
  match content with
  | none =>
      if flags.creat then some (.empty flags.wronly flags.append) else none
  | some content =>
      some ⟨if flags.trunc then [] else content, 0, Nat.zero_le _, flags.wronly, flags.append⟩

def OpenFile.start (file : OpenFile α) : Nat :=
  if file.append then file.content.length else file.offset

theorem OpenFile.start_le (file : OpenFile α) : file.start ≤ file.content.length := by
  unfold OpenFile.start
  split
  · exact Nat.le_refl _
  · exact file.inside

def OpenFile.put (file : OpenFile α) (items : List α) : OpenFile α where
  content := file.content.take file.start ++ items ++
    file.content.drop (file.start + items.length)
  offset := file.start + items.length
  inside := by
    have start := file.start_le
    simp only [List.length_append, List.length_take, List.length_drop]
    omega
  writable := file.writable
  append := file.append

/-- What the kernel does with a `write`: it fails, or it takes some items at most. -/
inductive Verdict where
  | fails
  | takes (limit : Nat)
  deriving DecidableEq

/-- How many items `write` takes; `none` is the result -1. -/
def OpenFile.taken (file : OpenFile α) (verdict : Verdict) (items : List α) : Option Nat :=
  match verdict with
  | .fails => none
  | .takes limit => if file.writable then some (min limit items.length) else none

def OpenFile.write (file : OpenFile α) (verdict : Verdict) (items : List α) :
    Option Nat × OpenFile α :=
  match file.taken verdict items with
  | none => (none, file)
  | some count => (some count, file.put (items.take count))

def OpenFile.AtEnd (file : OpenFile α) : Prop := file.start = file.content.length

variable {file : OpenFile α}

theorem OpenFile.content_put (atEnd : file.AtEnd) (items : List α) :
    (file.put items).content = file.content ++ items := by
  have start : file.start = file.content.length := atEnd
  show file.content.take file.start ++ items ++ file.content.drop (file.start + items.length) = _
  rw [start, List.take_length, List.drop_eq_nil_of_le (Nat.le_add_right _ _), List.append_nil]

theorem OpenFile.atEnd_put (atEnd : file.AtEnd) (items : List α) : (file.put items).AtEnd := by
  have start : file.start = file.content.length := atEnd
  unfold OpenFile.AtEnd OpenFile.start
  rw [OpenFile.content_put atEnd, List.length_append]
  split
  · rfl
  · show file.start + items.length = _
    rw [start]

theorem OpenFile.atEnd_write (atEnd : file.AtEnd) (verdict : Verdict) (items : List α) :
    (file.write verdict items).2.AtEnd := by
  unfold OpenFile.write
  split
  · exact atEnd
  · exact OpenFile.atEnd_put atEnd _

theorem OpenFile.atEnd_empty (writable append : Bool) :
    (OpenFile.empty writable append : OpenFile α).AtEnd := by
  unfold OpenFile.AtEnd OpenFile.start
  split
  · rfl
  · rfl

/-- A file that is truncated or opened for appending is written at its end. -/
theorem openFile_atEnd {flags : OpenFlags} {content : Option (List α)}
    (ends : flags.trunc = true ∨ flags.append = true)
    (opened : openFile flags content = some file) : file.AtEnd := by
  unfold openFile at opened
  cases content with
  | none =>
      dsimp only at opened
      split at opened
      · cases opened
        exact OpenFile.atEnd_empty _ _
      · cases opened
  | some content =>
      cases opened
      rcases ends with trunc | append
      · simp [OpenFile.AtEnd, OpenFile.start, trunc]
      · simp [OpenFile.AtEnd, OpenFile.start, append]

/-- With `O_CREAT` the file is there, and `O_TRUNC` is what takes the old contents away. -/
theorem openFile_eq {flags : OpenFlags} (creat : flags.creat = true)
    (content : Option (List α)) :
    ∃ file, openFile flags content = some file ∧
      file.content = (if flags.trunc then [] else content.getD []) ∧
        file.writable = flags.wronly := by
  cases content with
  | none => exact ⟨_, if_pos creat, (ite_self _).symm, rfl⟩
  | some content => exact ⟨_, rfl, rfl, rfl⟩

def OpenFile.putAll (file : OpenFile α) (chunks : List (List α)) : OpenFile α :=
  chunks.foldl OpenFile.put file

theorem OpenFile.content_putAll (atEnd : file.AtEnd) (chunks : List (List α)) :
    (file.putAll chunks).content = file.content ++ chunks.flatten := by
  induction chunks generalizing file with
  | nil => simp [OpenFile.putAll]
  | cons chunk chunks ih =>
      have later := ih (OpenFile.atEnd_put atEnd chunk)
      rw [OpenFile.content_put atEnd] at later
      rw [List.flatten_cons, ← List.append_assoc, ← later]
      rfl

end LinuxSystemLearning.Files
