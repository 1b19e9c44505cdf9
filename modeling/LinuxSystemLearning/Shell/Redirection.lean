import LinuxSystemLearning.Shell.CommandLine

/-!
# Redirections

`RedirCheck` looks for an operator from the end of the command line, cuts the line there,
and takes the rest of it for the name of the file.
-/

set_option autoImplicit false

namespace LinuxSystemLearning.MyShell

open LinuxSystemLearning.Cxx
open LinuxSystemLearning.Words

/-! ## The code -/

def less : UInt8 := 60

def greater : UInt8 := 62

def trimSpace (cmd : Bytes) (pos : Nat) : Option Nat :=
  (scan isspace (cmd.drop pos)).map (pos + ·)

/-- `cmd[end++] = 0` and what follows it in both branches. -/
def cutAt (redir : Redir) (pos : Nat) (st : Shell) : Option Shell := do
  let cmd := st.commandline.set pos 0
  let pos ← trimSpace cmd (pos + 1)
  let filename ← stringAt cmd pos
  some { st with commandline := cmd, redir := redir, filename := filename }

/-- The branch for `>`; `cmd[end - 1]` is not there at the beginning of the array. -/
def greaterAt (pos : Nat) (st : Shell) : Option Shell :=
  match pos with
  | 0 => none
  | before + 1 => do
      if (← st.commandline[before]?) = greater then
        cutAt .appedRedir pos { st with commandline := st.commandline.set before 0 }
      else cutAt .outputRedir pos st

/-- The loop, with `end` as it is in front of the test. -/
def redirLoop : Nat → Shell → Option Shell
  | 0, st => some st
  | pos + 1, st => do
      let byte ← st.commandline[pos]?
      if byte = less then cutAt .inputRedir pos st
      else if byte = greater then greaterAt pos st
      else redirLoop pos st

def redirCheck (st : Shell) : Option Shell := do
  let st := { st with redir := .noneRedir, filename := [] }
  let length ← strlen st.commandline
  redirLoop length st

/-! ## Operators -/

inductive Operator where
  | input
  | output
  | append
  deriving DecidableEq

def Operator.text : Operator → Bytes
  | .input => [less]
  | .output => [greater]
  | .append => [greater, greater]

def Operator.redir : Operator → Redir
  | .input => .inputRedir
  | .output => .outputRedir
  | .append => .appedRedir

/-- What is left of the operator in the array. -/
def Operator.cut (op : Operator) : Bytes := List.replicate op.text.length 0

def Plain (text : Bytes) : Prop := ∀ byte ∈ text, byte ≠ less ∧ byte ≠ greater ∧ byte ≠ 0

instance (text : Bytes) : Decidable (Plain text) :=
  List.decidableBAll (fun byte => byte ≠ less ∧ byte ≠ greater ∧ byte ≠ 0) text

def Trimmed (text : Bytes) : Prop := ∀ byte ∈ text.head?, isspace byte = false

instance (text : Bytes) : Decidable (Trimmed text) :=
  inferInstanceAs (Decidable (∀ byte ∈ text.head?, isspace byte = false))

variable {st : Shell} {front gap tail rest : Bytes}

theorem plain_of_spaces (spaces : ∀ byte ∈ gap, isspace byte = true) : Plain gap := by
  intro byte member
  refine ⟨?_, ?_, ?_⟩ <;>
  · rintro rfl
    exact absurd (spaces _ member) (by decide)

theorem Plain.append (plain : Plain front) (plain' : Plain tail) : Plain (front ++ tail) := by
  intro byte member
  rcases List.mem_append.mp member with inFront | inTail
  · exact plain byte inFront
  · exact plain' byte inTail

theorem Plain.nulFree (plain : Plain tail) : 0 ∉ tail := fun member => (plain 0 member).2.2 rfl

theorem Plain.getLast?_ne (plain : Plain tail) : tail.getLast? ≠ some greater := fun last =>
  (plain greater (List.mem_of_getLast? last)).2.1 rfl

/-! ## One operator -/

theorem scan_gap (spaces : ∀ byte ∈ gap, isspace byte = true) (trimmed : Trimmed tail) :
    scan isspace (gap ++ (tail ++ 0 :: rest)) = some gap.length := by
  cases tail with
  | nil => exact scan_stop spaces rfl rest
  | cons first tail => exact scan_stop spaces (trimmed first rfl) _

theorem cutAt_eq {byte : UInt8} (redir : Redir)
    (array : st.commandline = front ++ byte :: (gap ++ (tail ++ 0 :: rest)))
    (spaces : ∀ byte ∈ gap, isspace byte = true) (trimmed : Trimmed tail) (nulFree : 0 ∉ tail) :
    cutAt redir front.length st = some { st with
      commandline := front ++ 0 :: (gap ++ (tail ++ 0 :: rest))
      redir := redir
      filename := tail } := by
  have cut : st.commandline.set front.length 0 = front ++ 0 :: (gap ++ (tail ++ 0 :: rest)) := by
    rw [array]
    simp
  have behind : (front ++ 0 :: (gap ++ (tail ++ 0 :: rest))).drop (front.length + 1) =
      gap ++ (tail ++ 0 :: rest) := by
    rw [← List.drop_drop, List.drop_left]
    rfl
  have name : stringAt (front ++ 0 :: (gap ++ (tail ++ 0 :: rest)))
      (front.length + 1 + gap.length) = some tail := by
    have shape : front ++ 0 :: (gap ++ (tail ++ 0 :: rest)) =
        front ++ 0 :: gap ++ (tail ++ 0 :: rest) := by simp
    have length : front.length + 1 + gap.length = (front ++ 0 :: gap).length := by
      simp only [List.length_append, List.length_cons]
      omega
    rw [shape, length]
    exact stringAt_append nulFree _ _
  simp only [cutAt, cut, trimSpace, behind, scan_gap spaces trimmed, Option.map_some, name,
    Option.bind_eq_bind, Option.bind_some]

theorem redirLoop_succ {byte : UInt8} (array : st.commandline = front ++ byte :: rest) :
    redirLoop (front.length + 1) st =
      if byte = less then cutAt .inputRedir front.length st
      else if byte = greater then greaterAt front.length st
      else redirLoop front.length st := by
  have here : st.commandline[front.length]? = some byte := by simp [array]
  rw [redirLoop, here, Option.bind_eq_bind, Option.bind_some]

/-- What is behind the last operator is passed over. -/
theorem redirLoop_skip (array : st.commandline = front ++ (tail ++ rest)) (plain : Plain tail) :
    redirLoop (front.length + tail.length) st = redirLoop front.length st := by
  induction tail using List.reverseRecOn generalizing rest with
  | nil => rfl
  | append_singleton tail byte ih =>
      obtain ⟨notLess, notGreater, -⟩ := plain byte (by simp)
      have array' : st.commandline = front ++ tail ++ byte :: rest := by simp [array]
      have passed := redirLoop_succ array'
      rw [if_neg notLess, if_neg notGreater, List.length_append] at passed
      rw [List.length_append, List.length_singleton, ← Nat.add_assoc, passed]
      apply ih (array'.trans (List.append_assoc _ _ _))
      exact fun other member => plain other (List.mem_append_left _ member)

/-- `op` is not taken for another operator, and `cmd[-1]` is not read. -/
def Operator.Follows (op : Operator) (front : Bytes) : Prop :=
  op = .output → front ≠ [] ∧ front.getLast? ≠ some greater

theorem redirLoop_operator {op : Operator} (follows : op.Follows front)
    (array : st.commandline = front ++ (op.text ++ (gap ++ (tail ++ 0 :: rest))))
    (spaces : ∀ byte ∈ gap, isspace byte = true) (trimmed : Trimmed tail) (nulFree : 0 ∉ tail) :
    redirLoop (front.length + op.text.length) st = some { st with
      commandline := front ++ (op.cut ++ (gap ++ (tail ++ 0 :: rest)))
      redir := op.redir
      filename := tail } := by
  cases op with
  | input =>
      have found := redirLoop_succ array
      rw [if_pos rfl] at found
      exact found.trans (cutAt_eq .inputRedir array spaces trimmed nulFree)
  | output =>
      obtain ⟨nonempty, other⟩ := follows rfl
      obtain ⟨before, last, rfl⟩ : ∃ before last, front = before ++ [last] :=
        ⟨_, _, (List.dropLast_append_getLast nonempty).symm⟩
      -- the byte in front is read, and it is no `>`
      have different : last ≠ greater := by simpa using other
      have found := redirLoop_succ array
      have previous : st.commandline[before.length]? = some last := by simp [array]
      rw [if_neg (by decide), if_pos rfl, List.length_append, List.length_singleton, greaterAt,
        previous, Option.bind_eq_bind, Option.bind_some, if_neg different] at found
      have cut : cutAt .outputRedir (before ++ [last]).length st = some _ :=
        cutAt_eq .outputRedir array spaces trimmed nulFree
      rw [List.length_append, List.length_singleton] at cut ⊢
      exact found.trans cut
  | append =>
      have array' : st.commandline =
          front ++ [greater] ++ greater :: (gap ++ (tail ++ 0 :: rest)) := by
        rw [array]
        simp [Operator.text]
      have found := redirLoop_succ array'
      have previous : st.commandline[front.length]? = some greater := by simp [array']
      have array'' : st.commandline.set front.length 0 =
          front ++ [0] ++ greater :: (gap ++ (tail ++ 0 :: rest)) := by simp [array']
      rw [if_neg (by decide), if_pos rfl, List.length_append, List.length_singleton, greaterAt,
        previous, Option.bind_eq_bind, Option.bind_some, if_pos rfl] at found
      have cut : cutAt .appedRedir (front ++ [0]).length
          { st with commandline := st.commandline.set front.length 0 } = some _ :=
        cutAt_eq .appedRedir array'' spaces trimmed nulFree
      rw [List.length_append, List.length_singleton] at cut
      rw [List.append_assoc] at cut
      exact found.trans cut

theorem nul_not_mem_operator (op : Operator) : 0 ∉ op.text := by
  cases op <;> decide

theorem redirCheck_operator {op : Operator} (follows : op.Follows front)
    (array : st.commandline = front ++ (op.text ++ (gap ++ (tail ++ 0 :: rest))))
    (nulFree : 0 ∉ front) (spaces : ∀ byte ∈ gap, isspace byte = true) (plain : Plain tail)
    (trimmed : Trimmed tail) :
    redirCheck st = some { st with
      commandline := front ++ (op.cut ++ (gap ++ (tail ++ 0 :: rest)))
      redir := op.redir
      filename := tail } := by
  have whole : 0 ∉ front ++ (op.text ++ (gap ++ tail)) := by
    simp only [List.mem_append, not_or]
    exact ⟨nulFree, nul_not_mem_operator op, (plain_of_spaces spaces).nulFree, plain.nulFree⟩
  have length := strlen_text whole rest
  have shape : front ++ (op.text ++ (gap ++ tail)) ++ 0 :: rest = st.commandline := by
    rw [array]
    simp
  rw [shape] at length
  have behind : Plain (gap ++ tail) := (plain_of_spaces spaces).append plain
  have array' : ({ st with redir := .noneRedir, filename := [] } : Shell).commandline =
      front ++ op.text ++ (gap ++ tail ++ 0 :: rest) := by
    simp [array]
  have skipped := redirLoop_skip array' behind
  have found : redirLoop (front.length + op.text.length)
      { st with redir := .noneRedir, filename := [] } = some _ :=
    redirLoop_operator follows array spaces trimmed plain.nulFree
  rw [List.length_append, found] at skipped
  simp only [redirCheck, length, Option.bind_eq_bind, Option.bind_some]
  rw [← skipped]
  simp only [List.length_append, Nat.add_assoc]

/-- Both characters of `>>` are overwritten. -/
example (st : Shell) :
    (redirCheck { st with commandline := ascii "a >>\tf" ++ [0] }).map
        (fun st => (st.commandline, st.redir, st.filename)) =
      some ([97, 32, 0, 0, 9, 102, 0], .appedRedir, ascii "f") := rfl

/-- With a single `>` at the beginning, `cmd[-1]` is read. -/
theorem redirCheck_first (array : st.commandline = greater :: (tail ++ 0 :: rest))
    (plain : Plain tail) : redirCheck st = none := by
  have whole : 0 ∉ greater :: tail := by
    rw [List.mem_cons, not_or]
    exact ⟨by decide, plain.nulFree⟩
  have length := strlen_text whole rest
  have shape : greater :: tail ++ 0 :: rest = st.commandline := array.symm
  rw [shape, List.length_cons, Nat.add_comm] at length
  have array' : ({ st with redir := .noneRedir, filename := [] } : Shell).commandline =
      [greater] ++ (tail ++ 0 :: rest) := array
  have skipped := redirLoop_skip array' plain
  have array'' : ({ st with redir := .noneRedir, filename := [] } : Shell).commandline =
      [] ++ greater :: (tail ++ 0 :: rest) := array
  have found := redirLoop_succ array''
  rw [if_neg (by decide), if_pos rfl] at found
  simp only [redirCheck, length, Option.bind_eq_bind, Option.bind_some]
  exact skipped.trans found

theorem redirCheck_plain (array : st.commandline = tail ++ 0 :: rest) (plain : Plain tail) :
    redirCheck st = some { st with redir := .noneRedir, filename := [] } := by
  have length := strlen_text plain.nulFree rest
  rw [← array] at length
  have array' : ({ st with redir := .noneRedir, filename := [] } : Shell).commandline =
      [] ++ (tail ++ 0 :: rest) := array
  have skipped := redirLoop_skip array' plain
  rw [List.length_nil, Nat.zero_add] at skipped
  simp only [redirCheck, length, Option.bind_eq_bind, Option.bind_some]
  exact skipped

theorem Operator.cut_eq (op : Operator) : ∃ more, op.cut = 0 :: more := by
  cases op with
  | input => exact ⟨[], rfl⟩
  | output => exact ⟨[], rfl⟩
  | append => exact ⟨[0], rfl⟩

theorem stringAt_cut {op : Operator} (nulFree : 0 ∉ front) (rest : Bytes) :
    stringAt (front ++ (op.cut ++ rest)) 0 = some front := by
  obtain ⟨more, cut⟩ := op.cut_eq
  rw [cut]
  exact stringAt_append nulFree [] (more ++ rest)

/-! ## Lines with one operator and with none -/

/-- A command, an operator, white space and a name, in an array that may be longer. -/
structure RedirectedLine where
  command : Bytes
  op : Operator
  gap : Bytes
  name : Bytes
  rest : Bytes
  nonempty : command ≠ []
  command_plain : Plain command
  gap_spaces : ∀ byte ∈ gap, isspace byte = true
  name_plain : Plain name
  name_trimmed : Trimmed name

def RedirectedLine.loaded (line : RedirectedLine) (st : Shell) : Shell := { st with
  commandline := line.command ++ (line.op.text ++ (line.gap ++ (line.name ++ 0 :: line.rest))) }

structure PlainLine where
  text : Bytes
  rest : Bytes
  plain : Plain text

def PlainLine.loaded (line : PlainLine) (st : Shell) : Shell :=
  { st with commandline := line.text ++ 0 :: line.rest }

theorem Plain.follows (plain : Plain front) (nonempty : front ≠ []) (op : Operator) :
    op.Follows front := fun _ => ⟨nonempty, plain.getLast?_ne⟩

/-- `RedirCheck` parses a line with one operator, and leaves one without any alone. -/
theorem redirCheck_parses :
    (∀ (line : RedirectedLine) (st : Shell), ∃ after, redirCheck (line.loaded st) = some after ∧
      stringAt after.commandline 0 = some line.command ∧ after.filename = line.name ∧
        after.redir = line.op.redir) ∧
    ∀ (line : PlainLine) (st : Shell), redirCheck (line.loaded st) =
      some { line.loaded st with redir := .noneRedir, filename := [] } := by
  constructor
  · intro line st
    have follows := line.command_plain.follows line.nonempty line.op
    have checked : redirCheck (line.loaded st) = some _ :=
      redirCheck_operator follows rfl line.command_plain.nulFree line.gap_spaces line.name_plain
        line.name_trimmed
    exact ⟨_, checked, stringAt_cut line.command_plain.nulFree _, rfl, rfl⟩
  · intro line st
    exact redirCheck_plain rfl line.plain

def listInto : RedirectedLine where
  command := ascii "ls "
  op := .append
  gap := []
  name := ascii "out"
  rest := []
  nonempty := by decide
  command_plain := by decide
  gap_spaces := fun _ member => absurd member List.not_mem_nil
  name_plain := by decide
  name_trimmed := fun _ first => Option.some.inj first ▸ rfl

theorem redirCheck_parses_listInto : ∃ after, redirCheck (listInto.loaded .fresh) = some after ∧
    stringAt after.commandline 0 = some (ascii "ls ") ∧ after.filename = ascii "out" ∧
      after.redir = .appedRedir :=
  redirCheck_parses.1 listInto .fresh

end LinuxSystemLearning.MyShell
