import LinuxSystemLearning.Shell.Input

/-!
# The language of the shell

What a line means is said once for a command as a tree: where it writes, and what it leaves
behind.  The shell reads the line into an array, cuts the array into pieces, and does that.
-/

set_option autoImplicit false

namespace LinuxSystemLearning.MyShell

open LinuxSystemLearning.Cxx
open LinuxSystemLearning.Files
open LinuxSystemLearning.Interleaving
open LinuxSystemLearning.Words

/-! ## Commands and what they mean -/

inductive Command where
  | cd (dir : Option Bytes)
  | echo (opt : Bytes)
  | program (name : Bytes) (args : List Bytes) (redirection : Option (Operator × Bytes))

/-- What others can see of a shell. -/
structure View (Path : Type) where
  lastcode : Nat
  terminal : Bytes
  disk : Path → Option Bytes
  chdirs : List Bytes

/-- Where a program writes; of a file, what is kept in front of it. -/
inductive Sink (Path : Type) where
  | terminal
  | file (place : Path) (kept : Bytes)

variable {Path : Type} [DecidableEq Path]

def Sink.write (sink : Sink Path) (text : Bytes) (view : View Path) : View Path :=
  match sink with
  | .terminal => { view with terminal := view.terminal ++ text }
  | .file place kept =>
      { view with disk := Function.update view.disk place (some (kept ++ text)) }

def sinkOf (env : Surroundings) (found : Bytes → Path) (disk : Path → Option Bytes) :
    Option (Operator × Bytes) → Except Nat (Sink Path)
  | none => .ok .terminal
  | some (.input, name) =>
      if env.opens name ∧ (disk (found name)).isSome then .ok .terminal else .error 1
  | some (.output, name) => if env.opens name then .ok (.file (found name) []) else .error 2
  | some (.append, name) =>
      if env.opens name then .ok (.file (found name) ((disk (found name)).getD []))
      else .error 3

def homeOf (env : Surroundings) : Option Bytes :=
  (env.getenv (ascii "HOME")).filter fun home => home ≠ []

/-- `path` tells which file a name stands for behind some calls of `chdir`. -/
def Command.run (path : List Bytes → Bytes → Path) (env : Surroundings) (view : View Path) :
    Command → View Path
  | .cd dir => { view with chdirs := view.chdirs ++ (dir.or (homeOf env)).toList }
  | .echo opt => { view with
      terminal := view.terminal ++ echoText env view.lastcode opt
      lastcode := if opt = ascii "$?" then 0 else view.lastcode }
  | .program name args redirection =>
      if env.forks then
        match sinkOf env (path view.chdirs) view.disk redirection with
        | .error status => { view with lastcode := status }
        | .ok sink =>
            let output := (env.program (name :: args)).getD ⟨[], 1⟩
            sink.write output.chunks.flatten { view with lastcode := output.status }
      else view

/-- The last operator of a text, and the name behind it. -/
def redirectionOf (text : Bytes) : Option (Operator × Bytes) :=
  let name := (text.reverse.takeWhile fun byte => !isOperator byte).reverse.dropWhile isspace
  match text.reverse.dropWhile fun byte => !isOperator byte with
  | [] => none
  | byte :: front =>
      if byte = less then some (.input, name)
      else if front.head? = some greater then some (.append, name)
      else some (.output, name)

def commandOf (redirection : Option (Operator × Bytes)) : List Bytes → Option Command
  | [] => none
  | name :: args =>
      if name = cdName then some (.cd args.head?)
      else if name = echoName then args.head?.map .echo
      else some (.program name args redirection)

instance (text : Bytes) : Decidable (BareOutput text) :=
  inferInstanceAs (Decidable (_ ∧ _))

def parse (text : Bytes) : Option Command :=
  if ¬ BareOutput text ∧ (argvOf text).length < maxArgv then
    commandOf (redirectionOf text) (argvOf text)
  else none

/-- `echo` prints the first of its arguments; the last redirection is the one that counts. -/
example : (parse (ascii "cat a < b >> c")).isSome ∧ (parse (ascii "echo")).isNone ∧
    redirectionOf (ascii "cat a < b >> c") = some (.append, [99]) := by decide

/-! ## How a command is written -/

def space : UInt8 := 32

def Command.argv : Command → List Bytes
  | .cd dir => cdName :: dir.toList
  | .echo opt => [echoName, opt]
  | .program name args _ => name :: args

def Command.redirection : Command → Option (Operator × Bytes)
  | .program _ _ redirection => redirection
  | _ => none

def gapOf (spaces : Nat) : Bytes := List.replicate spaces space

def spaced (spaces : Nat) (parts : List Bytes) : Bytes :=
  parts.flatMap fun word => word ++ space :: gapOf spaces

def redirectionText (spaces : Nat) : Option (Operator × Bytes) → Bytes
  | none => []
  | some (op, name) => op.text ++ (gapOf spaces ++ name)

def Command.text (spaces : Nat) (cmd : Command) : Bytes :=
  spaced spaces cmd.argv ++ redirectionText spaces cmd.redirection

structure Machine (Path : Type) where
  world : World
  disk : Path → Option Bytes

def Machine.view (machine : Machine Path) : View Path :=
  ⟨machine.world.lastcode, machine.world.terminal, machine.disk, machine.world.chdirs⟩

/-- The file that the redirection names is all that a round can change. -/
def Machine.settled (found : Bytes → Path) (disk : Path → Option Bytes) (world : World) :
    Machine Path :=
  ⟨world, Function.update disk (found world.shell.filename) (world.files world.shell.filename)⟩

/-- A round sees the files by their names. -/
def Machine.round (path : List Bytes → Bytes → Path) (machine : Machine Path)
    (env : Surroundings) : Option (Machine Path) := do
  let found := path machine.world.chdirs
  let world ← mainRound { machine.world with files := fun name => machine.disk (found name) } env
  some (.settled found machine.disk world)

def Machine.boot (stdin : Bytes) (disk : Path → Option Bytes) : Machine Path :=
  ⟨.fresh stdin fun _ => none, disk⟩

/-! ## Reading a redirection -/

variable {text front gap name rest : Bytes} {op : Operator} {st : Shell}

/-- What `RedirCheck` leaves in `redir` and `filename`. -/
def Kept (redirection : Option (Operator × Bytes)) (st : Shell) : Prop :=
  match redirection with
  | none => st.redir = .noneRedir
  | some (op, name) => st.redir = op.redir ∧ st.filename = name

variable {path : List Bytes → Bytes → Path} {found : Bytes → Path} {disk : Path → Option Bytes}
  {env : Surroundings} {world : World} {args argv : List Bytes} {flags : OpenFlags}
  {redirection : Option (Operator × Bytes)}

variable {line : Bytes}

/-- A line without NUL that fits into the array with its newline. -/
structure Fits (line : Bytes) : Prop where
  whole : newline ∉ line
  nulFree : 0 ∉ line
  short : line.length + 1 < commandSize

theorem fgetsPiece_line {limit : Nat} (whole : newline ∉ line) (short : line.length < limit)
    (stream : Bytes) :
    fgetsPiece limit (line ++ newline :: stream) = (line ++ [newline], stream) := by
  induction line generalizing limit with
  | nil =>
      cases limit with
      | zero => cases short
      | succ limit => exact if_pos rfl
  | cons byte line ih =>
      rw [List.mem_cons, not_or] at whole
      cases limit with
      | zero => cases short
      | succ limit =>
          have later := ih whole.2 (Nat.lt_of_succ_lt_succ short)
          rw [List.cons_append, fgetsPiece, if_neg (Ne.symm whole.1), later]
          rfl

theorem Fits.piece (fits : Fits line) (stream : Bytes) :
    pieceOf (line ++ newline :: stream) = line ++ [newline] ∧
      restOf (line ++ newline :: stream) = stream := by
  have short : line.length < commandSize - 1 := Nat.lt_sub_of_add_lt fits.short
  have read := fgetsPiece_line fits.whole short stream
  exact ⟨congrArg Prod.fst read, congrArg Prod.snd read⟩

theorem Fits.taken (fits : Fits line) :
    textOfPiece (line ++ [newline]) = line ∧ ¬ Skipped (line ++ [newline]) := by
  have nulFree : 0 ∉ line ++ [newline] := by
    rw [List.mem_append, not_or]
    exact ⟨fits.nulFree, by decide⟩
  have string : cString (line ++ [newline]) = line ++ [newline] := by
    rw [cString, List.takeWhile_eq_self_iff]
    exact fun byte member => decide_eq_true fun zero => nulFree (zero ▸ member)
  refine ⟨?_, ?_⟩
  · rw [textOfPiece, string, List.dropLast_concat]
  · rw [Skipped, string]
    simp

/-! ## A script -/

variable {cmd : Command}

end LinuxSystemLearning.MyShell
