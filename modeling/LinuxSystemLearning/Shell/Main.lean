import LinuxSystemLearning.Library.Interleaving
import LinuxSystemLearning.Library.OpenFile
import LinuxSystemLearning.Shell.Redirection

/-!
# The main loop of the shell

Each round reads a line into an array, looks for a redirection, cuts the rest into words,
and runs a built-in command in the shell or another program in a child.  The redirection is
looked at in the child only.
-/

set_option autoImplicit false

namespace LinuxSystemLearning.MyShell

open LinuxSystemLearning.Cxx
open LinuxSystemLearning.Files
open LinuxSystemLearning.Words

/-! ## The environment -/

def maxEnvs : Nat := 100

/-- `g_env`; `none` is `NULL`. -/
structure EnvTable where
  slots : List (Option Bytes)
  size : slots.length = maxEnvs

def EnvTable.put (table : EnvTable) (i : Nat) (entry : Option Bytes) : Option EnvTable :=
  if i < maxEnvs then some ⟨table.slots.set i entry, by rw [List.length_set, table.size]⟩
  else none

def EnvTable.zero : EnvTable := ⟨List.replicate maxEnvs none, List.length_replicate⟩

/-- The first loop of `InitEnv`, with `i` and `g_envs`, which are the same. -/
def copyEnviron : List Bytes → EnvTable → Nat → Option (EnvTable × Nat)
  | [], table, envs => some (table, envs)
  | entry :: environ, table, envs => do
      copyEnviron environ (← table.put envs (some entry)) (envs + 1)

/-- The second loop, and what it hands to `putenv`. -/
def putenvLoop : List (Option Bytes) → Option (List Bytes)
  | [] => none
  | none :: _ => some []
  | some entry :: slots => (putenvLoop slots).map (entry :: ·)

def testEntry : Bytes := ascii "HAA=for_tset"

structure Environment where
  table : EnvTable
  envs : Nat
  exported : List Bytes

def initEnv (environ : List Bytes) : Option Environment := do
  let (table, envs) ← copyEnviron environ .zero 0
  let table ← table.put envs (some testEntry)
  let table ← table.put (envs + 1) none
  let exported ← putenvLoop table.slots
  some ⟨table, envs + 1, exported⟩

/-! ## The world of the shell -/

def commandSize : Nat := 1024

/-- What a program writes, one `write` behind the other, and how it ends. -/
structure Output where
  chunks : List Bytes
  status : Nat

/-- What a round of the loop meets: the array as it comes from the stack, the environment,
the files that can be opened, whether `fork` succeeds, what `execvp` starts, and what a child
leaves of the input.  A program may read from it, and where the input is a file, `exit` in a
child takes back what the shell has read ahead. -/
structure Surroundings where
  left : Bytes
  size : left.length = commandSize
  getenv : Bytes → Option Bytes
  opens : Bytes → Bool
  forks : Bool
  program : List Bytes → Option Output
  leaves : Bytes → Bytes

/-- No child touches the input: it is a terminal or a pipe, and no program reads from it. -/
def Surroundings.Quiet (env : Surroundings) : Prop := ∀ stream, env.leaves stream = stream

/-- `terminal` has what commands wrote, without the prompts. -/
structure World where
  shell : Shell
  stdin : Bytes
  lastcode : Nat
  terminal : Bytes
  files : Bytes → Option Bytes
  chdirs : List Bytes
  /-- The texts `GetCommandLine` gave to the loop. -/
  processed : List Bytes

def print (text : Bytes) (world : World) : World :=
  { world with terminal := world.terminal ++ text }

/-! ## Reading -/

def newline : UInt8 := 10

/-- Up to a newline, and `limit` characters at most; and what is left of the stream. -/
def fgetsPiece : Nat → Bytes → Bytes × Bytes
  | 0, stream => ([], stream)
  | _ + 1, [] => ([], [])
  | limit + 1, byte :: stream =>
      if byte = newline then ([byte], stream)
      else (byte :: (fgetsPiece limit stream).1, (fgetsPiece limit stream).2)

/-- At the end of the stream it is `NULL`, and the array stays as it is. -/
def fgets (size : Nat) (array stream : Bytes) : Option (Bytes × Bytes) :=
  if stream = [] then none
  else
    let (piece, rest) := fgetsPiece (size - 1) stream
    some (piece ++ 0 :: array.drop (piece.length + 1), rest)

def World.load (array : Bytes) (world : World) : World :=
  { world with shell := { world.shell with commandline := array } }

def getCommandLine (world : World) : Option (Bool × World) :=
  match fgets commandSize world.shell.commandline world.stdin with
  | none => some (true, world)
  | some (out, stdin) => do
      let length ← strlen out
      if length = 0 then some (false, { world.load out with stdin := stdin })
      else some (true, { world.load (out.set (length - 1) 0) with stdin := stdin })

/-! ## Commands -/

/-- `std::string s = g_argv[i]`; from `NULL` there is none. -/
def Shell.stdString (st : Shell) (i : Nat) : Option Bytes := do
  let pointer ← st.argv.slots[i]?
  st.argument pointer

def cdName : Bytes := ascii "cd"

def echoName : Bytes := ascii "echo"

def cd (env : Surroundings) (world : World) : Option World :=
  if world.shell.argc = 1 then
    let home := (env.getenv (ascii "HOME")).getD []
    if home = [] then some world else some { world with chdirs := world.chdirs ++ [home] }
  else do
    let dir ← world.shell.stdString 1
    some { world with chdirs := world.chdirs ++ [dir] }

def dollar : UInt8 := 36

def echo (env : Surroundings) (world : World) : Option World := do
  let opt ← world.shell.stdString 1
  if opt = ascii "$?" then
    some { print (stdToString world.lastcode ++ [newline]) world with lastcode := 0 }
  else if opt.head? = some dollar then
    match env.getenv opt.tail with
    | some value => some (print (value ++ [newline]) world)
    | none => some world
  else some (print (opt ++ [newline]) world)

def checkAndExecBuiltin (env : Surroundings) (world : World) : Option (Bool × World) := do
  let cmd ← world.shell.stdString 0
  if cmd = cdName then
    let world ← cd env world
    some (true, world)
  else if cmd = echoName then
    let world ← echo env world
    some (true, world)
  else some (false, world)

def Shell.strings (st : Shell) : Option (List Bytes) := st.arguments.mapM st.argument

def execOnTerminal (env : Surroundings) (argv : List Bytes) (world : World) : World :=
  match env.program argv with
  | none => { world with lastcode := 1 }
  | some output => { print output.chunks.flatten world with lastcode := output.status }

/-- The file is opened as the standard output of the program. -/
def execOnFile (env : Surroundings) (flags : OpenFlags) (failure : Nat) (argv : List Bytes)
    (world : World) : World :=
  let name := world.shell.filename
  if env.opens name then
    match openFile flags (world.files name) with
    | none => { world with lastcode := failure }
    | some file =>
        let output := (env.program argv).getD ⟨[], 1⟩
        { world with
          files := Function.update world.files name (some (file.putAll output.chunks).content)
          lastcode := output.status }
  else { world with lastcode := failure }

def truncFlags : OpenFlags := ⟨true, true, true, false⟩

def appendFlags : OpenFlags := ⟨true, true, false, true⟩

/-- The child, and the parent that waits for it.  Without a child `waitpid` fails. -/
def excute (env : Surroundings) (world : World) : Option World := do
  let argv ← world.shell.strings
  if env.forks then
    let world := { world with stdin := env.leaves world.stdin }
    match world.shell.redir with
    | .noneRedir => some (execOnTerminal env argv world)
    | .inputRedir =>
        if env.opens world.shell.filename ∧ (world.files world.shell.filename).isSome then
          some (execOnTerminal env argv world)
        else some { world with lastcode := 1 }
    | .outputRedir => some (execOnFile env truncFlags 2 argv world)
    | .appedRedir => some (execOnFile env appendFlags 3 argv world)
  else some world

def runCommand (env : Surroundings) (world : World) : Option World := do
  let (done, world) ← checkAndExecBuiltin env world
  if done then some world else excute env world

def process (env : Surroundings) (world : World) : Option World := do
  let shell ← redirCheck world.shell
  let (any, shell) ← commandParse shell
  if any then runCommand env { world with shell := shell }
  else some { world with shell := shell }

def mainRound (world : World) (env : Surroundings) : Option World := do
  let (taken, world) ← getCommandLine (world.load env.left)
  if taken then
    let text ← stringAt world.shell.commandline 0
    process env { world with processed := world.processed ++ [text] }
  else some world

def World.fresh (stdin : Bytes) (files : Bytes → Option Bytes) : World where
  shell := .fresh
  stdin := stdin
  lastcode := 0
  terminal := []
  files := files
  chdirs := []
  processed := []

/-! ## Texts the loop can do with -/

def isOperator (byte : UInt8) : Bool := byte = less || byte = greater

def commandPart (text : Bytes) : Bytes :=
  match text.reverse.dropWhile fun byte => !isOperator byte with
  | [] => text
  | byte :: front =>
      if byte = greater ∧ front.head? = some greater then front.tail.reverse else front.reverse

def argvOf (text : Bytes) : List Bytes := words isSep (commandPart text)

/-- The only operator of the text is a `>` at its beginning. -/
def BareOutput (text : Bytes) : Prop := text.head? = some greater ∧ Plain text.tail

/-- There is a command in front of the operator, it is not too long, and `echo` has an
argument. -/
structure Safe (text : Bytes) : Prop where
  inside : ¬ BareOutput text
  command : argvOf text ≠ []
  few : (argvOf text).length < maxArgv
  argument : argvOf text ≠ [echoName]

/-! ## Redirections -/

variable {text front behind rest : Bytes} {op : Operator} {st : Shell}

/-- An operator that is not a part of another one. -/
def Operator.Alone (op : Operator) (front : Bytes) : Prop :=
  op = .output → front.getLast? ≠ some greater

theorem plain_nil : Plain [] := fun _ member => absurd member List.not_mem_nil

theorem plain_concat {byte : UInt8} (plain : Plain front) (different : byte ≠ less)
    (different' : byte ≠ greater) (nonzero : byte ≠ 0) : Plain (front ++ [byte]) := by
  apply plain.append
  intro other member
  rw [List.mem_singleton.mp member]
  exact ⟨different, different', nonzero⟩

/-- A text has no operator, or a last one. -/
theorem plain_or_operator (nulFree : 0 ∉ text) :
    Plain text ∨ ∃ (front : Bytes) (op : Operator) (behind : Bytes),
      text = front ++ (op.text ++ behind) ∧ Plain behind ∧ op.Alone front := by
  induction text using List.reverseRecOn with
  | nil => exact Or.inl plain_nil
  | append_singleton text byte ih =>
      simp only [List.mem_append, List.mem_singleton, not_or] at nulFree
      by_cases input : byte = less
      · exact Or.inr ⟨text, .input, [], by rw [input]; rfl, plain_nil, nofun⟩
      · by_cases output : byte = greater
        · rw [output]
          by_cases doubled : text.getLast? = some greater
          · obtain ⟨front, rfl⟩ := List.getLast?_eq_some_iff.mp doubled
            exact Or.inr ⟨front, .append, [], List.append_assoc _ _ _, plain_nil, nofun⟩
          · exact Or.inr ⟨text, .output, [], rfl, plain_nil, fun _ => doubled⟩
        · have nonzero : byte ≠ 0 := fun zero => nulFree.2 zero.symm
          rcases ih nulFree.1 with plain | ⟨front, op, behind, rfl, plain, alone⟩
          · exact Or.inl (plain_concat plain input output nonzero)
          · refine Or.inr ⟨front, op, behind ++ [byte], ?_, ?_, alone⟩
            · simp only [List.append_assoc]
            · exact plain_concat plain input output nonzero

theorem dropWhile_plain (plain : Plain behind) (front : Bytes) :
    (front ++ behind).reverse.dropWhile (fun byte => !isOperator byte) =
      front.reverse.dropWhile fun byte => !isOperator byte := by
  rw [List.reverse_append]
  apply List.dropWhile_append_of_pos
  intro byte member
  obtain ⟨notLess, notGreater, -⟩ := plain byte (List.mem_reverse.mp member)
  simp [isOperator, notLess, notGreater]

theorem commandPart_plain (plain : Plain text) : commandPart text = text := by
  have none := dropWhile_plain plain []
  rw [List.nil_append, List.reverse_nil, List.dropWhile_nil] at none
  rw [commandPart, none]

theorem commandPart_operator (plain : Plain behind) (alone : op.Alone front) :
    commandPart (front ++ (op.text ++ behind)) = front := by
  have found := dropWhile_plain plain (front ++ op.text)
  rw [List.append_assoc] at found
  rw [commandPart, found]
  cases op with
  | input =>
      have last : (front ++ Operator.input.text).reverse = less :: front.reverse := by
        simp [Operator.text]
      have operator : (!isOperator less) = false := rfl
      have other : ¬ less = greater := by decide
      simp [last, operator, other]
  | output =>
      have last : (front ++ Operator.output.text).reverse = greater :: front.reverse := by
        simp [Operator.text]
      have operator : (!isOperator greater) = false := rfl
      simp [last, operator, alone rfl]
  | append =>
      have last : (front ++ Operator.append.text).reverse =
          greater :: greater :: front.reverse := by
        simp [Operator.text]
      have operator : (!isOperator greater) = false := rfl
      simp [last, operator]

theorem exists_name (plain : Plain behind) : ∃ gap name, behind = gap ++ name ∧
    (∀ byte ∈ gap, isspace byte = true) ∧ Plain name ∧ Trimmed name := by
  refine ⟨behind.takeWhile isspace, behind.dropWhile isspace,
    List.takeWhile_append_dropWhile.symm, fun _ => List.mem_takeWhile_imp, ?_, ?_⟩
  · intro byte member
    exact plain byte ((List.dropWhile_suffix _).mem member)
  · intro byte first
    have fails := List.head?_dropWhile_not isspace behind
    rw [Option.mem_def.mp first] at fails
    exact fails

theorem nulFree_front (nulFree : 0 ∉ front ++ behind) : 0 ∉ front := fun member =>
  nulFree (List.mem_append_left _ member)

theorem nulFree_commandPart (nulFree : 0 ∉ text) : 0 ∉ commandPart text := by
  rcases plain_or_operator nulFree with plain | ⟨front, op, behind, rfl, plain, alone⟩
  · rw [commandPart_plain plain]
    exact nulFree
  · rw [commandPart_operator plain alone]
    exact nulFree_front nulFree

/-- The last operator is the one that is found, and what is in front of it is left in the
array. -/
theorem redirCheck_lastOperator {gap name : Bytes}
    (array : st.commandline = front ++ (op.text ++ (gap ++ name)) ++ 0 :: rest)
    (nulFree : 0 ∉ front) (spaces : ∀ byte ∈ gap, isspace byte = true) (plain : Plain name)
    (trimmed : Trimmed name) (alone : op.Alone front)
    (inside : ¬ BareOutput (front ++ (op.text ++ (gap ++ name)))) :
    ∃ checked more, redirCheck st = some checked ∧ checked.commandline = front ++ 0 :: more ∧
      checked.redir = op.redir ∧ checked.filename = name := by
  have follows : op.Follows front := by
    intro output
    refine ⟨?_, alone output⟩
    rintro rfl
    rw [output] at inside
    exact inside ⟨rfl, (plain_of_spaces spaces).append plain⟩
  have array' : st.commandline = front ++ (op.text ++ (gap ++ (name ++ 0 :: rest))) := by
    rw [array]
    simp only [List.append_assoc]
  obtain ⟨more, cut⟩ := op.cut_eq
  refine ⟨_, more ++ (gap ++ (name ++ 0 :: rest)),
    redirCheck_operator follows array' nulFree spaces plain trimmed, ?_, rfl, rfl⟩
  rw [cut]
  rfl

theorem redirCheck_part (array : st.commandline = text ++ 0 :: rest) (nulFree : 0 ∉ text)
    (inside : ¬ BareOutput text) : ∃ checked more, redirCheck st = some checked ∧
      checked.commandline = commandPart text ++ 0 :: more := by
  rcases plain_or_operator nulFree with plain | ⟨front, op, behind, rfl, plain, alone⟩
  · rw [commandPart_plain plain]
    exact ⟨_, rest, redirCheck_plain array plain, array⟩
  · rw [commandPart_operator plain alone]
    obtain ⟨gap, name, rfl, spaces, plainName, trimmed⟩ := exists_name plain
    obtain ⟨checked, more, ran, part, -⟩ :=
      redirCheck_lastOperator array (nulFree_front nulFree) spaces plainName trimmed alone inside
    exact ⟨checked, more, ran, part⟩

theorem redirCheck_bare (array : st.commandline = text ++ 0 :: rest) (bare : BareOutput text) :
    redirCheck st = none := by
  obtain ⟨first, plain⟩ := bare
  obtain ⟨tail, rfl⟩ := List.head?_eq_some_iff.mp first
  exact redirCheck_first array plain

/-! ## Arguments -/

/-- `g_argv` has these strings and a `NULL`. -/
structure Ready (st : Shell) (argv : List Bytes) : Prop where
  argc : st.argc = argv.length
  string : ∀ i ≤ argv.length, st.stdString i = argv[i]?
  strings : st.strings = some argv

theorem mapM_eq_some {α β : Type} {f : α → Option β} {items : List α} {results : List β}
    (same : items.map f = results.map some) : items.mapM f = some results := by
  induction items generalizing results with
  | nil =>
      cases results with
      | nil => rfl
      | cons result results => cases same
  | cons item items ih =>
      cases results with
      | nil => cases same
      | cons result results =>
          obtain ⟨first, later⟩ := List.cons.inj same
          rw [List.mapM_cons, first, ih later]
          rfl

theorem commandParse_ready (array : st.commandline = text ++ 0 :: rest) (nulFree : 0 ∉ text)
    (nonempty : words isSep text ≠ []) (few : (words isSep text).length < maxArgv) :
    ∃ after, commandParse st = some (true, after) ∧ Ready after (words isSep text) ∧
      after.redir = st.redir ∧ after.filename = st.filename := by
  obtain ⟨after, pointers, ran, argc, arguments, last, taken, kept⟩ :=
    commandParse_words array nulFree nonempty few
  have count : pointers.length = (words isSep text).length := by
    simpa using congrArg List.length taken.strings
  have texts : after.arguments.map after.argument = (words isSep text).map some := by
    rw [arguments, List.map_map]
    exact taken.strings
  refine ⟨after, ran, ⟨argc.trans count, ?_, mapM_eq_some texts⟩, kept⟩
  intro i bound
  unfold Shell.stdString
  rcases Nat.lt_or_eq_of_le bound with inside | rfl
  · have slot : after.argv.slots[i]? = after.arguments[i]? := by
      rw [Shell.arguments, List.getElem?_take_of_lt (by omega)]
    have string := congrArg (·[i]?) texts
    simp only [List.getElem?_map, List.getElem?_eq_getElem inside, Option.map_some] at string
    obtain ⟨pointer, there, value⟩ := Option.map_eq_some_iff.mp string
    rw [slot, there, List.getElem?_eq_getElem inside]
    exact value
  · rw [← count, ← argc, last, argc, count, List.getElem?_eq_none (Nat.le_refl _)]
    rfl

/-! ## One command -/

def echoText (env : Surroundings) (lastcode : Nat) (opt : Bytes) : Bytes :=
  if opt = ascii "$?" then stdToString lastcode ++ [newline]
  else if opt.head? = some dollar then
    match env.getenv opt.tail with
    | some value => value ++ [newline]
    | none => []
  else opt ++ [newline]

def echoed (env : Surroundings) (opt : Bytes) (world : World) : World :=
  { print (echoText env world.lastcode opt) world with
    lastcode := if opt = ascii "$?" then 0 else world.lastcode }

variable {env : Surroundings} {world : World} {argv : List Bytes} {part more : Bytes}

theorem echo_eq {opt : Bytes} (ready : Ready world.shell argv) (there : argv[1]? = some opt) :
    echo env world = some (echoed env opt world) := by
  have bound : 1 ≤ argv.length := Nat.le_of_lt (List.getElem?_eq_some_iff.mp there).1
  have string := ready.string 1 bound
  rw [there] at string
  unfold echo echoed echoText
  rw [string, Option.bind_eq_bind, Option.bind_some]
  split
  · rfl
  · split
    · split
      · rfl
      · simp [print]
    · rfl

theorem echo_alone (ready : Ready world.shell [echoName]) : echo env world = none := by
  have string := ready.string 1 (Nat.le_refl 1)
  rw [echo, string]
  rfl

theorem cd_eq (ready : Ready world.shell argv) (nonempty : argv ≠ []) :
    ∃ chdirs, cd env world = some { world with chdirs := chdirs } := by
  unfold cd
  by_cases alone : world.shell.argc = 1
  · rw [if_pos alone]
    dsimp only
    split
    · exact ⟨world.chdirs, rfl⟩
    · exact ⟨_, rfl⟩
  · have positive := List.length_pos_of_ne_nil nonempty
    have more : 1 < argv.length := by
      have argc := ready.argc
      omega
    have string := ready.string 1 (Nat.le_of_lt more)
    rw [List.getElem?_eq_getElem more] at string
    rw [if_neg alone, string]
    exact ⟨_, rfl⟩

def Builtin (name : Bytes) : Prop := name = cdName ∨ name = echoName

theorem runCommand_cd {args : List Bytes} (ready : Ready world.shell (cdName :: args)) :
    ∃ chdirs, runCommand env world = some { world with chdirs := chdirs } := by
  have string := ready.string 0 (Nat.zero_le _)
  have called : ∃ chdirs, cd env world = some { world with chdirs := chdirs } :=
    cd_eq ready (List.cons_ne_nil _ _)
  obtain ⟨chdirs, ran⟩ := called
  refine ⟨chdirs, ?_⟩
  rw [runCommand, checkAndExecBuiltin, string]
  simp [ran]

theorem runCommand_echo {args : List Bytes} (ready : Ready world.shell (echoName :: args)) :
    runCommand env world = args.head?.map fun opt => echoed env opt world := by
  have string := ready.string 0 (Nat.zero_le _)
  have other : ¬ echoName = cdName := by decide
  cases args with
  | nil =>
      rw [runCommand, checkAndExecBuiltin, string]
      simp [other, echo_alone ready]
  | cons opt args =>
      have ran : echo env world = some (echoed env opt world) := echo_eq ready rfl
      rw [runCommand, checkAndExecBuiltin, string]
      simp [other, ran]

theorem runCommand_program {name : Bytes} {args : List Bytes}
    (ready : Ready world.shell (name :: args)) (program : ¬ Builtin name) :
    runCommand env world = excute env world := by
  have string := ready.string 0 (Nat.zero_le _)
  obtain ⟨notCd, notEcho⟩ := not_or.mp program
  rw [runCommand, checkAndExecBuiltin, string]
  simp [notCd, notEcho]

theorem exists_excute (ready : Ready world.shell argv) :
    ∃ after, excute env world = some after := by
  rw [excute, ready.strings, Option.bind_eq_bind, Option.bind_some]
  split
  · dsimp only
    split
    · exact ⟨_, rfl⟩
    · split
      · exact ⟨_, rfl⟩
      · exact ⟨_, rfl⟩
    · exact ⟨_, rfl⟩
    · exact ⟨_, rfl⟩
  · exact ⟨_, rfl⟩

/-- The command has a result unless it is `echo` without an argument. -/
theorem runCommand_iff (ready : Ready world.shell argv) (nonempty : argv ≠ []) :
    (∃ after, runCommand env world = some after) ↔ argv ≠ [echoName] := by
  obtain ⟨name, args, rfl⟩ := List.exists_cons_of_ne_nil nonempty
  by_cases isCd : name = cdName
  · subst isCd
    obtain ⟨chdirs, ran⟩ := runCommand_cd ready
    refine iff_of_true ⟨_, ran⟩ ?_
    intro same
    exact absurd (List.cons.inj same).1 (by decide)
  · by_cases isEcho : name = echoName
    · subst isEcho
      rw [runCommand_echo ready]
      cases args with
      | nil => simp
      | cons opt args => simp
    · have program : ¬ Builtin name := not_or.mpr ⟨isCd, isEcho⟩
      rw [runCommand_program ready program]
      refine iff_of_true (exists_excute ready) ?_
      intro same
      exact isEcho (List.cons.inj same).1

/-! ## One text -/

theorem process_parsed {checked shell : Shell} (ran : redirCheck world.shell = some checked)
    (parsed : commandParse checked = some (true, shell)) :
    process env world = runCommand env { world with shell := shell } := by
  simp only [process, ran, parsed, Option.bind_eq_bind, Option.bind_some, if_true]

theorem process_checked {checked : Shell} (ran : redirCheck world.shell = some checked)
    (array : checked.commandline = part ++ 0 :: more) (nulFree : 0 ∉ part)
    (nonempty : words isSep part ≠ []) (few : (words isSep part).length < maxArgv) :
    ∃ shell, Ready shell (words isSep part) ∧ shell.redir = checked.redir ∧
      shell.filename = checked.filename ∧
      process env world = runCommand env { world with shell := shell } := by
  obtain ⟨shell, parsed, ready, kept⟩ := commandParse_ready array nulFree nonempty few
  exact ⟨shell, ready, kept.1, kept.2, process_parsed ran parsed⟩

/-- A line without a word is a command whose name is `NULL`. -/
theorem process_blank {checked : Shell} (ran : redirCheck world.shell = some checked)
    (array : checked.commandline = part ++ 0 :: more) (blank : words isSep part = []) :
    process env world = none := by
  obtain ⟨shell, parsed, argc, arguments, -⟩ :=
    commandParse_blank array (words_eq_nil_iff.mp blank)
  have slot : shell.argv.slots[0]? = some none := by
    have first := congrArg (·[0]?) arguments
    rw [Shell.arguments, argc] at first
    simpa using first
  have string : shell.stdString 0 = none := by
    rw [Shell.stdString, slot]
    rfl
  rw [process_parsed ran parsed, runCommand, checkAndExecBuiltin]
  simp [string]

theorem process_long {checked : Shell} (ran : redirCheck world.shell = some checked)
    (array : checked.commandline = part ++ 0 :: more) (nulFree : 0 ∉ part)
    (long : ¬ (words isSep part).length < maxArgv) : process env world = none := by
  rw [process, ran, Option.bind_eq_bind, Option.bind_some]
  cases parsed : commandParse checked with
  | none => rfl
  | some result => exact absurd (length_words_of_commandParse array nulFree parsed) long

theorem process_iff (array : world.shell.commandline = text ++ 0 :: rest) (nulFree : 0 ∉ text) :
    (∃ after, process env world = some after) ↔ Safe text := by
  by_cases bare : BareOutput text
  · refine iff_of_false ?_ fun safe => safe.inside bare
    rintro ⟨after, ran⟩
    rw [process, redirCheck_bare array bare] at ran
    cases ran
  · obtain ⟨checked, more, ran, part⟩ := redirCheck_part array nulFree bare
    have clean := nulFree_commandPart nulFree
    by_cases blank : argvOf text = []
    · refine iff_of_false ?_ fun safe => safe.command blank
      rw [process_blank ran part blank]
      rintro ⟨after, ⟨⟩⟩
    · by_cases few : (argvOf text).length < maxArgv
      · obtain ⟨shell, ready, -, -, same⟩ := process_checked ran part clean blank few
        rw [same, runCommand_iff ready blank]
        exact ⟨fun argument => ⟨bare, blank, few, argument⟩, Safe.argument⟩
      · refine iff_of_false ?_ fun safe => few safe.few
        rw [process_long ran part clean few]
        rintro ⟨after, ⟨⟩⟩

end LinuxSystemLearning.MyShell
