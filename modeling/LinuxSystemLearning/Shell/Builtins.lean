import LinuxSystemLearning.Shell.Input

/-!
# Redirections of built-in commands

`RedirCheck` keeps what it found in globals, and only the child of `Excute` looks at them.
What `Echo` writes goes to the terminal, whatever the line says.  Of several redirections
the last one counts, so one of the input hides one of the output in front of it.
-/

set_option autoImplicit false

namespace LinuxSystemLearning.MyShell

open LinuxSystemLearning.Cxx
open LinuxSystemLearning.Files
open LinuxSystemLearning.Words

/-! ## Lines with an output redirection -/

/-- An operator, what is in front of it, and the name behind it. -/
structure LastRedirection where
  front : Bytes
  op : Operator
  gap : Bytes
  name : Bytes
  nulFree : 0 ∉ front
  alone : op.Alone front
  gap_spaces : ∀ byte ∈ gap, isspace byte = true
  name_plain : Plain name
  name_trimmed : Trimmed name

def LastRedirection.text (redirection : LastRedirection) : Bytes :=
  redirection.front ++ (redirection.op.text ++ (redirection.gap ++ redirection.name))

theorem LastRedirection.behind_plain (redirection : LastRedirection) :
    Plain (redirection.gap ++ redirection.name) :=
  (plain_of_spaces redirection.gap_spaces).append redirection.name_plain

theorem LastRedirection.nulFree_text (redirection : LastRedirection) : 0 ∉ redirection.text := by
  rw [LastRedirection.text, List.mem_append, List.mem_append, not_or, not_or]
  exact ⟨redirection.nulFree, nul_not_mem_operator _, redirection.behind_plain.nulFree⟩

theorem LastRedirection.commandPart_text (redirection : LastRedirection) :
    commandPart redirection.text = redirection.front :=
  commandPart_operator redirection.behind_plain redirection.alone

/-- A redirection of the input, and others between it and one of the output. -/
structure InputRedirection where
  between : Bytes
  gap : Bytes
  name : Bytes
  starts : ∀ byte ∈ between.head?, byte = less
  inputs : greater ∉ between
  nulFree : 0 ∉ between
  gap_spaces : ∀ byte ∈ gap, isspace byte = true
  name_plain : Plain name
  name_trimmed : Trimmed name

theorem nulFree_append {one two : Bytes} (first : 0 ∉ one) (second : 0 ∉ two) :
    0 ∉ one ++ two := by
  rw [List.mem_append, not_or]
  exact ⟨first, second⟩

/-- The whole line as it is read. -/
def InputRedirection.behind (input : InputRedirection) (output : LastRedirection) :
    LastRedirection where
  front := output.text ++ input.between
  op := .input
  gap := input.gap
  name := input.name
  nulFree := nulFree_append output.nulFree_text input.nulFree
  alone := nofun
  gap_spaces := input.gap_spaces
  name_plain := input.name_plain
  name_trimmed := input.name_trimmed

/-- A line with a redirection of the output, and perhaps one of the input behind it. -/
structure OutputLine where
  output : LastRedirection
  isOutput : output.op ≠ .input
  input : Option InputRedirection

def OutputLine.last (line : OutputLine) : LastRedirection :=
  match line.input with
  | none => line.output
  | some input => input.behind line.output

def OutputLine.text (line : OutputLine) : Bytes := line.last.text

def programText (env : Surroundings) (argv : List Bytes) : Bytes :=
  ((env.program argv).map (·.chunks.flatten)).getD []

/-! ## One line -/

/-- A line in the array, and a file its output can be written to. -/
structure Setting where
  line : OutputLine
  rest : Bytes
  env : Surroundings
  world : World
  writable : env.opens line.output.name = true

namespace Setting

variable (setting : Setting)

def loaded : World := setting.world.load (setting.line.text ++ 0 :: setting.rest)

def content (world : World) : Bytes := (world.files setting.line.output.name).getD []

def base : Bytes :=
  if setting.line.output.op = .append then setting.content setting.world else []

def Starts : Prop :=
  setting.env.forks = true ∧ (setting.line.input.isSome → setting.env.opens
    setting.line.last.name = true ∧ (setting.world.files setting.line.last.name).isSome)

instance : Decidable setting.Starts :=
  inferInstanceAs (Decidable (_ ∧ (_ → _)))

def written : Bytes :=
  match argvOf setting.line.text with
  | [] => []
  | name :: args =>
      if name = cdName then []
      else if name = echoName then
        (args.head?.map (echoText setting.env setting.world.lastcode)).getD []
      else if setting.Starts then programText setting.env (name :: args)
      else []

/-- All of it goes to the file and nothing to the terminal. -/
structure ToFile (after : World) : Prop where
  content : setting.content after = setting.base ++ setting.written
  terminal : after.terminal = setting.world.terminal

/-- All of it goes to the terminal and the files stay as they are. -/
structure ToTerminal (after : World) : Prop where
  files : after.files = setting.world.files
  terminal : after.terminal = setting.world.terminal ++ setting.written

def Honoured : Prop :=
  ∃ after, process setting.env setting.loaded = some after ∧ setting.ToFile after

/-- A program runs in a child, and the redirection of the output is the last one. -/
structure Redirected : Prop where
  last : setting.line.input = none
  forks : setting.env.forks = true
  program : ∀ name ∈ (argvOf setting.line.text).head?, ¬ Builtin name

end Setting

/-! ## Where programs write -/

variable {env : Surroundings} {world : World} {argv : List Bytes}

theorem execOnTerminal_eq (argv : List Bytes) :
    (execOnTerminal env argv world).files = world.files ∧
      (execOnTerminal env argv world).terminal = world.terminal ++ programText env argv := by
  unfold execOnTerminal programText
  cases env.program argv with
  | none => exact ⟨rfl, (List.append_nil _).symm⟩
  | some output => exact ⟨rfl, rfl⟩

theorem execOnFile_eq {flags : OpenFlags} (opens : env.opens world.shell.filename = true)
    (creat : flags.creat = true) (ends : flags.trunc = true ∨ flags.append = true)
    (failure : Nat) (argv : List Bytes) :
    (execOnFile env flags failure argv world).terminal = world.terminal ∧
      (execOnFile env flags failure argv world).files world.shell.filename =
        some ((if flags.trunc then [] else (world.files world.shell.filename).getD []) ++
          programText env argv) := by
  obtain ⟨file, opened, content, -⟩ := openFile_eq creat (world.files world.shell.filename)
  have atEnd := openFile_atEnd ends opened
  unfold execOnFile programText
  simp only [opens, opened, if_true, Function.update_self, OpenFile.content_putAll atEnd, content,
    true_and]
  cases env.program argv with
  | none => rfl
  | some output => rfl

namespace Setting

variable {setting : Setting}

/-! ## The two ways -/

structure Parsed (setting : Setting) (middle : World) : Prop where
  ready : Ready middle.shell (argvOf setting.line.text)
  redir : middle.shell.redir = setting.line.last.op.redir
  filename : middle.shell.filename = setting.line.last.name
  files : middle.files = setting.world.files
  terminal : middle.terminal = setting.world.terminal
  lastcode : middle.lastcode = setting.world.lastcode

theorem exists_parsed (safe : Safe setting.line.text) : ∃ middle, setting.Parsed middle ∧
    process setting.env setting.loaded = runCommand setting.env middle := by
  obtain ⟨checked, more, ran, part, redir, filename⟩ :
      ∃ checked more, redirCheck setting.loaded.shell = some checked ∧ _ :=
    redirCheck_lastOperator rfl setting.line.last.nulFree setting.line.last.gap_spaces
      setting.line.last.name_plain setting.line.last.name_trimmed setting.line.last.alone
      safe.inside
  have argv : argvOf setting.line.text = words isSep setting.line.last.front :=
    congrArg (words isSep) setting.line.last.commandPart_text
  have command := safe.command
  have few := safe.few
  rw [argv] at command few
  obtain ⟨shell, ready, redir', filename', same⟩ :=
    process_checked ran part setting.line.last.nulFree command few
  exact ⟨{ setting.loaded with shell := shell }, ⟨argv ▸ ready, redir'.trans redir,
    filename'.trans filename, rfl, rfl, rfl⟩, same⟩

variable {middle : World} {name : Bytes} {args : List Bytes}

theorem written_program (command : argvOf setting.line.text = name :: args)
    (program : ¬ Builtin name) : setting.written =
      if setting.Starts then programText setting.env (name :: args) else [] := by
  obtain ⟨notCd, notEcho⟩ := not_or.mp program
  simp only [written, command, if_neg notCd, if_neg notEcho]

theorem Parsed.forked (parsed : setting.Parsed middle) (stdin : Bytes) :
    setting.Parsed { middle with stdin := stdin } :=
  ⟨parsed.ready, parsed.redir, parsed.filename, parsed.files, parsed.terminal, parsed.lastcode⟩

theorem Parsed.excute_eq (parsed : setting.Parsed middle)
    (command : argvOf setting.line.text = name :: args) (program : ¬ Builtin name) :
    runCommand setting.env middle = excute setting.env middle ∧
      middle.shell.strings = some (name :: args) := by
  have ready := parsed.ready
  rw [command] at ready
  exact ⟨runCommand_program ready program, ready.strings⟩

theorem Parsed.toFile {flags : OpenFlags} {argv : List Bytes} (parsed : setting.Parsed middle)
    (here : middle.shell.filename = setting.line.output.name) (creat : flags.creat = true)
    (ends : flags.trunc = true ∨ flags.append = true)
    (keeps : (if flags.trunc then [] else setting.content setting.world) = setting.base)
    (writes : setting.written = programText setting.env argv) (failure : Nat) :
    setting.ToFile (execOnFile setting.env flags failure argv middle) := by
  have opens : setting.env.opens middle.shell.filename = true := by
    rw [here]
    exact setting.writable
  obtain ⟨terminal, content⟩ := execOnFile_eq opens creat ends failure argv
  rw [here, parsed.files] at content
  refine ⟨?_, terminal.trans parsed.terminal⟩
  rw [Setting.content, content, Option.getD_some, writes, ← keeps]
  rfl

/-- The child opens the file in place of its standard output. -/
theorem toFile_of_redirected (safe : Safe setting.line.text) (redirected : setting.Redirected) :
    ∃ after, process setting.env setting.loaded = some after ∧ setting.ToFile after := by
  obtain ⟨middle, parsed, goesOn⟩ := exists_parsed safe
  obtain ⟨name, args, command⟩ := List.exists_cons_of_ne_nil safe.command
  have program : ¬ Builtin name := redirected.program name (by rw [command]; rfl)
  have starts : setting.Starts := by
    refine ⟨redirected.forks, ?_⟩
    rw [redirected.last]
    exact nofun
  have last : setting.line.last = setting.line.output := by
    rw [OutputLine.last, redirected.last]
  have written := written_program command program
  rw [if_pos starts] at written
  have redir := parsed.redir
  have filename := parsed.filename
  rw [last] at redir filename
  obtain ⟨same, strings⟩ := parsed.excute_eq command program
  have parsed := parsed.forked (setting.env.leaves middle.stdin)
  rw [goesOn, same, excute, strings, Option.bind_eq_bind, Option.bind_some,
    if_pos redirected.forks]
  dsimp only
  rw [redir]
  cases op : setting.line.output.op with
  | input => exact absurd op setting.line.isOutput
  | output =>
      have keeps : (if truncFlags.trunc then [] else setting.content setting.world) =
          setting.base := by
        rw [base, op]
        rfl
      have file : setting.ToFile (execOnFile setting.env truncFlags 2 (name :: args) _) :=
        parsed.toFile filename rfl (Or.inl rfl) keeps written 2
      exact ⟨_, rfl, file⟩
  | append =>
      have keeps : (if appendFlags.trunc then [] else setting.content setting.world) =
          setting.base := by
        rw [base, op]
        rfl
      have file : setting.ToFile (execOnFile setting.env appendFlags 3 (name :: args) _) :=
        parsed.toFile filename rfl (Or.inr rfl) keeps written 3
      exact ⟨_, rfl, file⟩

theorem Parsed.toTerminal_cd (parsed : setting.Parsed middle)
    (command : argvOf setting.line.text = cdName :: args) :
    ∃ after, runCommand setting.env middle = some after ∧ setting.ToTerminal after := by
  have ready := parsed.ready
  rw [command] at ready
  have called : ∃ chdirs, runCommand setting.env middle = some { middle with chdirs := chdirs } :=
    runCommand_cd ready
  obtain ⟨chdirs, ran⟩ := called
  refine ⟨_, ran, parsed.files, ?_⟩
  simp [written, command, parsed.terminal]

theorem Parsed.toTerminal_echo {opt : Bytes} (parsed : setting.Parsed middle)
    (command : argvOf setting.line.text = echoName :: opt :: args) :
    ∃ after, runCommand setting.env middle = some after ∧ setting.ToTerminal after := by
  have ready := parsed.ready
  rw [command] at ready
  have other : ¬ echoName = cdName := by decide
  have ran : runCommand setting.env middle = _ := runCommand_echo ready
  refine ⟨_, ran, parsed.files, ?_⟩
  simp [written, command, other, echoed, print, parsed.terminal, parsed.lastcode]

theorem Parsed.toTerminal_idle {after : World} (parsed : setting.Parsed middle)
    (idle : setting.written = []) (files : after.files = middle.files)
    (terminal : after.terminal = middle.terminal) : setting.ToTerminal after where
  files := files.trans parsed.files
  terminal := by
    rw [idle, List.append_nil]
    exact terminal.trans parsed.terminal

/-- With a redirection of the input the child leaves its standard output alone. -/
theorem Parsed.toTerminal_input (parsed : setting.Parsed middle)
    (writes : setting.written =
      if setting.Starts then programText setting.env (name :: args) else [])
    (strings : middle.shell.strings = some (name :: args)) (forks : setting.env.forks = true)
    (hidden : setting.line.input ≠ none) :
    ∃ after, excute setting.env middle = some after ∧ setting.ToTerminal after := by
  obtain ⟨input, there⟩ := Option.ne_none_iff_exists'.mp hidden
  have redir : middle.shell.redir = .inputRedir := by
    rw [parsed.redir, OutputLine.last, there]
    rfl
  have starts : setting.Starts ↔ setting.env.opens middle.shell.filename = true ∧
      (middle.files middle.shell.filename).isSome = true := by
    rw [parsed.filename, parsed.files, Starts, and_iff_right forks, there]
    exact forall_prop_of_true rfl
  let forked : World := { middle with stdin := setting.env.leaves middle.stdin }
  have parsed : setting.Parsed forked := parsed.forked _
  rw [excute, strings, Option.bind_eq_bind, Option.bind_some, if_pos forks]
  dsimp only
  rw [redir]
  by_cases started : setting.Starts
  · have output : (execOnTerminal setting.env (name :: args) forked).files = _ ∧
        (execOnTerminal setting.env (name :: args) forked).terminal = _ :=
      execOnTerminal_eq (name :: args)
    obtain ⟨files, terminal⟩ := output
    rw [if_pos started] at writes
    refine ⟨_, if_pos (starts.mp started), files.trans parsed.files, ?_⟩
    rw [terminal, parsed.terminal, writes]
  · rw [if_neg started] at writes
    exact ⟨_, if_neg (mt starts.mpr started), parsed.toTerminal_idle writes rfl rfl⟩

/-- Without a child there is no program, either. -/
theorem Parsed.toTerminal_program (parsed : setting.Parsed middle)
    (command : argvOf setting.line.text = name :: args) (program : ¬ Builtin name)
    (ignored : ¬ setting.Redirected) :
    ∃ after, runCommand setting.env middle = some after ∧ setting.ToTerminal after := by
  have writes := written_program command program
  obtain ⟨same, strings⟩ := parsed.excute_eq command program
  rw [same]
  by_cases forks : setting.env.forks = true
  · refine parsed.toTerminal_input writes strings forks fun last => ?_
    refine ignored ⟨last, forks, ?_⟩
    rw [command]
    rintro _ ⟨⟩
    exact program
  · have idle : ¬ setting.Starts := fun starts => forks starts.1
    rw [if_neg idle] at writes
    have stays : excute setting.env middle = some middle := by
      rw [excute, strings, Option.bind_eq_bind, Option.bind_some, if_neg forks]
    exact ⟨middle, stays, parsed.toTerminal_idle writes rfl rfl⟩

/-- The redirection is not looked at, or only the one of the input. -/
theorem toTerminal_of_not_redirected (safe : Safe setting.line.text)
    (ignored : ¬ setting.Redirected) :
    ∃ after, process setting.env setting.loaded = some after ∧ setting.ToTerminal after := by
  obtain ⟨middle, parsed, goesOn⟩ := exists_parsed safe
  obtain ⟨name, args, command⟩ := List.exists_cons_of_ne_nil safe.command
  rw [goesOn]
  by_cases isCd : name = cdName
  · subst isCd
    exact parsed.toTerminal_cd command
  · by_cases isEcho : name = echoName
    · subst isEcho
      cases args with
      | nil => exact absurd command safe.argument
      | cons opt args => exact parsed.toTerminal_echo command
    · exact parsed.toTerminal_program command (not_or.mpr ⟨isCd, isEcho⟩) ignored

theorem toFile_iff {after : World} (terminal : setting.ToTerminal after) :
    setting.ToFile after ↔
      setting.written = [] ∧ setting.base = setting.content setting.world := by
  have same : setting.content after = setting.content setting.world := by
    rw [content, terminal.files]
    rfl
  constructor
  · intro file
    have none : setting.written = [] := by
      have unchanged := file.terminal
      rw [terminal.terminal] at unchanged
      exact List.append_right_eq_self.mp unchanged
    refine ⟨none, ?_⟩
    have content := file.content
    rw [none, List.append_nil] at content
    exact content.symm.trans same
  · rintro ⟨none, base⟩
    refine ⟨?_, ?_⟩
    · rw [none, List.append_nil, base]
      exact same
    · rw [terminal.terminal, none, List.append_nil]

/-- The redirection is honoured exactly if the line is safe, and a program runs in a child
and no redirection of the input is behind that of the output, or there is nothing to write
and the file has what it should have already. -/
theorem honoured_iff (setting : Setting) : setting.Honoured ↔ Safe setting.line.text ∧
    (setting.Redirected ∨
      setting.written = [] ∧ setting.base = setting.content setting.world) := by
  have defined : (∃ after, process setting.env setting.loaded = some after) ↔
      Safe setting.line.text := process_iff rfl setting.line.last.nulFree_text
  constructor
  · rintro ⟨after, ran, file⟩
    have safe := defined.mp ⟨after, ran⟩
    refine ⟨safe, ?_⟩
    by_cases redirected : setting.Redirected
    · exact Or.inl redirected
    · obtain ⟨after', ran', terminal⟩ := toTerminal_of_not_redirected safe redirected
      cases ran.symm.trans ran'
      exact Or.inr ((toFile_iff terminal).mp file)
  · rintro ⟨safe, redirected | same⟩
    · exact toFile_of_redirected safe redirected
    · by_cases redirected : setting.Redirected
      · exact toFile_of_redirected safe redirected
      · obtain ⟨after, ran, terminal⟩ := toTerminal_of_not_redirected safe redirected
        exact ⟨after, ran, (toFile_iff terminal).mpr same⟩

end Setting

def echoToFile : Setting where
  line := ⟨⟨ascii "echo a ", .output, ascii " ", ascii "f", by decide, fun _ => by decide,
    List.forall_mem_singleton.mpr rfl, by decide, fun _ first => Option.some.inj first ▸ rfl⟩,
    by decide, none⟩
  rest := []
  env := stale
  world := .fresh [] fun _ => none
  writable := rfl

/-- The line goes to the terminal. -/
theorem echoToFile_not_honoured : ¬ echoToFile.Honoured := by
  rintro ⟨after, ran, file⟩
  have shown : (process echoToFile.env echoToFile.loaded).map (·.terminal) =
      some [97, newline] := by decide
  rw [ran] at shown
  have same : after.terminal = [97, newline] := Option.some.inj shown
  rw [file.terminal] at same
  cases same

end LinuxSystemLearning.MyShell
