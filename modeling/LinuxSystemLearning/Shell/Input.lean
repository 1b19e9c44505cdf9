import LinuxSystemLearning.Library.Lines
import LinuxSystemLearning.Shell.Main

/-!
# What the shell reads

`GetCommandLine` cuts the last character of what `fgets` returned, be it a newline or not.
At the end of the input it says that there is a line, and the loop goes on with what is in
the array.
-/

set_option autoImplicit false

namespace LinuxSystemLearning.MyShell

open LinuxSystemLearning.Cxx
open LinuxSystemLearning.Interleaving
open LinuxSystemLearning.Lines

/-! ## One call of `fgets` -/

def pieceOf (stream : Bytes) : Bytes := (fgetsPiece (commandSize - 1) stream).1

def restOf (stream : Bytes) : Bytes := (fgetsPiece (commandSize - 1) stream).2

/-- The text of a piece: what is in front of the first NUL, without its last character. -/
def textOfPiece (piece : Bytes) : Bytes := (cString piece).dropLast

def Skipped (piece : Bytes) : Prop := cString piece = []

instance (piece : Bytes) : Decidable (Skipped piece) :=
  inferInstanceAs (Decidable (cString piece = []))

def textIn (piece : Bytes) : List Bytes := if Skipped piece then [] else [textOfPiece piece]

variable {stream : Bytes}

theorem fgetsPiece_append (limit : Nat) (stream : Bytes) :
    (fgetsPiece limit stream).1 ++ (fgetsPiece limit stream).2 = stream := by
  induction limit generalizing stream with
  | zero => rfl
  | succ limit ih =>
      cases stream with
      | nil => rfl
      | cons byte stream =>
          rw [fgetsPiece]
          split
          · rfl
          · exact congrArg (byte :: ·) (ih stream)

theorem pieceOf_append (stream : Bytes) : pieceOf stream ++ restOf stream = stream :=
  fgetsPiece_append _ _

theorem pieceOf_ne_nil (nonempty : stream ≠ []) : pieceOf stream ≠ [] := by
  obtain ⟨byte, stream, rfl⟩ := List.exists_cons_of_ne_nil nonempty
  show (fgetsPiece (1022 + 1) (byte :: stream)).1 ≠ []
  rw [fgetsPiece]
  split
  · exact List.cons_ne_nil _ _
  · exact List.cons_ne_nil _ _

/-- A newline is the last character of a piece. -/
theorem fgetsPiece_newline (limit : Nat) (stream : Bytes) :
    newline ∉ (fgetsPiece limit stream).1 ∨
      ∃ line, (fgetsPiece limit stream).1 = line ++ [newline] ∧ newline ∉ line := by
  induction limit generalizing stream with
  | zero => exact Or.inl List.not_mem_nil
  | succ limit ih =>
      cases stream with
      | nil => exact Or.inl List.not_mem_nil
      | cons byte stream =>
          rw [fgetsPiece]
          by_cases ends : byte = newline
          · rw [if_pos ends, ends]
            exact Or.inr ⟨[], rfl, List.not_mem_nil⟩
          · rw [if_neg ends]
            have other : newline ≠ byte := fun same => ends same.symm
            rcases ih stream with none | ⟨line, whole, inside⟩
            · exact Or.inl (List.not_mem_cons_of_ne_of_not_mem other none)
            · exact Or.inr ⟨byte :: line, congrArg (byte :: ·) whole,
                List.not_mem_cons_of_ne_of_not_mem other inside⟩

theorem exists_cString (piece rest : Bytes) :
    ∃ more, piece ++ 0 :: rest = cString piece ++ 0 :: more := by
  have parts : cString piece ++ piece.dropWhile (· ≠ 0) = piece :=
    List.takeWhile_append_dropWhile
  cases behind : piece.dropWhile (· ≠ 0) with
  | nil =>
      rw [behind, List.append_nil] at parts
      exact ⟨rest, by rw [parts]⟩
  | cons byte tail =>
      have zero : byte = 0 := by
        have fails := List.head?_dropWhile_not (fun byte : UInt8 => decide (byte ≠ 0)) piece
        rw [behind] at fails
        simpa using fails
      refine ⟨tail ++ 0 :: rest, ?_⟩
      conv_lhs => rw [← parts, behind, zero]
      simp

theorem set_last {text : Bytes} (nonempty : text ≠ []) (more : Bytes) :
    (text ++ 0 :: more).set (text.length - 1) 0 = text.dropLast ++ 0 :: 0 :: more := by
  obtain ⟨front, last, rfl⟩ := List.eq_nil_or_concat text |>.resolve_left nonempty
  simp

variable {world after : World} {env : Surroundings}

theorem fgets_eq (more : stream ≠ []) (array : Bytes) : fgets commandSize array stream =
    some (pieceOf stream ++ 0 :: array.drop ((pieceOf stream).length + 1), restOf stream) :=
  if_neg more

theorem fgets_string (more : stream ≠ []) (array : Bytes) : ∃ back,
    fgets commandSize array stream = some (cString (pieceOf stream) ++ 0 :: back, restOf stream) ∧
      strlen (cString (pieceOf stream) ++ 0 :: back) = some (cString (pieceOf stream)).length := by
  obtain ⟨back, same⟩ :=
    exists_cString (pieceOf stream) (array.drop ((pieceOf stream).length + 1))
  refine ⟨back, ?_, strlen_text (nulFree_cString _) back⟩
  rw [fgets_eq more, same]

/-- The last character of the piece is overwritten. -/
theorem getCommandLine_piece (more : world.stdin ≠ [])
    (taken : ¬ Skipped (pieceOf world.stdin)) :
    ∃ back, getCommandLine world = some (true,
      { world.load (textOfPiece (pieceOf world.stdin) ++ 0 :: back) with
        stdin := restOf world.stdin }) := by
  obtain ⟨back, read, length⟩ := fgets_string more world.shell.commandline
  have positive := List.length_pos_of_ne_nil taken
  have nonzero : ¬ (cString (pieceOf world.stdin)).length = 0 := Nat.ne_of_gt positive
  refine ⟨0 :: back, ?_⟩
  simp only [getCommandLine, read, length, Option.bind_eq_bind, Option.bind_some, if_neg nonzero,
    set_last taken, textOfPiece]

theorem getCommandLine_skipped (more : world.stdin ≠ []) (skipped : Skipped (pieceOf world.stdin)) :
    ∃ out, getCommandLine world =
      some (false, { world.load out with stdin := restOf world.stdin }) := by
  obtain ⟨back, read, length⟩ := fgets_string more world.shell.commandline
  have zero : (cString (pieceOf world.stdin)).length = 0 := by
    rw [show cString (pieceOf world.stdin) = [] from skipped]
    rfl
  refine ⟨cString (pieceOf world.stdin) ++ 0 :: back, ?_⟩
  simp only [getCommandLine, read, length, Option.bind_eq_bind, Option.bind_some, if_pos zero]

/-- The array stays as it is, and there is a line nevertheless. -/
theorem getCommandLine_end (none : world.stdin = []) :
    getCommandLine world = some (true, world) := by
  rw [getCommandLine, fgets, if_pos none]

/-! ## One round -/

theorem nulFree_textOfPiece (piece : Bytes) : 0 ∉ textOfPiece piece := fun member =>
  nulFree_cString piece (List.mem_of_mem_dropLast member)

theorem mainRound_end (none : world.stdin = []) : mainRound world env =
    (stringAt env.left 0).bind fun text =>
      process env { world.load env.left with processed := world.processed ++ [text] } := by
  have loaded : (world.load env.left).stdin = [] := none
  rw [mainRound, getCommandLine_end loaded, Option.bind_eq_bind, Option.bind_some]
  rfl

theorem mainRound_piece (more : world.stdin ≠ []) (taken : ¬ Skipped (pieceOf world.stdin)) :
    ∃ back, mainRound world env = process env
      { world.load (textOfPiece (pieceOf world.stdin) ++ 0 :: back) with
        stdin := restOf world.stdin
        processed := world.processed ++ [textOfPiece (pieceOf world.stdin)] } := by
  have loaded : (world.load env.left).stdin ≠ [] := more
  obtain ⟨back, read⟩ := getCommandLine_piece loaded taken
  have string : stringAt (textOfPiece (pieceOf world.stdin) ++ 0 :: back) 0 =
      some (textOfPiece (pieceOf world.stdin)) :=
    stringAt_append (nulFree_textOfPiece _) [] back
  refine ⟨back, ?_⟩
  rw [mainRound, read, Option.bind_eq_bind, Option.bind_some]
  show (stringAt (textOfPiece (pieceOf world.stdin) ++ 0 :: back) 0).bind _ = _
  rw [string, Option.bind_some]
  rfl

theorem mainRound_skipped (more : world.stdin ≠ []) (skipped : Skipped (pieceOf world.stdin)) :
    ∃ out, mainRound world env =
      some { world.load out with stdin := restOf world.stdin } := by
  have loaded : (world.load env.left).stdin ≠ [] := more
  obtain ⟨out, read⟩ := getCommandLine_skipped loaded skipped
  refine ⟨out, ?_⟩
  rw [mainRound, read, Option.bind_eq_bind, Option.bind_some]
  rfl

structure Unread (env : Surroundings) (world after : World) : Prop where
  processed : after.processed = world.processed
  stdin : env.Quiet → after.stdin = world.stdin

theorem unread_cd (ran : cd env world = some after) : Unread env world after := by
  unfold cd at ran
  split at ran
  · dsimp only at ran
    split at ran
    · cases ran
      exact ⟨rfl, fun _ => rfl⟩
    · cases ran
      exact ⟨rfl, fun _ => rfl⟩
  · obtain ⟨dir, -, ran⟩ := Option.bind_eq_some_iff.mp ran
    cases ran
    exact ⟨rfl, fun _ => rfl⟩

theorem unread_echo (ran : echo env world = some after) : Unread env world after := by
  obtain ⟨opt, -, ran⟩ := Option.bind_eq_some_iff.mp ran
  split at ran
  · cases ran
    exact ⟨rfl, fun _ => rfl⟩
  · split at ran
    · split at ran
      · cases ran
        exact ⟨rfl, fun _ => rfl⟩
      · cases ran
        exact ⟨rfl, fun _ => rfl⟩
    · cases ran
      exact ⟨rfl, fun _ => rfl⟩

theorem execOnTerminal_left (argv : List Bytes) :
    (execOnTerminal env argv world).processed = world.processed ∧
      (execOnTerminal env argv world).stdin = world.stdin := by
  unfold execOnTerminal
  split
  · exact ⟨rfl, rfl⟩
  · exact ⟨rfl, rfl⟩

theorem execOnFile_left (flags : Files.OpenFlags) (failure : Nat) (argv : List Bytes) :
    (execOnFile env flags failure argv world).processed = world.processed ∧
      (execOnFile env flags failure argv world).stdin = world.stdin := by
  unfold execOnFile
  dsimp only
  split
  · split
    · exact ⟨rfl, rfl⟩
    · exact ⟨rfl, rfl⟩
  · exact ⟨rfl, rfl⟩

theorem excute_left (ran : excute env world = some after) :
    after.processed = world.processed ∧
      after.stdin = if env.forks then env.leaves world.stdin else world.stdin := by
  obtain ⟨argv, -, ran⟩ := Option.bind_eq_some_iff.mp ran
  by_cases forks : env.forks = true
  · rw [if_pos forks] at ran ⊢
    dsimp only at ran
    split at ran
    · cases ran
      exact execOnTerminal_left argv
    · split at ran
      · cases ran
        exact execOnTerminal_left argv
      · cases ran
        exact ⟨rfl, rfl⟩
    · cases ran
      exact execOnFile_left truncFlags 2 argv
    · cases ran
      exact execOnFile_left appendFlags 3 argv
  · rw [if_neg forks] at ran ⊢
    cases ran
    exact ⟨rfl, rfl⟩

theorem unread_excute (ran : excute env world = some after) : Unread env world after := by
  obtain ⟨processed, stdin⟩ := excute_left ran
  refine ⟨processed, fun quiet => ?_⟩
  rw [stdin, quiet, ite_self]

theorem Unread.trans {middle : World} (one : Unread env world middle)
    (two : Unread env middle after) : Unread env world after :=
  ⟨two.processed.trans one.processed, fun quiet => (two.stdin quiet).trans (one.stdin quiet)⟩

theorem unread_runCommand (ran : runCommand env world = some after) :
    Unread env world after := by
  obtain ⟨⟨done, middle⟩, checked, ran⟩ := Option.bind_eq_some_iff.mp ran
  have first : Unread env world middle := by
    obtain ⟨cmd, -, checked⟩ := Option.bind_eq_some_iff.mp checked
    split at checked
    · obtain ⟨last, called, same⟩ := Option.bind_eq_some_iff.mp checked
      cases same
      exact unread_cd called
    · split at checked
      · obtain ⟨last, called, same⟩ := Option.bind_eq_some_iff.mp checked
        cases same
        exact unread_echo called
      · cases checked
        exact ⟨rfl, fun _ => rfl⟩
  cases done with
  | true =>
      cases ran
      exact first
  | false => exact first.trans (unread_excute ran)

theorem unread_process (ran : process env world = some after) : Unread env world after := by
  obtain ⟨checked, -, ran⟩ := Option.bind_eq_some_iff.mp ran
  obtain ⟨⟨any, shell⟩, -, ran⟩ := Option.bind_eq_some_iff.mp ran
  cases any with
  | true =>
      have last := unread_runCommand ran
      exact ⟨last.processed, last.stdin⟩
  | false =>
      cases ran
      exact ⟨rfl, fun _ => rfl⟩

/-! ## All rounds -/

/-- What a round does with the input: it processes what is in the array, or takes a piece.
Behind a piece that is passed over there is no child. -/
theorem mainRound_cases (ran : mainRound world env = some after) :
    (world.stdin = [] ∧ (env.Quiet → after.stdin = []) ∧
        ∃ text, after.processed = world.processed ++ [text]) ∨
      (world.stdin ≠ [] ∧
        (Skipped (pieceOf world.stdin) ∨ env.Quiet → after.stdin = restOf world.stdin) ∧
        after.processed = world.processed ++ textIn (pieceOf world.stdin)) := by
  by_cases none : world.stdin = []
  · rw [mainRound_end none] at ran
    obtain ⟨text, -, ran⟩ := Option.bind_eq_some_iff.mp ran
    have kept := unread_process ran
    exact Or.inl ⟨none, fun quiet => (kept.stdin quiet).trans none, text, kept.processed⟩
  · by_cases skipped : Skipped (pieceOf world.stdin)
    · have read : ∃ out, mainRound world env =
          some { world.load out with stdin := restOf world.stdin } :=
        mainRound_skipped none skipped
      obtain ⟨out, same⟩ := read
      cases same.symm.trans ran
      rw [textIn, if_pos skipped, List.append_nil]
      exact Or.inr ⟨none, fun _ => rfl, rfl⟩
    · have read : ∃ back, mainRound world env = process env _ :=
        mainRound_piece none skipped
      obtain ⟨back, same⟩ := read
      rw [same] at ran
      have kept := unread_process ran
      rw [textIn, if_neg skipped]
      exact Or.inr ⟨none, fun leaves => kept.stdin (leaves.resolve_left skipped), kept.processed⟩

theorem length_restOf (more : stream ≠ []) : (restOf stream).length < stream.length := by
  have whole := congrArg List.length (pieceOf_append stream)
  have positive := List.length_pos_of_ne_nil (pieceOf_ne_nil more)
  rw [List.length_append] at whole
  omega

theorem processed_grows (ran : mainRound world env = some after) :
    world.processed.length ≤ after.processed.length := by
  rcases mainRound_cases ran with ⟨-, -, text, processed⟩ | ⟨-, -, processed⟩
  · rw [processed, List.length_append]
    exact Nat.le_add_right _ _
  · rw [processed, List.length_append]
    exact Nat.le_add_right _ _

/-- A round that processes nothing takes something from the input. -/
theorem mainRound_idle (ran : mainRound world env = some after)
    (idle : after.processed.length ≤ world.processed.length) :
    after.stdin.length < world.stdin.length := by
  rcases mainRound_cases ran with ⟨-, -, text, processed⟩ | ⟨more, rest, processed⟩
  · rw [processed, List.length_append, List.length_singleton] at idle
    omega
  · by_cases skipped : Skipped (pieceOf world.stdin)
    · rw [rest (Or.inl skipped)]
      exact length_restOf more
    · rw [processed, textIn, if_neg skipped, List.length_append, List.length_singleton] at idle
      omega

theorem play_grows {envs : List Surroundings} (ran : play mainRound world envs = some after) :
    world.processed.length ≤ after.processed.length := by
  induction envs generalizing world with
  | nil =>
      cases ran
      exact Nat.le_refl _
  | cons env envs ih =>
      obtain ⟨middle, stepped, ran⟩ := play_cons.mp ran
      exact (processed_grows stepped).trans (ih ran)

/-- There are no more rounds that process nothing than there is input. -/
theorem play_idle {envs : List Surroundings} (ran : play mainRound world envs = some after)
    (idle : after.processed.length ≤ world.processed.length) :
    after.stdin.length + envs.length ≤ world.stdin.length := by
  induction envs generalizing world with
  | nil =>
      cases ran
      exact Nat.le_refl _
  | cons env envs ih =>
      obtain ⟨middle, stepped, ran⟩ := play_cons.mp ran
      have first := mainRound_idle stepped ((play_grows ran).trans idle)
      have later := ih ran (idle.trans (processed_grows stepped))
      rw [List.length_cons]
      omega

/-- The lines of the input, and nothing behind them. -/
def ExecutesInput (stdin : Bytes) (files : Bytes → Option Bytes) (envs : Nat → Surroundings) :
    Prop :=
  ∃ enough, ∀ rounds ≥ enough, ∃ after,
    play mainRound (.fresh stdin files) ((List.range rounds).map envs) = some after ∧
      after.processed = lines newline stdin

/-- The loop never comes to an end, and each round behind the end of the input processes
what is in the array. -/
theorem never_executesInput (stdin : Bytes) (files : Bytes → Option Bytes)
    (envs : Nat → Surroundings) : ¬ ExecutesInput stdin files envs := by
  rintro ⟨enough, exact_from⟩
  obtain ⟨middle, ran, processed⟩ := exact_from enough (Nat.le_refl enough)
  obtain ⟨after, all, processed'⟩ :=
    exact_from (enough + (middle.stdin.length + 1)) (Nat.le_add_right _ _)
  rw [List.range_add, List.map_append] at all
  obtain ⟨middle', ran', all⟩ := play_append.mp all
  cases ran.symm.trans ran'
  have same : after.processed.length ≤ middle.processed.length := by
    rw [processed, processed']
  have bound := play_idle all same
  simp only [List.length_map, List.length_range] at bound
  omega

def stale : Surroundings where
  left := cdName ++ List.replicate (commandSize - cdName.length) 0
  size := by
    rw [List.length_append, List.length_replicate]
    rfl
  getenv := fun _ => none
  opens := fun _ => true
  forks := true
  program := fun _ => none
  leaves := id

/-- Without any input something is processed. -/
theorem stale_processed : ¬ ExecutesInput [] (fun _ => none) fun _ => stale := by
  rintro ⟨enough, exact_from⟩
  obtain ⟨after, ran, processed⟩ := exact_from (enough + 1) (Nat.le_succ enough)
  have nothing : after.processed.length ≤ (World.fresh [] fun _ => none).processed.length := by
    rw [processed]
    exact Nat.le_refl 0
  have bound := play_idle ran nothing
  rw [List.length_map, List.length_range] at bound
  exact absurd bound (Nat.not_succ_le_zero _)

/-! ## Up to the end of the input -/

/-- The pieces in which `bound` calls of `fgets` read the input. -/
def pieces : Nat → Bytes → List Bytes
  | 0, _ => []
  | bound + 1, stream =>
      if stream = [] then [] else pieceOf stream :: pieces bound (restOf stream)

def piecesOf (stream : Bytes) : List Bytes := pieces stream.length stream

def textsOf (parts : List Bytes) : List Bytes := parts.flatMap textIn

/-- The piece ends in its newline, and has no NUL. -/
def Whole (piece : Bytes) : Prop := piece.getLast? = some newline ∧ 0 ∉ piece

theorem pieces_nil (bound : Nat) : pieces bound [] = [] := by
  cases bound with
  | zero => rfl
  | succ bound => exact if_pos rfl

theorem pieces_more {bound : Nat} (more : stream ≠ []) :
    pieces (bound + 1) stream = pieceOf stream :: pieces bound (restOf stream) := if_neg more

/-- As many rounds as there are pieces process their texts, if no child touches the input. -/
theorem play_pieces {bound : Nat} {envs : List Surroundings} (enough : world.stdin.length ≤ bound)
    (quiet : ∀ env ∈ envs, env.Quiet) (count : envs.length = (pieces bound world.stdin).length)
    (ran : play mainRound world envs = some after) :
    after.stdin = [] ∧
      after.processed = world.processed ++ textsOf (pieces bound world.stdin) := by
  induction bound generalizing world envs with
  | zero =>
      cases List.eq_nil_of_length_eq_zero count
      cases ran
      have none := List.eq_nil_of_length_eq_zero (Nat.le_zero.mp enough)
      exact ⟨none, (List.append_nil _).symm⟩
  | succ bound ih =>
      by_cases none : world.stdin = []
      · rw [none, pieces_nil] at count ⊢
        cases List.eq_nil_of_length_eq_zero count
        cases ran
        exact ⟨none, (List.append_nil _).symm⟩
      · rw [pieces_more none] at count ⊢
        cases envs with
        | nil => cases count
        | cons env envs =>
            obtain ⟨middle, stepped, ran⟩ := play_cons.mp ran
            obtain ⟨first, quiet⟩ := List.forall_mem_cons.mp quiet
            rcases mainRound_cases stepped with ⟨none', -⟩ | ⟨-, rest, processed⟩
            · exact absurd none' none
            · have rest : middle.stdin = restOf world.stdin := rest (Or.inr first)
              have shorter := length_restOf none
              have enough' : middle.stdin.length ≤ bound := by
                rw [rest]
                omega
              have count' : envs.length = (pieces bound middle.stdin).length := by
                rw [rest]
                exact Nat.succ.inj count
              obtain ⟨ended, later⟩ := ih enough' quiet count' ran
              refine ⟨ended, ?_⟩
              rw [later, processed, rest, textsOf, textsOf, List.flatMap_cons, List.append_assoc]

theorem Whole.line (whole : Whole (pieceOf stream)) : ∃ line, stream =
    line ++ newline :: restOf stream ∧ newline ∉ line ∧ textOfPiece (pieceOf stream) = line ∧
      ¬ Skipped (pieceOf stream) := by
  obtain ⟨ends, nulFree⟩ := whole
  have string : cString (pieceOf stream) = pieceOf stream := by
    rw [cString, List.takeWhile_eq_self_iff]
    exact fun byte member => decide_eq_true fun zero => nulFree (zero ▸ member)
  have stands := pieceOf_append stream
  rcases fgetsPiece_newline (commandSize - 1) stream with none | ⟨line, piece, inside⟩
  · exact absurd (List.mem_of_getLast? ends) none
  · have same : pieceOf stream = line ++ [newline] := piece
    refine ⟨line, ?_, inside, ?_, ?_⟩
    · rw [same, List.append_assoc] at stands
      exact stands.symm
    · rw [textOfPiece, string, same, List.dropLast_concat]
    · rw [Skipped, string, same]
      simp

theorem textsOf_whole {bound : Nat} (enough : stream.length ≤ bound)
    (whole : ∀ piece ∈ pieces bound stream, Whole piece) :
    textsOf (pieces bound stream) = lines newline stream := by
  induction bound generalizing stream with
  | zero =>
      rw [List.eq_nil_of_length_eq_zero (Nat.le_zero.mp enough)]
      rfl
  | succ bound ih =>
      by_cases none : stream = []
      · rw [none]
        rfl
      · rw [pieces_more none] at whole ⊢
        obtain ⟨first, later⟩ := List.forall_mem_cons.mp whole
        obtain ⟨line, stands, inside, text, taken⟩ := first.line
        have shorter := length_restOf none
        have rest := ih (by omega) later
        rw [textsOf, List.flatMap_cons, textIn, if_neg taken, text]
        conv_rhs => rw [stands, lines_append_mark inside]
        exact congrArg (line :: ·) rest

theorem length_textIn (piece : Bytes) :
    (textIn piece).flatten.length = (cString piece).length - 1 := by
  unfold textIn
  split
  · rename_i skipped
    rw [show cString piece = [] from skipped]
    rfl
  · rw [List.flatten_singleton, textOfPiece, List.length_dropLast]

/-- A newline and a character that is cut are no part of the text, and if they are the same
the piece is whole. -/
theorem length_textIn_le (nonempty : stream ≠ []) :
    (textIn (pieceOf stream)).flatten.length + (pieceOf stream).count newline ≤
        (pieceOf stream).length ∧
      ((textIn (pieceOf stream)).flatten.length + (pieceOf stream).count newline =
        (pieceOf stream).length → Whole (pieceOf stream)) := by
  have front : cString (pieceOf stream) <+: pieceOf stream := List.takeWhile_prefix _
  have bound := front.length_le
  have positive := List.length_pos_of_ne_nil (pieceOf_ne_nil nonempty)
  rw [length_textIn]
  rcases fgetsPiece_newline (commandSize - 1) stream with none | ⟨line, piece, inside⟩
  · have zero : (pieceOf stream).count newline = 0 := List.count_eq_zero.mpr none
    rw [zero]
    exact ⟨by omega, fun same => by omega⟩
  · have split : pieceOf stream = line ++ [newline] := piece
    have one : (pieceOf stream).count newline = 1 := by
      rw [split, List.count_append, List.count_eq_zero.mpr inside]
      rfl
    rw [one]
    refine ⟨by omega, ?_⟩
    intro same
    have last : (pieceOf stream).getLast? = some newline := by
      rw [split, List.getLast?_concat]
    refine ⟨last, ?_⟩
    by_cases skipped : cString (pieceOf stream) = []
    · rw [skipped, List.length_nil] at same
      have short : line = [] := by
        rw [split, List.length_append, List.length_singleton] at same
        exact List.eq_nil_of_length_eq_zero (by omega)
      rw [split, short]
      decide
    · have some_byte := List.length_pos_of_ne_nil skipped
      have whole : cString (pieceOf stream) = pieceOf stream := front.eq_of_length (by omega)
      exact whole ▸ nulFree_cString (pieceOf stream)

theorem whole_of_lengths {bound : Nat} (enough : stream.length ≤ bound) :
    (textsOf (pieces bound stream)).flatten.length + stream.count newline ≤ stream.length ∧
      ((textsOf (pieces bound stream)).flatten.length + stream.count newline = stream.length →
        ∀ piece ∈ pieces bound stream, Whole piece) := by
  induction bound generalizing stream with
  | zero =>
      rw [List.eq_nil_of_length_eq_zero (Nat.le_zero.mp enough)]
      exact ⟨Nat.le_refl _, fun _ => nofun⟩
  | succ bound ih =>
      by_cases none : stream = []
      · rw [none]
        exact ⟨Nat.le_refl _, fun _ => nofun⟩
      · have shorter := length_restOf none
        obtain ⟨least, rest⟩ := ih (show (restOf stream).length ≤ bound by omega)
        obtain ⟨most, first⟩ := length_textIn_le none
        have length := congrArg List.length (pieceOf_append stream)
        have count := congrArg (List.count newline) (pieceOf_append stream)
        rw [List.length_append] at length
        rw [List.count_append] at count
        have texts : (textsOf (pieces (bound + 1) stream)).flatten.length =
            (textIn (pieceOf stream)).flatten.length +
              (textsOf (pieces bound (restOf stream))).flatten.length := by
          rw [pieces_more none, textsOf, List.flatMap_cons, List.flatten_append,
            List.length_append]
          rfl
        rw [texts]
        refine ⟨by omega, ?_⟩
        intro same
        rw [pieces_more none, List.forall_mem_cons]
        exact ⟨first (by omega), rest (by omega)⟩

/-- Up to the end of an input that no child touches the lines are processed exactly if each
of them came in one piece with its newline, and has no NUL. -/
theorem processed_before_end {stdin : Bytes} {files : Bytes → Option Bytes}
    {envs : List Surroundings} (quiet : ∀ env ∈ envs, env.Quiet)
    (count : envs.length = (piecesOf stdin).length)
    (ran : play mainRound (.fresh stdin files) envs = some after) :
    after.processed = lines newline stdin ↔ ∀ piece ∈ piecesOf stdin, Whole piece := by
  have start : (World.fresh stdin files).stdin.length ≤ stdin.length := Nat.le_refl _
  obtain ⟨-, processed⟩ := play_pieces start quiet count ran
  have texts : after.processed = textsOf (piecesOf stdin) := processed
  rw [texts]
  constructor
  · intro same
    have length := length_flatten_lines newline stdin
    rw [← same] at length
    exact (whole_of_lengths (Nat.le_refl _)).2 length
  · exact textsOf_whole (Nat.le_refl _)

end LinuxSystemLearning.MyShell
