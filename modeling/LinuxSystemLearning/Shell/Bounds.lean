import LinuxSystemLearning.Library.NullTerminated
import LinuxSystemLearning.Shell.Input

/-!
# The arrays of the shell

`g_env` has room for 98 entries of the environment, its own entry and the `NULL` behind it.
The command line stays inside its arrays if each text has a command in front of a bare `>`,
fewer than 128 words, and an argument for `echo`.
-/

set_option autoImplicit false

namespace LinuxSystemLearning.MyShell

open LinuxSystemLearning.Cxx
open LinuxSystemLearning.Interleaving

/-! ## The environment -/

variable {table : EnvTable} {environ entries : List Bytes} {envs : Nat}

theorem EnvTable.put_iff {i : Nat} {entry : Option Bytes} {after : EnvTable} :
    table.put i entry = some after ↔ i < maxEnvs ∧ after.slots = table.slots.set i entry := by
  unfold EnvTable.put
  by_cases inside : i < maxEnvs
  · rw [if_pos inside, Option.some.injEq]
    constructor
    · rintro rfl
      exact ⟨inside, rfl⟩
    · rintro ⟨-, slots⟩
      obtain ⟨slots', size⟩ := after
      cases slots
      rfl
  · rw [if_neg inside]
    exact ⟨nofun, fun both => absurd both.1 inside⟩

def Filled (table : EnvTable) (entries : List Bytes) : Prop :=
  entries.map some <+: table.slots

theorem Filled.slot (filled : Filled table entries) (inside : entries.length < maxEnvs) :
    ∃ old behind, table.slots = entries.map some ++ old :: behind := by
  obtain ⟨rest, whole⟩ := filled
  have size := congrArg List.length whole
  rw [List.length_append, List.length_map, table.size] at size
  obtain ⟨old, behind, rfl⟩ : ∃ old behind, rest = old :: behind :=
    List.exists_cons_of_length_pos (by omega)
  exact ⟨old, behind, whole.symm⟩

theorem exists_put {i : Nat} {entry : Option Bytes} (inside : i < maxEnvs) :
    ∃ after, table.put i entry = some after := ⟨_, if_pos inside⟩

theorem Filled.set {entry : Bytes} {after : EnvTable} (filled : Filled table entries)
    (put : table.put entries.length (some entry) = some after) :
    Filled after (entries ++ [entry]) := by
  obtain ⟨inside, slots⟩ := EnvTable.put_iff.mp put
  obtain ⟨old, behind, whole⟩ := filled.slot inside
  refine ⟨behind, ?_⟩
  rw [slots, whole, NullTerminated.set_behind, List.map_append, List.append_assoc]
  rfl

/-- The first loop stays inside the table exactly if there is room for the entries. -/
theorem copyEnviron_iff (filled : Filled table entries) {result : EnvTable × Nat}
    (bound : entries.length ≤ maxEnvs) :
    copyEnviron environ table entries.length = some result →
      (entries ++ environ).length ≤ maxEnvs ∧ result.2 = (entries ++ environ).length ∧
        Filled result.1 (entries ++ environ) := by
  induction environ generalizing table entries with
  | nil =>
      intro ran
      cases ran
      rw [List.append_nil]
      exact ⟨bound, rfl, filled⟩
  | cons entry environ ih =>
      intro ran
      obtain ⟨next, put, ran⟩ := Option.bind_eq_some_iff.mp ran
      have inside := (EnvTable.put_iff.mp put).1
      have length : (entries ++ [entry]).length = entries.length + 1 := List.length_append
      rw [← length] at ran
      have later := ih (filled.set put) (by rw [length]; exact inside) ran
      rw [List.append_assoc] at later
      exact later

theorem exists_copyEnviron (filled : Filled table entries)
    (room : (entries ++ environ).length ≤ maxEnvs) :
    ∃ after, copyEnviron environ table entries.length =
      some (after, (entries ++ environ).length) ∧ Filled after (entries ++ environ) := by
  induction environ generalizing table entries with
  | nil =>
      rw [List.append_nil]
      exact ⟨table, rfl, filled⟩
  | cons entry environ ih =>
      have inside : entries.length < maxEnvs := by
        rw [List.length_append, List.length_cons] at room
        omega
      obtain ⟨next, put⟩ : ∃ next, table.put entries.length (some entry) = some next :=
        exists_put inside
      have length : (entries ++ [entry]).length = entries.length + 1 := List.length_append
      have room' : (entries ++ [entry] ++ environ).length ≤ maxEnvs := by
        rw [List.append_assoc]
        exact room
      obtain ⟨after, ran, filled'⟩ := ih (filled.set put) room'
      rw [List.append_assoc, length] at ran
      rw [List.append_assoc] at filled'
      refine ⟨after, ?_, filled'⟩
      rw [copyEnviron, put]
      exact ran

theorem putenvLoop_entries (slots : List (Option Bytes)) :
    putenvLoop slots = NullTerminated.entries slots := by
  induction slots with
  | nil => rfl
  | cons slot slots ih =>
      cases slot with
      | none => rfl
      | some entry => rw [putenvLoop, NullTerminated.entries, ih]

theorem putenvLoop_filled {after : EnvTable} (filled : Filled table entries)
    (put : table.put entries.length none = some after) :
    putenvLoop after.slots = some entries := by
  obtain ⟨inside, slots⟩ := EnvTable.put_iff.mp put
  obtain ⟨old, behind, whole⟩ := filled.slot inside
  rw [slots, whole, NullTerminated.set_behind, putenvLoop_entries,
    NullTerminated.entries_terminated]

/-- `InitEnv` stays inside `g_env` exactly if two slots are left for its own entry and the
`NULL`, and then it exports what it was given and its own entry. -/
theorem initEnv_iff (environ : List Bytes) :
    (∃ environment, initEnv environ = some environment) ↔ environ.length + 2 ≤ maxEnvs := by
  have empty : Filled .zero [] := List.nil_prefix
  constructor
  · rintro ⟨environment, ran⟩
    obtain ⟨⟨table, envs⟩, copied, ran⟩ := Option.bind_eq_some_iff.mp ran
    obtain ⟨table', put, ran⟩ := Option.bind_eq_some_iff.mp ran
    obtain ⟨table'', last, ran⟩ := Option.bind_eq_some_iff.mp ran
    have count := (copyEnviron_iff empty (Nat.zero_le _) copied).2.1
    rw [List.nil_append] at count
    have inside := (EnvTable.put_iff.mp last).1
    simp only at count
    omega
  · intro room
    have start : (([] : List Bytes) ++ environ).length ≤ maxEnvs := by
      rw [List.nil_append]
      omega
    obtain ⟨table, copied, filled⟩ := exists_copyEnviron empty start
    rw [List.nil_append] at copied filled
    have copied' : copyEnviron environ .zero 0 = some (table, environ.length) := copied
    obtain ⟨table', put⟩ : ∃ next, table.put environ.length (some testEntry) = some next :=
      exists_put (by omega)
    have length : (environ ++ [testEntry]).length = environ.length + 1 := List.length_append
    obtain ⟨table'', last⟩ : ∃ next, table'.put (environ.length + 1) none = some next :=
      exists_put (by omega)
    have exported : putenvLoop table''.slots = some (environ ++ [testEntry]) := by
      rw [← length] at last
      exact putenvLoop_filled (filled.set put) last
    refine ⟨⟨table'', environ.length + 1, environ ++ [testEntry]⟩, ?_⟩
    rw [initEnv, copied']
    simp only [Option.bind_eq_bind, Option.bind_some, put, last, exported]

/-! ## The command line -/

variable {world : World} {env : Surroundings}

/-- What a round gets is safe: the text of a piece, or at the end of the input what the
array has in it. -/
def SafeRound (world : World) (env : Surroundings) : Prop :=
  if world.stdin = [] then 0 ∈ env.left ∧ Safe (cString env.left)
  else Skipped (pieceOf world.stdin) ∨ Safe (textOfPiece (pieceOf world.stdin))

theorem mainRound_iff (world : World) (env : Surroundings) :
    (∃ after, mainRound world env = some after) ↔ SafeRound world env := by
  by_cases none : world.stdin = []
  · rw [SafeRound, if_pos none, mainRound_end none]
    by_cases ends : 0 ∈ env.left
    · obtain ⟨rest, array, string⟩ := exists_string ends
      rw [string, Option.bind_some]
      rw [and_iff_right ends]
      exact process_iff array (nulFree_cString _)
    · rw [stringAt_endless ends]
      refine iff_of_false ?_ fun safe => ends safe.1
      rintro ⟨after, ⟨⟩⟩
  · rw [SafeRound, if_neg none]
    by_cases skipped : Skipped (pieceOf world.stdin)
    · have read : ∃ out, mainRound world env = some _ := mainRound_skipped none skipped
      obtain ⟨out, same⟩ := read
      exact iff_of_true ⟨_, same⟩ (Or.inl skipped)
    · have read : ∃ back, mainRound world env = process env _ := mainRound_piece none skipped
      obtain ⟨back, same⟩ := read
      rw [same, or_iff_right skipped]
      exact process_iff rfl (nulFree_textOfPiece _)

/-- The environment the shell is started with, its input, and what its rounds meet. -/
structure Launch where
  environ : List Bytes
  stdin : Bytes
  files : Bytes → Option Bytes
  envs : List Surroundings

def Contained (launch : Launch) : Prop :=
  ∃ environment last, initEnv launch.environ = some environment ∧
    play mainRound (.fresh launch.stdin launch.files) launch.envs = some last

/-- The shell stays inside its arrays exactly if the environment has 98 entries at most and
the text of each round is safe. -/
theorem contained_iff (launch : Launch) : Contained launch ↔
    launch.environ.length + 2 ≤ maxEnvs ∧
      Throughout mainRound SafeRound (.fresh launch.stdin launch.files) launch.envs := by
  rw [← initEnv_iff, ← exists_play_iff mainRound_iff]
  constructor
  · rintro ⟨environment, last, copied, ran⟩
    exact ⟨⟨environment, copied⟩, last, ran⟩
  · rintro ⟨⟨environment, copied⟩, last, ran⟩
    exact ⟨environment, last, copied, ran⟩

/-- A line without a word: `std::string` gets the `NULL` of `g_argv[0]`. -/
theorem enter_not_contained : ¬ Contained ⟨[], [newline], fun _ => none, [stale]⟩ := by
  rintro ⟨environment, last, -, ran⟩
  obtain ⟨after, stepped, -⟩ := play_cons.mp ran
  rcases (mainRound_iff _ stale).mp ⟨after, stepped⟩ with skipped | safe
  · exact absurd skipped (List.cons_ne_nil _ _)
  · exact safe.command rfl

end LinuxSystemLearning.MyShell
