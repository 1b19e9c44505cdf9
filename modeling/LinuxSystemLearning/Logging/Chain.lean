import Mathlib.Logic.Function.Basic
import LinuxSystemLearning.Http.StaticFiles
import LinuxSystemLearning.Library.Interleaving

/-!
# The handlers of a log message

A message passes three handlers: one puts the time and the process id in front of it, one
appends it to the log file, one packs the log file away when it has more than
`defaultmaxline` lines.  An archive is named after the second in which it is made.
-/

set_option autoImplicit false

namespace LinuxSystemLearning.Logging

open LinuxSystemLearning.Cxx LinuxSystemLearning.Interleaving
open LinuxSystemLearning.HttpServer (intToString intToString_injective mem_intToString)

/-! ## The files -/

/-- What one write added to a file.  The number tells apart two writes of one text. -/
structure Record where
  number : Nat
  text : Bytes
deriving DecidableEq

abbrev Files := Bytes → Option (List Record)

def held (files : Files) (name : Bytes) : List Record := (files name).getD []

def contents (records : List Record) : Bytes := (records.map Record.text).flatten

/-- How many lines `std::getline` reads: the last one need not end in a line feed. -/
def lineCount : Bytes → Nat
  | [] => 0
  | byte :: rest => if byte = 10 ∨ rest = [] then lineCount rest + 1 else lineCount rest

def defaultfilepath : Bytes := ascii "./tmp/"
def defaultfilename : Bytes := ascii "test.log"
def defaultmaxline : Int := 5

def file : Bytes := defaultfilepath ++ defaultfilename
def backupFile (suffix : Bytes) : Bytes := file ++ ascii "." ++ suffix
def srcFile (suffix : Bytes) : Bytes := defaultfilename ++ ascii "." ++ suffix
def tarFile (suffix : Bytes) : Bytes := srcFile suffix ++ ascii ".tgz"

/-- `std::ofstream` in append mode makes the file if there is none. -/
def append (name : Bytes) (record : Record) (files : Files) : Files :=
  Function.update files name (some (held files name ++ [record]))

/-- A file of the new name is replaced. -/
def rename (old new : Bytes) (files : Files) : Files :=
  Function.update (Function.update files new (files old)) old none

def remove (name : Bytes) (files : Files) : Files := Function.update files name none

/-- `tar -czf archive member` in the directory of the log: an archive of that name is
written anew. -/
def tar (archive member : Bytes) (files : Files) : Files :=
  Function.update files (defaultfilepath ++ archive) (files (defaultfilepath ++ member))

/-! ## The handlers -/

/-- What ends the program in the middle of a call. -/
inductive Ending where
  | exited
  | undefinedBehaviour
deriving DecidableEq, Repr

structure World where
  files : Files
  /-- Everything that was ever appended to the log file. -/
  appended : List Record
  ended : Option Ending

/-- A call of `Run`: the text, what the system calls answer, and whether the log file
can be opened for writing and for reading. -/
structure Call where
  text : Bytes
  now : Int
  later : Int
  pid : Int
  opens : Bool
  reads : Bool

abbrev HandlerText := Bytes → World → World

def chainEnd : HandlerText := fun _ world => world

def formatResult (call : Call) (text : Bytes) : Bytes :=
  intToString call.now ++ ascii "-" ++ intToString call.pid ++ ascii "-" ++ text ++ [10]

def handlerTextFormat (enable : Bool) (call : Call) (next : HandlerText) : HandlerText :=
  fun text world => next (if enable then formatResult call text else text ++ [10]) world

def saved (text : Bytes) (world : World) : World :=
  let record := ⟨world.appended.length, text⟩
  { world with
    files := append file record world.files
    appended := world.appended ++ [record] }

def handlerTextSaveFile (enable : Bool) (call : Call) (next : HandlerText) : HandlerText :=
  fun text world =>
    if enable then
      if call.opens then next text (saved text world) else world
    else next text world

/-- `lines` is an `int` that counts up to the end of the file. -/
def isOutOfRange (call : Call) (files : Files) : Except Ending Bool :=
  match files file with
  | none => .error .exited
  | some records =>
      if call.reads then
        if intMax < lineCount (contents records) then .error .undefinedBehaviour
        else .ok (decide (defaultmaxline < lineCount (contents records)))
      else .error .exited

/-- `fork` makes the child, and the child and its `tar` succeed. -/
def backup (call : Call) (files : Files) : Files :=
  let suffix := intToString call.later
  remove (backupFile suffix)
    (tar (tarFile suffix) (srcFile suffix) (rename file (backupFile suffix) files))

def handlerTextBackup (enable : Bool) (call : Call) (next : HandlerText) : HandlerText :=
  fun text world =>
    if enable then
      match isOutOfRange call world.files with
      | .error ending => { world with ended := some ending }
      | .ok true => next text { world with files := backup call world.files }
      | .ok false => next text world
    else next text world

structure HandlerEntry where
  format : Bool
  save : Bool
  backup : Bool

def HandlerEntry.run (entry : HandlerEntry) (call : Call) (world : World) : World :=
  handlerTextFormat entry.format call
    (handlerTextSaveFile entry.save call (handlerTextBackup entry.backup call chainEnd))
    call.text world

/-- One call of `Run` after another, until one ends the program. -/
def step (entry : HandlerEntry) (world : World) (call : Call) : Option World :=
  if world.ended = none then some (entry.run call world) else none

def start : World where
  files := fun _ => none
  appended := []
  ended := none

def enableHandler (isformat issave isbackup : Bool) : HandlerEntry :=
  ⟨isformat, issave, isbackup⟩

/-! ## What the log is to keep -/

def archive (call : Call) : Bytes := defaultfilepath ++ tarFile (intToString call.later)

def LogOrArchive (name : Bytes) : Prop := name = file ∨ ∃ call, name = archive call

/-- Each record is in one file, the log or an archive, and a call that comes back leaves
a short log. -/
structure Kept (world : World) : Prop where
  defined : world.ended ≠ some .undefinedBehaviour
  once : ∀ record ∈ world.appended, ∃ name, LogOrArchive name ∧
    ∀ other, record ∈ held world.files other ↔ other = name
  short : world.ended = none →
    (lineCount (contents (held world.files file)) : Int) ≤ defaultmaxline

/-- What the call appends, with all three handlers on. -/
def recordOf (world : World) (call : Call) : Record :=
  ⟨world.appended.length, formatResult call call.text⟩

def linesWith (world : World) (call : Call) : Int :=
  lineCount (contents (held world.files file ++ [recordOf world call]))

/-- Where the call counts the lines, an `int` can hold their number, and where it packs
the log, nothing was packed in that second before. -/
def FreshSecond (world : World) (call : Call) : Prop :=
  call.opens = true → call.reads = true → linesWith world call ≤ intMax ∧
    (defaultmaxline < linesWith world call → world.files (archive call) = none)

instance (world : World) (call : Call) : Decidable (FreshSecond world call) :=
  inferInstanceAs (Decidable (call.opens = true → call.reads = true →
    linesWith world call ≤ intMax ∧
      (defaultmaxline < linesWith world call → world.files (archive call) = none)))

/-! ## Names -/

theorem archive_eq (call : Call) :
    archive call = file ++ ascii "." ++ intToString call.later ++ ascii ".tgz" := by
  simp only [archive, tarFile, srcFile, file, List.append_assoc]

theorem backupFile_eq (suffix : Bytes) :
    defaultfilepath ++ srcFile suffix = backupFile suffix := by
  simp only [srcFile, backupFile, file, List.append_assoc]

theorem archive_ne_file (call : Call) : archive call ≠ file := by
  intro same
  rw [archive_eq, List.append_assoc, List.append_assoc] at same
  exact absurd (List.append_right_eq_self.mp same) (by simp [ascii])

theorem backupFile_ne_file (suffix : Bytes) : backupFile suffix ≠ file := by
  intro same
  rw [backupFile, List.append_assoc] at same
  exact absurd (List.append_right_eq_self.mp same) (by simp [ascii])

/-- There is a `z` in the name of an archive only. -/
theorem archive_ne_backupFile (call : Call) (value : Int) :
    archive call ≠ backupFile (intToString value) := by
  intro same
  have packed : (122 : UInt8) ∈ backupFile (intToString value) := by
    rw [← same, archive_eq]
    exact List.mem_append_right _ (by decide)
  rcases List.mem_append.mp packed with front | back
  · exact absurd front (by decide)
  · rcases mem_intToString back with sign | digit
    · exact absurd sign (by decide)
    · exact absurd digit (by decide)

theorem not_logOrArchive_backupFile (value : Int) :
    ¬ LogOrArchive (backupFile (intToString value)) := by
  rintro (same | ⟨call, same⟩)
  · exact backupFile_ne_file _ same
  · exact archive_ne_backupFile call value same.symm

/-! ## What the two steps on the files leave -/

theorem held_append (files : Files) (name : Bytes) (record : Record) (other : Bytes) :
    held (append name record files) other =
      if other = name then held files name ++ [record] else held files other := by
  unfold append held
  rw [Function.update_apply]
  split
  · rfl
  · rfl

theorem backup_apply (call : Call) (files : Files) (name : Bytes) :
    backup call files name =
      if name = archive call then files file
      else if name = file ∨ name = backupFile (intToString call.later) then none
      else files name := by
  have apart := archive_ne_backupFile call call.later
  have copy := backupFile_ne_file (intToString call.later)
  have moved : rename file (backupFile (intToString call.later)) files
      (backupFile (intToString call.later)) = files file := by
    rw [rename, Function.update_of_ne copy, Function.update_self]
  unfold backup remove tar
  rw [backupFile_eq, moved]
  change Function.update (Function.update _ (archive call) _) _ _ name = _
  by_cases packed : name = archive call
  · rw [if_pos packed, packed, Function.update_of_ne apart, Function.update_self]
  · rw [if_neg packed]
    by_cases copied : name = backupFile (intToString call.later)
    · rw [if_pos (Or.inr copied), copied, Function.update_self]
    · rw [Function.update_of_ne copied, Function.update_of_ne packed, rename]
      by_cases log : name = file
      · rw [if_pos (Or.inl log), log, Function.update_self]
      · rw [if_neg (not_or.mpr ⟨log, copied⟩), Function.update_of_ne log,
          Function.update_of_ne copied]

theorem held_backup (call : Call) (files : Files) (name : Bytes) :
    held (backup call files) name =
      if name = archive call then held files file
      else if name = file ∨ name = backupFile (intToString call.later) then []
      else held files name := by
  unfold held
  rw [backup_apply]
  split
  · rfl
  · split
    · rfl
    · rfl

/-! ## The steps of a call -/

def logged (world : World) (call : Call) : World := saved (formatResult call call.text) world

theorem logged_files (world : World) (call : Call) :
    (logged world call).files = append file (recordOf world call) world.files :=
  rfl

theorem logged_file (world : World) (call : Call) :
    (logged world call).files file = some (held world.files file ++ [recordOf world call]) := by
  rw [logged_files, append, Function.update_self]

theorem logged_archive (world : World) (call other : Call) :
    (logged world call).files (archive other) = world.files (archive other) := by
  rw [logged_files, append, Function.update_of_ne (archive_ne_file other)]

theorem isOutOfRange_logged (world : World) (call : Call) :
    isOutOfRange call (logged world call).files =
      if call.reads then
        if intMax < linesWith world call then .error .undefinedBehaviour
        else .ok (decide (defaultmaxline < linesWith world call))
      else .error .exited := by
  rw [isOutOfRange, logged_file]
  rfl

theorem run_enabled (world : World) (call : Call) :
    (enableHandler true true true).run call world =
      if call.opens then
        match isOutOfRange call (logged world call).files with
        | .error ending => { logged world call with ended := some ending }
        | .ok true => { logged world call with files := backup call (logged world call).files }
        | .ok false => logged world call
      else world :=
  rfl

/-- What a call can do, with all three handlers on. -/
theorem step_cases {world after : World} {call : Call}
    (stepped : step (enableHandler true true true) world call = some after) :
    world.ended = none ∧
    ((call.opens = false ∧ after = world) ∨
      (call.reads = false ∧ after = { logged world call with ended := some .exited }) ∨
      (call.opens = true ∧ call.reads = true ∧ intMax < linesWith world call ∧
        after = { logged world call with ended := some .undefinedBehaviour }) ∨
      (linesWith world call ≤ defaultmaxline ∧ after = logged world call) ∨
      (call.opens = true ∧ call.reads = true ∧ linesWith world call ≤ intMax ∧
        defaultmaxline < linesWith world call ∧
        after = { logged world call with
          files := backup call (logged world call).files })) := by
  unfold step at stepped
  split at stepped
  · rename_i running
    refine ⟨running, ?_⟩
    rw [run_enabled, isOutOfRange_logged, Option.some.injEq] at stepped
    cases opens : call.opens with
    | false =>
        rw [if_neg (by simp [opens])] at stepped
        exact Or.inl ⟨rfl, stepped.symm⟩
    | true =>
        right
        rw [if_pos opens] at stepped
        cases reads : call.reads with
        | false =>
            rw [if_neg (by simp [reads])] at stepped
            exact Or.inl ⟨rfl, stepped.symm⟩
        | true =>
            right
            rw [if_pos reads] at stepped
            by_cases many : intMax < linesWith world call
            · rw [if_pos many] at stepped
              exact Or.inl ⟨rfl, rfl, many, stepped.symm⟩
            · right
              rw [if_neg many] at stepped
              by_cases long : defaultmaxline < linesWith world call
              · rw [decide_eq_true long] at stepped
                exact Or.inr ⟨rfl, rfl, Int.not_lt.mp many, long, stepped.symm⟩
              · rw [decide_eq_false long] at stepped
                exact Or.inl ⟨Int.not_lt.mp long, stepped.symm⟩
  · cases stepped

/-! ## Where a record is -/

def Sole (files : Files) (record : Record) (name : Bytes) : Prop :=
  ∀ other, record ∈ held files other ↔ other = name

theorem held_logged (world : World) (call : Call) (name : Bytes) :
    held (logged world call).files name =
      if name = file then held world.files file ++ [recordOf world call]
      else held world.files name :=
  held_append world.files file (recordOf world call) name

theorem Sole.logged {world : World} {record : Record} {name : Bytes}
    (sole : Sole world.files record name) {call : Call} (old : record ≠ recordOf world call) :
    Sole (logged world call).files record name := by
  intro other
  rw [held_logged, ← sole other]
  split
  · rename_i log
    rw [List.mem_append, List.mem_singleton, log]
    exact or_iff_left old
  · exact Iff.rfl

theorem sole_recordOf {world : World} {call : Call}
    (fresh : ∀ name, recordOf world call ∉ held world.files name) :
    Sole (logged world call).files (recordOf world call) file := by
  intro other
  rw [held_logged]
  split
  · rename_i log
    exact ⟨fun _ => log, fun _ => List.mem_append_right _ (List.mem_singleton_self _)⟩
  · rename_i elsewhere
    exact ⟨fun before => absurd before (fresh other), fun log => absurd log elsewhere⟩

theorem Sole.packed {files : Files} {record : Record} (sole : Sole files record file)
    (call : Call) : Sole (backup call files) record (archive call) := by
  intro other
  rw [held_backup]
  split
  · rename_i packed
    exact ⟨fun _ => packed, fun _ => (sole file).mpr rfl⟩
  · rename_i elsewhere
    split
    · exact ⟨fun inside => absurd inside List.not_mem_nil,
        fun packed => absurd packed elsewhere⟩
    · rename_i gone
      rw [sole other]
      exact ⟨fun same => absurd (Or.inl same) gone, fun packed => absurd packed elsewhere⟩

theorem Sole.stays {files : Files} {record : Record} {name : Bytes}
    (sole : Sole files record name) (good : LogOrArchive name) (log : name ≠ file) {call : Call}
    (unpacked : name ≠ archive call) : Sole (backup call files) record name := by
  have uncopied : name ≠ backupFile (intToString call.later) := by
    rintro rfl
    exact not_logOrArchive_backupFile _ good
  intro other
  rw [held_backup]
  split
  · rename_i packed
    rw [sole file, packed]
    exact ⟨fun same => absurd same.symm log, fun same => absurd same.symm unpacked⟩
  · split
    · rename_i gone
      constructor
      · intro inside
        cases inside
      · rintro rfl
        exact absurd gone (not_or.mpr ⟨log, uncopied⟩)
    · exact sole other

/-! ## What is kept -/

structure Filed (files : Files) (appended : List Record) : Prop where
  once : ∀ record ∈ appended, ∃ name, LogOrArchive name ∧
    ∀ other, record ∈ held files other ↔ other = name
  known : ∀ name, ∀ record ∈ held files name, record ∈ appended
  filled : ∀ call, files (archive call) ≠ none → held files (archive call) ≠ []
  numbered : ∀ record ∈ appended, record.number < appended.length

theorem Filed.append {world : World} (filed : Filed world.files world.appended)
    (call : Call) : Filed (logged world call).files (logged world call).appended := by
  have fresh : recordOf world call ∉ world.appended := by
    intro member
    exact Nat.lt_irrefl _ (filed.numbered _ member)
  refine ⟨?_, ?_, ?_, ?_⟩
  · intro record member
    rcases List.mem_append.mp member with earlier | new
    · obtain ⟨name, good, only⟩ := filed.once record earlier
      exact ⟨name, good, Sole.logged only (ne_of_mem_of_not_mem earlier fresh)⟩
    · obtain rfl := List.mem_singleton.mp new
      exact ⟨file, Or.inl rfl,
        sole_recordOf fun name inside => fresh (filed.known name _ inside)⟩
  · intro name record member
    rw [held_logged] at member
    split at member
    · rcases List.mem_append.mp member with before | new
      · exact List.mem_append_left _ (filed.known file record before)
      · exact List.mem_append_right _ new
    · exact List.mem_append_left _ (filed.known name record member)
  · intro other present
    rw [held_logged, if_neg (archive_ne_file other)]
    rw [logged_archive] at present
    exact filed.filled other present
  · intro record member
    have length : (logged world call).appended.length = world.appended.length + 1 :=
      List.length_append
    rcases List.mem_append.mp member with earlier | new
    · have before := filed.numbered record earlier
      omega
    · obtain rfl := List.mem_singleton.mp new
      exact length ▸ Nat.lt_succ_self _

/-- Packing the log under a new name moves its records into the archive. -/
theorem Filed.backup {files : Files} {appended : List Record} (filed : Filed files appended)
    {call : Call} (new : files (archive call) = none) (nonempty : held files file ≠ []) :
    Filed (Logging.backup call files) appended := by
  have empty : held files (archive call) = [] := by
    rw [held, new]
    rfl
  refine ⟨?_, ?_, ?_, filed.numbered⟩
  · intro record member
    obtain ⟨name, good, only⟩ := filed.once record member
    by_cases log : name = file
    · subst log
      exact ⟨archive call, Or.inr ⟨call, rfl⟩, Sole.packed only call⟩
    · have unpacked : name ≠ archive call := by
        intro same
        have inside := (only (archive call)).mpr same.symm
        rw [empty] at inside
        exact absurd inside List.not_mem_nil
      exact ⟨name, good, Sole.stays only good log unpacked⟩
  · intro name record member
    rw [held_backup] at member
    split at member
    · exact filed.known file record member
    · split at member
      · cases member
      · exact filed.known name record member
  · intro other present
    rw [backup_apply] at present
    rw [held_backup]
    split
    · exact nonempty
    · rename_i elsewhere
      rw [if_neg elsewhere] at present
      split
      · rename_i gone
        rw [if_pos gone] at present
        exact absurd rfl present
      · rename_i stays
        rw [if_neg stays] at present
        exact filed.filled other present

/-- Packing the log under a name that is taken loses what the archive held. -/
theorem Filed.lost {files : Files} {appended : List Record} (filed : Filed files appended)
    {call : Call} (taken : files (archive call) ≠ none) :
    ∃ record ∈ appended, ∀ name, record ∉ held (Logging.backup call files) name := by
  obtain ⟨record, inside⟩ := List.exists_mem_of_ne_nil _ (filed.filled call taken)
  have member := filed.known _ record inside
  obtain ⟨place, -, only⟩ := filed.once record member
  have here : archive call = place := (only _).mp inside
  refine ⟨record, member, ?_⟩
  intro name
  rw [held_backup]
  split
  · intro packed
    have log : file = place := (only file).mp packed
    exact archive_ne_file call (here.trans log.symm)
  · rename_i elsewhere
    split
    · exact List.not_mem_nil
    · intro stays
      have same : name = place := (only name).mp stays
      exact elsewhere (same.trans here.symm)

structure Inv (world : World) : Prop where
  filed : Filed world.files world.appended
  kept : Kept world

theorem inv_start : Inv start where
  filed :=
    ⟨fun _ member => absurd member List.not_mem_nil, fun _ _ member => member,
      fun _ present => absurd rfl present, fun _ member => absurd member List.not_mem_nil⟩
  kept := ⟨by decide, fun _ member => absurd member List.not_mem_nil, fun _ => by decide⟩

theorem Inv.step {world after : World} {call : Call} (inv : Inv world)
    (fresh : FreshSecond world call)
    (stepped : Logging.step (enableHandler true true true) world call = some after) :
    Inv after := by
  have filed := inv.filed.append call
  obtain ⟨running, moved⟩ := step_cases stepped
  have defined : (logged world call).ended ≠ some .undefinedBehaviour := inv.kept.defined
  rcases moved with ⟨-, rfl⟩ | ⟨-, rfl⟩ | ⟨opens, reads, many, -⟩ | ⟨short, rfl⟩ |
    ⟨opens, reads, -, long, rfl⟩
  · exact inv
  · refine ⟨filed, ?_, filed.once, ?_⟩
    · intro same
      cases same
    · intro back
      cases back
  · exact absurd (fresh opens reads).1 (Int.not_le.mpr many)
  · refine ⟨filed, defined, filed.once, ?_⟩
    intro _
    rw [held, logged_file]
    exact short
  · have new : (logged world call).files (archive call) = none := by
      rw [logged_archive]
      exact (fresh opens reads).2 long
    have nonempty : held (logged world call).files file ≠ [] := by
      rw [held, logged_file]
      exact List.append_ne_nil_of_right_ne_nil _ (List.cons_ne_nil _ _)
    have packed := filed.backup new nonempty
    refine ⟨packed, defined, packed.once, ?_⟩
    intro _
    rw [held_backup, if_neg (archive_ne_file call).symm, if_pos (Or.inl rfl)]
    decide

theorem Inv.not_kept {world after : World} {call : Call} (inv : Inv world)
    (stale : ¬ FreshSecond world call)
    (stepped : Logging.step (enableHandler true true true) world call = some after) :
    ¬ Kept after := by
  have filed := inv.filed.append call
  obtain ⟨-, moved⟩ := step_cases stepped
  rcases moved with ⟨closed, -⟩ | ⟨unread, -⟩ | ⟨-, -, -, rfl⟩ | ⟨short, -⟩ |
    ⟨-, -, counted, long, rfl⟩
  · exact absurd (fun opens => by rw [closed] at opens; cases opens) stale
  · exact absurd (fun _ reads => by rw [unread] at reads; cases reads) stale
  · exact fun kept => kept.defined rfl
  · have small : defaultmaxline ≤ intMax := by decide
    refine absurd (fun _ _ => ⟨Int.le_trans short small, ?_⟩) stale
    exact fun long => absurd long (Int.not_lt.mpr short)
  · intro kept
    have taken : (logged world call).files (archive call) ≠ none := by
      rw [logged_archive]
      exact fun free => stale fun _ _ => ⟨counted, fun _ => free⟩
    obtain ⟨record, member, nowhere⟩ := filed.lost taken
    obtain ⟨name, -, only⟩ := kept.once record member
    exact nowhere name ((only name).mpr rfl)

/-- The log loses nothing in a run exactly if no second sees it packed twice. -/
theorem kept_iff_fresh_second {calls : List Call} {last : World}
    (ran : play (step (enableHandler true true true)) start calls = some last) :
    Always (step (enableHandler true true true)) Kept start calls ↔
      Throughout (step (enableHandler true true true)) FreshSecond start calls :=
  always_iff_throughout Inv (fun _ inv => inv.kept)
    (fun _ _ _ inv fresh stepped => inv.step fresh stepped)
    (fun _ _ _ inv stale stepped => inv.not_kept stale stepped) inv_start ran

def runA : Call := ⟨ascii "a", 0, 0, 1, true, true⟩

/-- The sixth message packs the log and the twelfth packs it again: all within one second,
and the first six messages are gone. -/
theorem second_archive_loses_first :
    ¬ Always (step (enableHandler true true true)) Kept start (List.replicate 12 runA) := by
  have ran : (play (step (enableHandler true true true)) start
      (List.replicate 12 runA)).isSome := by decide
  obtain ⟨last, ran⟩ := Option.isSome_iff_exists.mp ran
  rw [always_iff_throughout Inv (fun _ inv => inv.kept)
    (fun _ _ _ inv fresh stepped => inv.step fresh stepped)
    (fun _ _ _ inv stale stepped => inv.not_kept stale stepped) inv_start ran]
  decide

/-- Twelve messages, the last six of them a second later. -/
theorem kept_over_two_seconds :
    Always (step (enableHandler true true true)) Kept start
      (List.replicate 6 runA ++ List.replicate 6 { runA with now := 1, later := 1 }) := by
  have ran : (play (step (enableHandler true true true)) start
      (List.replicate 6 runA ++ List.replicate 6 { runA with now := 1, later := 1 })).isSome := by
    decide
  obtain ⟨last, ran⟩ := Option.isSome_iff_exists.mp ran
  exact (kept_iff_fresh_second ran).mpr (by decide)

end LinuxSystemLearning.Logging
