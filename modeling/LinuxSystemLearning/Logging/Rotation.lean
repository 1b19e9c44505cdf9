import Mathlib.Data.List.Forall2
import LinuxSystemLearning.Library.Lines
import LinuxSystemLearning.Logging.Chain

/-!
# The archives read back

A line of the log is the time, the process id and the message with dashes between them.  The
log is packed as soon as it has one line more than `defaultmaxline`, so the archives are of
one size, and what they hold followed by the log are all messages in their order.
-/

set_option autoImplicit false

namespace LinuxSystemLearning.Logging

open LinuxSystemLearning.Cxx LinuxSystemLearning.Lines
open LinuxSystemLearning.HttpServer (intToString mem_intToString minus_mem_intToString)

/-! ## Reading a log -/

def behindDash (line : Bytes) : Bytes := (line.dropWhile (· ≠ 45)).drop 1

/-- The message of a line: what is behind the time and the process id. -/
def messageOfLine (line : Bytes) : Bytes := behindDash (behindDash line)

def readMessages (log : Bytes) : List Bytes := (lines 10 log).map messageOfLine

/-- What `time` and `getpid` give, and a message on one line. -/
structure Plain (call : Call) (message : Bytes) : Prop where
  now : 0 ≤ call.now
  pid : 0 ≤ call.pid
  oneLine : 10 ∉ message

/-- The record is what a call made of the message. -/
def Written (record : Record) (message : Bytes) : Prop :=
  ∃ call, Plain call message ∧ record.text = formatResult call message

abbrev Holds (files : Files) (name : Bytes) (messages : List Bytes) : Prop :=
  List.Forall₂ Written (held files name) messages

/-- The archives by their names with the messages in them, and the messages in the log. -/
structure Rotated (files : Files) (archives : List (Bytes × List Bytes))
    (recent : List Bytes) : Prop where
  log : Holds files file recent
  short : (recent.length : Int) ≤ defaultmaxline
  apart : (archives.map Prod.fst).Nodup
  named : ∀ entry ∈ archives, ∃ call, entry.1 = archive call
  packed : ∀ entry ∈ archives, Holds files entry.1 entry.2
  size : ∀ entry ∈ archives, (entry.2.length : Int) = defaultmaxline + 1
  known : ∀ call, files (archive call) ≠ none → archive call ∈ archives.map Prod.fst

def allMessages (archives : List (Bytes × List Bytes)) (recent : List Bytes) : List Bytes :=
  (archives.map Prod.snd).flatten ++ recent

variable {call : Call} {message : Bytes} {messages : List Bytes} {records : List Record}

/-! ## One line -/

theorem behindDash_digits {value : Int} (nonneg : 0 ≤ value) (rest : Bytes) :
    behindDash (intToString value ++ 45 :: rest) = rest := by
  have digits : ∀ byte ∈ intToString value, (decide (byte ≠ 45)) = true := by
    intro byte member
    rw [decide_eq_true_eq]
    rintro rfl
    exact absurd (minus_mem_intToString.mp member) (Int.not_lt.mpr nonneg)
  rw [behindDash, List.dropWhile_append_of_pos digits, List.dropWhile_cons_of_neg (by decide)]
  rfl

theorem lineFeed_not_mem_intToString (value : Int) : 10 ∉ intToString value := by
  intro member
  rcases mem_intToString member with sign | digit
  · exact absurd sign (by decide)
  · exact absurd digit (by decide)

/-- A call writes one line, and its message can be told from it. -/
theorem Plain.line (plain : Plain call message) :
    ∃ line, formatResult call message = line ++ [10] ∧ 10 ∉ line ∧
      messageOfLine line = message := by
  refine ⟨intToString call.now ++ 45 :: (intToString call.pid ++ 45 :: message), ?_, ?_, ?_⟩
  · have dash : ascii "-" = [45] := by decide
    simp [formatResult, dash]
  · simp [lineFeed_not_mem_intToString, plain.oneLine]
  · rw [messageOfLine, behindDash_digits plain.now, behindDash_digits plain.pid]

theorem lineCount_append_lineFeed {line : Bytes} (whole : 10 ∉ line) (rest : Bytes) :
    lineCount (line ++ 10 :: rest) = lineCount rest + 1 := by
  induction line with
  | nil => simp [lineCount]
  | cons byte line ih =>
      rw [List.mem_cons, not_or] at whole
      rw [List.cons_append, lineCount, if_neg, ih whole.2]
      simp [Ne.symm whole.1]

/-! ## One file -/

theorem readMessages_contents (written : List.Forall₂ Written records messages) :
    readMessages (contents records) = messages ∧
      lineCount (contents records) = messages.length := by
  induction written with
  | nil => exact ⟨rfl, rfl⟩
  | cons first rest ih =>
      obtain ⟨call, plain, text⟩ := first
      obtain ⟨line, format, whole, message⟩ := plain.line
      rename_i record _ records _
      have cut : contents (record :: records) = line ++ 10 :: contents records := by
        show record.text ++ contents records = _
        rw [text, format, List.append_assoc]
        rfl
      rw [cut]
      constructor
      · rw [readMessages, lines_append_mark whole, List.map_cons, message]
        exact congrArg _ ih.1
      · rw [lineCount_append_lineFeed whole, ih.2, List.length_cons]

theorem Holds.read {files : Files} {name : Bytes} (holds : Holds files name messages) :
    readMessages (contents (held files name)) = messages :=
  (readMessages_contents holds).1

theorem Holds.lineCount {files : Files} {name : Bytes} (holds : Holds files name messages) :
    lineCount (contents (held files name)) = messages.length :=
  (readMessages_contents holds).2

theorem forall₂_concat {α β : Type} {related : α → β → Prop} {front : List α} {back : List β}
    (before : List.Forall₂ related front back) {one : α} {two : β} (last : related one two) :
    List.Forall₂ related (front ++ [one]) (back ++ [two]) :=
  List.rel_append before (List.Forall₂.cons last List.Forall₂.nil)

theorem Rotated.read {files : Files} {archives : List (Bytes × List Bytes)}
    {recent : List Bytes} (rotated : Rotated files archives recent) :
    ((archives.map Prod.fst).flatMap fun name => readMessages (contents (held files name))) ++
      readMessages (contents (held files file)) = allMessages archives recent := by
  have each : (archives.flatMap fun entry => readMessages (contents (held files entry.1))) =
      archives.flatMap Prod.snd := by
    refine List.flatMap_congr ?_
    intro entry member
    exact (rotated.packed entry member).read
  rw [rotated.log.read, allMessages, ← List.flatMap_def, List.flatMap_map, each]

/-! ## One call -/

theorem written_recordOf (plain : Plain call call.text) (world : World) :
    Written (recordOf world call) call.text :=
  ⟨call, plain, rfl⟩

theorem Rotated.linesWith {world : World} {archives : List (Bytes × List Bytes)}
    {recent : List Bytes} (rotated : Rotated world.files archives recent)
    (plain : Plain call call.text) :
    Logging.linesWith world call = recent.length + 1 := by
  have written := forall₂_concat rotated.log (written_recordOf plain world)
  rw [Logging.linesWith, (readMessages_contents written).2, List.length_append]
  rfl

theorem Rotated.logged {world : World} {archives : List (Bytes × List Bytes)}
    {recent : List Bytes} (rotated : Rotated world.files archives recent)
    (plain : Plain call call.text) (room : (recent.length : Int) < defaultmaxline) :
    Rotated (Logging.logged world call).files archives (recent ++ [call.text]) where
  log := by
    show List.Forall₂ _ (held _ _) _
    rw [held_logged, if_pos rfl]
    exact forall₂_concat rotated.log (written_recordOf plain world)
  short := by
    rw [List.length_append, List.length_singleton]
    omega
  apart := rotated.apart
  named := rotated.named
  packed := by
    intro entry member
    obtain ⟨other, name⟩ := rotated.named entry member
    show List.Forall₂ _ (held _ _) _
    rw [held_logged, if_neg (name ▸ archive_ne_file other)]
    exact rotated.packed entry member
  size := rotated.size
  known := by
    intro other present
    rw [logged_archive] at present
    exact rotated.known other present

/-- The log with its last line becomes an archive of a new name. -/
theorem Rotated.backup {world : World} {archives : List (Bytes × List Bytes)}
    {recent : List Bytes} (rotated : Rotated world.files archives recent)
    (plain : Plain call call.text) (full : (recent.length : Int) = defaultmaxline)
    (new : world.files (archive call) = none) :
    Rotated (Logging.backup call (Logging.logged world call).files)
      (archives ++ [(archive call, recent ++ [call.text])]) [] := by
  have unnamed : archive call ∉ archives.map Prod.fst := by
    intro member
    obtain ⟨entry, member, name⟩ := List.mem_map.mp member
    have holds := rotated.packed entry member
    have size := rotated.size entry member
    have none : held world.files (archive call) = [] := by
      rw [held, new]
      rfl
    rw [name, Holds, none] at holds
    rw [← List.Forall₂.length_eq holds] at size
    exact absurd size (by decide)
  refine ⟨?_, by decide, ?_, ?_, ?_, ?_, ?_⟩
  · show List.Forall₂ _ (held _ _) _
    rw [held_backup, if_neg (archive_ne_file call).symm, if_pos (Or.inl rfl)]
    exact List.Forall₂.nil
  · rw [List.map_append, List.nodup_append]
    refine ⟨rotated.apart, by simp, ?_⟩
    intro name old other last
    rw [List.map_singleton, List.mem_singleton] at last
    rintro rfl
    have same : name = archive call := last
    exact unnamed (same ▸ old)
  · intro entry member
    rcases List.mem_append.mp member with old | last
    · exact rotated.named entry old
    · obtain rfl := List.mem_singleton.mp last
      exact ⟨call, rfl⟩
  · intro entry member
    show List.Forall₂ _ (held _ _) _
    rcases List.mem_append.mp member with old | last
    · obtain ⟨other, name⟩ := rotated.named entry old
      have elsewhere : entry.1 ≠ archive call := by
        intro same
        exact unnamed (same ▸ List.mem_map_of_mem old)
      have stays : ¬ (entry.1 = file ∨ entry.1 = backupFile (intToString call.later)) := by
        rw [name]
        exact not_or.mpr ⟨archive_ne_file other, archive_ne_backupFile other call.later⟩
      rw [held_backup, if_neg elsewhere, if_neg stays, held_logged,
        if_neg (name ▸ archive_ne_file other)]
      exact rotated.packed entry old
    · obtain rfl := List.mem_singleton.mp last
      rw [held_backup, if_pos rfl, held_logged, if_pos rfl]
      exact forall₂_concat rotated.log (written_recordOf plain world)
  · intro entry member
    rcases List.mem_append.mp member with old | last
    · exact rotated.size entry old
    · obtain rfl := List.mem_singleton.mp last
      rw [List.length_append, ← full]
      rfl
  · intro other present
    rw [List.map_append, List.mem_append]
    rw [backup_apply] at present
    by_cases same : archive other = archive call
    · exact Or.inr (List.mem_singleton.mpr same)
    · left
      rw [if_neg same] at present
      split at present
      · exact absurd rfl present
      · rw [logged_archive] at present
        exact rotated.known other present

/-- Where the log is full, nothing was packed in that second before. -/
def Unpacked (files : Files) (call : Call) : Prop :=
  (lineCount (contents (held files file)) : Int) = defaultmaxline →
    files (archive call) = none

instance (files : Files) (call : Call) : Decidable (Unpacked files call) :=
  inferInstanceAs (Decidable ((lineCount (contents (held files file)) : Int) = defaultmaxline →
    files (archive call) = none))

/-- A call adds its message at the end, and the program goes on. -/
theorem Rotated.step {world after : World} {archives : List (Bytes × List Bytes)}
    {recent : List Bytes} (rotated : Rotated world.files archives recent)
    (plain : Plain call call.text) (opens : call.opens = true) (reads : call.reads = true)
    (unpacked : Unpacked world.files call)
    (stepped : Logging.step (enableHandler true true true) world call = some after) :
    after.ended = none ∧ ∃ archives' recent', Rotated after.files archives' recent' ∧
      allMessages archives' recent' = allMessages archives recent ++ [call.text] := by
  have count := rotated.linesWith plain
  have short := rotated.short
  have lines : (lineCount (contents (held world.files file)) : Int) = recent.length := by
    rw [rotated.log.lineCount]
  obtain ⟨running, moved⟩ := step_cases stepped
  rcases moved with ⟨closed, -⟩ | ⟨unread, -⟩ | ⟨-, -, many, -⟩ | ⟨room, rfl⟩ |
    ⟨-, -, -, long, rfl⟩
  · rw [opens] at closed
    cases closed
  · rw [reads] at unread
    cases unread
  · have small : defaultmaxline + 1 ≤ intMax := by decide
    omega
  · refine ⟨running, archives, recent ++ [call.text], rotated.logged plain (by omega), ?_⟩
    rw [allMessages, allMessages, List.append_assoc]
  · have full : (recent.length : Int) = defaultmaxline := by omega
    refine ⟨running, _, _, rotated.backup plain full (unpacked (lines.trans full)), ?_⟩
    simp [allMessages]

end LinuxSystemLearning.Logging
