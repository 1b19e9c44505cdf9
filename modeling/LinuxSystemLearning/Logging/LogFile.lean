import LinuxSystemLearning.Cxx.Text
import LinuxSystemLearning.Library.Lines
import LinuxSystemLearning.Library.Serialized

/-!
# The log file

`LogMessage` puts the fields of a record in brackets in front of its text, and
`FileLogStrategy` appends the whole with `\r\n` to the log file while it holds its mutex.  The
stream may hand the line to the file in several writes.  `readLog` is the reader such a file is
written for.
-/

set_option autoImplicit false

namespace LinuxSystemLearning.LogModule

open LinuxSystemLearning.Cxx
open LinuxSystemLearning.Interleaving
open LinuxSystemLearning.Lines
open LinuxSystemLearning.Serialized (Thread)

/-! ## The code -/

inductive LogLevel where
  | DEBUG
  | INFO
  | WARNING
  | ERROR
  | FATAL
  deriving DecidableEq

def level2Str : LogLevel → Bytes
  | .DEBUG => ascii "DEBUG"
  | .INFO => ascii "INFO"
  | .WARNING => ascii "WARNING"
  | .ERROR => ascii "ERROR"
  | .FATAL => ascii "FATAL"

/-- `struct tm` of a clock that is behind 1900. -/
structure Tm where
  year : Nat
  mon : Nat
  mday : Nat
  hour : Nat
  min : Nat
  sec : Nat

/-- `%4d` with `fill` a space, `%02d` with a zero. -/
def padded (fill : UInt8) (width value : Nat) : Bytes :=
  let digits := stdToString value
  List.replicate (width - digits.length) fill ++ digits

def two (value : Nat) : Bytes := padded '0'.toUInt8 2 value

/-- `snprintf` leaves room for the NUL. -/
def getTimeStamp (tm : Tm) : Bytes :=
  (padded ' '.toUInt8 4 (tm.year + 1900) ++ ascii "-" ++ two (tm.mon + 1) ++ ascii "-" ++
    two tm.mday ++ ascii " " ++ two tm.hour ++ ascii ":" ++ two tm.min ++ ascii ":" ++
    two tm.sec).take 127

/-- `info` is all that `<<` has put behind the prefix. -/
structure LogMessage where
  currTime : Bytes
  level : LogLevel
  pid : Nat
  srcName : Bytes
  lineNumber : Nat
  info : Bytes
  deriving DecidableEq

def opening : UInt8 := '['.toUInt8
def closing : UInt8 := ']'.toUInt8
def newline : UInt8 := '\n'.toUInt8

def bracketed (field : Bytes) : Bytes := opening :: (field ++ [closing])

def LogMessage.loginfo (message : LogMessage) : Bytes :=
  bracketed message.currTime ++ (bracketed (level2Str message.level) ++
    (bracketed (stdToString message.pid) ++ (bracketed message.srcName ++
      (bracketed (stdToString message.lineNumber) ++ ascii "-" ++ message.info))))

def gsep : Bytes := ascii "\r\n"

def LogMessage.line (message : LogMessage) : Bytes := message.loginfo ++ gsep

abbrev State := Serialized.State LogMessage UInt8

/-- `lock` is a `SyncLog` that has the mutex and has opened the file, `drop` one that could
not open it, `put` one write to the file. -/
def step : State → Serialized.Event → Option State := Serialized.step LogMessage.line

/-! ## Reading -/

/-- The fields that are not of the logger's own making do not end a bracket or a line. -/
structure Clean (message : LogMessage) : Prop where
  timeField : closing ∉ message.currTime
  timeLine : newline ∉ message.currTime
  nameField : closing ∉ message.srcName
  nameLine : newline ∉ message.srcName
  infoLine : newline ∉ message.info

variable {message : LogMessage}

theorem mem_padded {fill byte : UInt8} {width value : Nat} (member : byte ∈ padded fill width value) :
    byte = fill ∨ isdigit byte = true := by
  rcases List.mem_append.mp member with isFill | isDigit
  · exact .inl (List.mem_replicate.mp isFill).2
  · exact .inr (isdigit_of_mem_stdToString isDigit)

theorem not_mem_padded {fill byte : UInt8} {width value : Nat} (different : byte ≠ fill)
    (other : isdigit byte = false) : byte ∉ padded fill width value := by
  intro member
  rcases mem_padded member with isFill | isDigit
  · exact different isFill
  · rw [other] at isDigit
    cases isDigit

theorem not_mem_getTimeStamp {byte : UInt8} (other : isdigit byte = false)
    (fills : byte ∉ ascii " 0-:") (tm : Tm) : byte ∉ getTimeStamp tm := by
  have parts : byte ≠ ' '.toUInt8 ∧ byte ≠ '0'.toUInt8 ∧ byte ≠ '-'.toUInt8 ∧
      byte ≠ ':'.toUInt8 := by
    simpa [ascii] using fills
  intro member
  have member := List.mem_of_mem_take member
  simp only [List.mem_append, two] at member
  have digits : ∀ (fill : UInt8) (width value : Nat), byte ≠ fill →
      byte ∉ padded fill width value := fun _ _ _ different => not_mem_padded different other
  have dash : byte ∉ ascii "-" := by simpa [ascii] using parts.2.2.1
  have colon : byte ∉ ascii ":" := by simpa [ascii] using parts.2.2.2
  have space : byte ∉ ascii " " := by simpa [ascii] using parts.1
  rcases member with ((((((((((year | one) | mon) | two) | mday) | three) | hour) | four) | min) |
    five) | sec)
  · exact digits _ _ _ parts.1 year
  · exact dash one
  · exact digits _ _ _ parts.2.1 mon
  · exact dash two
  · exact digits _ _ _ parts.2.1 mday
  · exact space three
  · exact digits _ _ _ parts.2.1 hour
  · exact colon four
  · exact digits _ _ _ parts.2.1 min
  · exact colon five
  · exact digits _ _ _ parts.2.1 sec

/-! ## Every order of the threads -/

/-- A record of `LOG`: the time is the clock's, the file name has no bracket and no newline in
it and the text no newline. -/
structure Logged (message : LogMessage) : Prop where
  time : ∃ tm, message.currTime = getTimeStamp tm
  nameField : closing ∉ message.srcName
  nameLine : newline ∉ message.srcName
  infoLine : newline ∉ message.info

theorem Logged.clean (logged : Logged message) : Clean message := by
  obtain ⟨tm, time⟩ := logged.time
  refine ⟨?_, ?_, logged.nameField, logged.nameLine, logged.infoLine⟩
  · rw [time]
    exact not_mem_getTimeStamp rfl (by decide) tm
  · rw [time]
    exact not_mem_getTimeStamp rfl (by decide) tm

end LinuxSystemLearning.LogModule
