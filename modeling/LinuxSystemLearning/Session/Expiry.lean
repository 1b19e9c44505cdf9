import LinuxSystemLearning.Http.StaticFiles
import LinuxSystemLearning.Library.Calendar
import LinuxSystemLearning.Logging.LogFile

/-!
# When a cookie expires

`ExpireTimeUseRfc1123` writes the moment in words.  A client that has the text has the
moment.
-/

set_option autoImplicit false

namespace LinuxSystemLearning.Sessions

open LinuxSystemLearning.Calendar
open LinuxSystemLearning.Cxx
open LinuxSystemLearning.HttpServer (intToString mem_intToString)
open LinuxSystemLearning.LogModule (padded two mem_padded not_mem_padded)

/-! ## The code -/

def months : List Bytes :=
  [ascii "Jan", ascii "Feb", ascii "Mar", ascii "Apr", ascii "May", ascii "Jun", ascii "Jul",
    ascii "Aug", ascii "Sep", ascii "Oct", ascii "Nov", ascii "Dec"]

def weekdays : List Bytes :=
  [ascii "Sun", ascii "Mon", ascii "Tue", ascii "Wed", ascii "Thu", ascii "Fri", ascii "Sat"]

/-- Behind the end of the vector it is undefined. -/
def getMonthName (month : Nat) : Option Bytes := months[month]?

def getWeekDayName (day : Nat) : Option Bytes := weekdays[day]?

structure Tm where
  sec : Nat
  min : Nat
  hour : Nat
  mday : Nat
  mon : Nat
  year : Int
  wday : Nat

def epoch : Int := 719162 * 86400

def inInt (value : Int) : Prop := intMin ≤ value ∧ value ≤ intMax

instance (value : Int) : Decidable (inInt value) := inferInstanceAs (Decidable (_ ∧ _))

/-- `NULL` if the year does not fit. -/
def gmtime (timeout : Int) : Option Tm :=
  let time := dateTimeOf (timeout + epoch)
  if inInt (time.date.year - 1900) then
    some ⟨time.sec, time.min, time.hour, time.date.mday, time.date.month, time.date.year - 1900,
      weekday time.date.toDay⟩
  else none

/-- `snprintf` leaves room for the NUL; the sum in front of `%d` is one of `int`. -/
def expireTimeUseRfc1123 (now t : Int) : Option Bytes := do
  let tm ← gmtime (now + t)
  let wday ← getWeekDayName tm.wday
  let mon ← getMonthName tm.mon
  if inInt (tm.year + 1900) then
    some ((wday ++ ascii ", " ++ two tm.mday ++ ascii " " ++ mon ++ ascii " " ++
      intToString (tm.year + 1900) ++ ascii " " ++ two tm.hour ++ ascii ":" ++ two tm.min ++
      ascii ":" ++ two tm.sec ++ ascii " UTC").take 1023)
  else none

/-! ## Reading -/

def readSigned (text : Bytes) : Int :=
  let (negative, digits) := splitSign text
  if negative then -digitsValue digits else digitsValue digits

/-- The moment, if there is such a time on such a day. -/
def momentOf (wday : Bytes) (year : Int) (month mday hour min sec : Nat) : Option Int :=
  if valid : InMonth year month mday ∧ hour < 24 ∧ min < 60 ∧ sec < 60 then
    let time : DateTime := ⟨⟨year, month, mday, valid.1⟩, hour, min, sec, valid.2⟩
    if (getWeekDayName (weekday time.date.toDay)).map (· ++ ascii ",") = some wday then
      some (time.seconds - epoch)
    else none
  else none

def readExpireTime (text : Bytes) : Option Int :=
  match text.splitOn 32 with
  | [wday, mday, mon, year, clock, zone] =>
      match months.idxOf? mon, clock.splitOn 58 with
      | some month, [hour, min, sec] =>
          if zone = ascii "UTC" then
            momentOf wday (readSigned year) month (digitsValue mday) (digitsValue hour)
              (digitsValue min) (digitsValue sec)
          else none
      | _, _ => none
  | _ => none

/-! ## Numbers -/

theorem digitsValue_two (value : Nat) : digitsValue (two value) = value := by
  have zeros : ∀ count, (List.replicate count '0'.toUInt8).map Char.ofUInt8 =
      List.replicate count '0' := fun count => List.map_replicate
  have digits := digitsValue_stdToString value
  unfold digitsValue at digits
  unfold digitsValue two padded
  dsimp only
  rw [List.map_append, zeros, Nat.ofDigitChars_append, Nat.ofDigitChars_replicate_zero,
    Nat.mul_zero, digits]

theorem length_two {value : Nat} (small : value < 100) : (two value).length = 2 := by
  have short := length_stdToString_le (show 0 < 2 by decide) (show value < 10 ^ 2 from small)
  unfold two padded
  dsimp only
  rw [List.length_append, List.length_replicate]
  omega

theorem not_mem_two {byte : UInt8} (other : isdigit byte = false) (value : Nat) :
    byte ∉ two value := by
  refine not_mem_padded ?_ other
  rintro rfl
  cases other

/-- A digit is not taken for a sign. -/
theorem splitSign_stdToString (value : Nat) :
    splitSign (stdToString value) = (false, stdToString value) := by
  cases text : stdToString value with
  | nil => rfl
  | cons first rest =>
      have member : first ∈ stdToString value := by simp [text]
      have digit := isdigit_of_mem_stdToString member
      have minus : first ≠ 45 := by
        rintro rfl
        cases digit
      have plus : first ≠ 43 := by
        rintro rfl
        cases digit
      rw [splitSign, if_neg minus, if_neg plus]

theorem readSigned_intToString (value : Int) : readSigned (intToString value) = value := by
  unfold intToString
  by_cases negative : value < 0
  · rw [if_pos negative]
    show -(digitsValue (stdToString value.natAbs) : Int) = value
    rw [digitsValue_stdToString]
    omega
  · rw [if_neg negative, readSigned, splitSign_stdToString]
    show (digitsValue (stdToString value.natAbs) : Int) = value
    rw [digitsValue_stdToString]
    omega

theorem not_mem_intToString {byte : UInt8} (other : isdigit byte = false) (minus : byte ≠ 45)
    (value : Int) : byte ∉ intToString value := by
  intro member
  rcases mem_intToString member with isMinus | isDigit
  · exact minus isMinus
  · rw [other] at isDigit
    cases isDigit

theorem length_intToString_le {value : Int} (fits : inInt value) :
    (intToString value).length ≤ 11 := by
  have small : value.natAbs < 10 ^ 10 := by
    unfold inInt intMin intMax at fits
    omega
  have short := length_stdToString_le (show 0 < 10 by decide) small
  unfold intToString
  split
  · rw [List.length_append]
    exact Nat.add_le_add (show (ascii "-").length ≤ 1 from Nat.le_refl 1) short
  · omega

/-! ## Names -/

theorem exists_month {month : Nat} (inside : month < 12) : ∃ name,
    getMonthName month = some name ∧ months.idxOf? name = some month ∧ 32 ∉ name ∧
      name.length = 3 := by
  have all : ∀ month < 12, (getMonthName month).any (fun name =>
      months.idxOf? name = some month ∧ 32 ∉ name ∧ name.length = 3) = true := by decide
  obtain ⟨name, there, facts⟩ := (Option.any_eq_true _ _).mp (all month inside)
  exact ⟨name, there, of_decide_eq_true facts⟩

theorem exists_weekday {day : Nat} (inside : day < 7) : ∃ name,
    getWeekDayName day = some name ∧ 32 ∉ name ∧ name.length = 3 := by
  have all : ∀ day < 7, (getWeekDayName day).any (fun name => 32 ∉ name ∧ name.length = 3) =
      true := by decide
  obtain ⟨name, there, facts⟩ := (Option.any_eq_true _ _).mp (all day inside)
  exact ⟨name, there, of_decide_eq_true facts⟩

/-! ## The moment -/

theorem momentOf_eq {time : DateTime} {name : Bytes}
    (there : getWeekDayName (weekday time.date.toDay) = some name) :
    momentOf (name ++ ascii ",") time.date.year time.date.month time.date.mday time.hour time.min
      time.sec = some (time.seconds - epoch) := by
  have shown : (getWeekDayName (weekday time.date.toDay)).map (· ++ ascii ",") =
      some (name ++ ascii ",") := by
    rw [there]
    rfl
  rw [momentOf, dif_pos ⟨time.date.inMonth, time.inDay⟩]
  exact if_pos shown

def textOf (wday mon : Bytes) (year : Int) (mday hour min sec : Nat) : Bytes :=
  wday ++ ascii ", " ++ two mday ++ ascii " " ++ mon ++ ascii " " ++ intToString year ++
    ascii " " ++ two hour ++ ascii ":" ++ two min ++ ascii ":" ++ two sec ++ ascii " UTC"

def expireText (time : DateTime) : Option Bytes := do
  let wday ← getWeekDayName (weekday time.date.toDay)
  let mon ← getMonthName time.date.month
  some (textOf wday mon time.date.year time.date.mday time.hour time.min time.sec)

variable {wday mon : Bytes} {year : Int} {month mday hour min sec : Nat}

theorem length_textOf (wdays : wday.length = 3) (mons : mon.length = 3)
    (years : inInt year) (mdays : mday < 100) (hours : hour < 100) (mins : min < 100)
    (secs : sec < 100) : (textOf wday mon year mday hour min sec).length ≤ 1023 := by
  have short := length_intToString_le years
  simp only [textOf, List.length_append, length_two mdays, length_two hours, length_two mins,
    length_two secs, wdays, mons]
  simp only [ascii, List.length_map]
  have literals : ", ".toList.length = 2 ∧ " ".toList.length = 1 ∧ ":".toList.length = 1 ∧
      " UTC".toList.length = 4 := by decide
  omega

theorem readExpireTime_text (wdays : 32 ∉ wday) (mons : 32 ∉ mon)
    (there : months.idxOf? mon = some month) :
    readExpireTime (textOf wday mon year mday hour min sec) =
      momentOf (wday ++ ascii ",") year month mday hour min sec := by
  have clock : ([58].intercalate [two hour, two min, two sec]).splitOn 58 =
      [two hour, two min, two sec] := by
    apply List.splitOn_intercalate
    · simp [not_mem_two (show isdigit 58 = false from rfl)]
    · exact List.cons_ne_nil _ _
  have parts : (textOf wday mon year mday hour min sec).splitOn 32 =
      [wday ++ ascii ",", two mday, mon, intToString year,
        [58].intercalate [two hour, two min, two sec], ascii "UTC"] := by
    have shape : textOf wday mon year mday hour min sec = [32].intercalate
        [wday ++ ascii ",", two mday, mon, intToString year,
          [58].intercalate [two hour, two min, two sec], ascii "UTC"] := by
      have blank : ' '.toUInt8 = 32 ∧ ':'.toUInt8 = 58 := by decide
      simp [textOf, List.intercalate, ascii, blank]
    rw [shape]
    apply List.splitOn_intercalate
    · have digits := not_mem_two (show isdigit 32 = false from rfl)
      have years := not_mem_intToString (show isdigit 32 = false from rfl) (by decide) year
      have comma : 32 ∉ ascii "," := by decide
      have zone : 32 ∉ ascii "UTC" := by decide
      have colon : (32 : UInt8) ≠ 58 := by decide
      simp [wdays, mons, digits, years, comma, zone, colon, List.intercalate]
    · exact List.cons_ne_nil _ _
  simp only [readExpireTime, parts, there, clock, if_true, readSigned_intToString,
    digitsValue_two]

/-! ## All moments -/

/-- The year fits into `tm_year`, and with 1900 more into an `int`. -/
def YearFits (year : Int) : Prop := intMin + 1900 ≤ year ∧ year ≤ intMax

instance (year : Int) : Decidable (YearFits year) := inferInstanceAs (Decidable (_ ∧ _))

theorem yearFits_iff {year : Int} : YearFits year ↔ inInt (year - 1900) ∧ inInt year := by
  unfold YearFits inInt
  omega

/-- The names are there, nothing is cut off, and the text is read as the second it is of. -/
theorem exists_expireText {time : DateTime} (years : inInt time.date.year) : ∃ text,
    expireText time = some text ∧ text.length ≤ 1023 ∧
      readExpireTime text = some (time.seconds - epoch) := by
  obtain ⟨wday, onDay, wdays, wdayLength⟩ := exists_weekday (weekday_lt time.date.toDay)
  obtain ⟨mon, inYear, numbered, mons, monLength⟩ := exists_month time.date.inMonth.month_lt
  have mdays := time.date.inMonth.mday_le
  obtain ⟨hours, mins, secs⟩ := time.inDay
  refine ⟨textOf wday mon time.date.year time.date.mday time.hour time.min time.sec, ?_, ?_, ?_⟩
  · rw [expireText, onDay, inYear]
    rfl
  · exact length_textOf wdayLength monLength years (by omega) (by omega) (by omega) (by omega)
  · rw [readExpireTime_text wdays mons numbered, momentOf_eq onDay]

/-- `ExpireTimeUseRfc1123` writes the text of its second, unless its year is too far. -/
theorem expireTimeUseRfc1123_eq (now t : Int) : expireTimeUseRfc1123 now t =
    if YearFits (dateTimeOf (now + t + epoch)).date.year then
      expireText (dateTimeOf (now + t + epoch))
    else none := by
  obtain ⟨wday, onDay, -⟩ := exists_weekday (weekday_lt (dateTimeOf (now + t + epoch)).date.toDay)
  obtain ⟨mon, inYear, -⟩ := exists_month (dateTimeOf (now + t + epoch)).date.inMonth.month_lt
  have back : (dateTimeOf (now + t + epoch)).date.year - 1900 + 1900 =
      (dateTimeOf (now + t + epoch)).date.year := Int.sub_add_cancel _ _
  unfold expireTimeUseRfc1123 gmtime
  dsimp only
  by_cases behind : inInt ((dateTimeOf (now + t + epoch)).date.year - 1900)
  · simp only [if_pos behind, Option.bind_eq_bind, Option.bind_some, onDay, inYear, back]
    by_cases years : inInt (dateTimeOf (now + t + epoch)).date.year
    · obtain ⟨text, said, short, -⟩ := exists_expireText years
      rw [if_pos years, if_pos (yearFits_iff.mpr ⟨behind, years⟩), said]
      rw [expireText, onDay, inYear] at said
      cases said
      exact congrArg some (List.take_of_length_le short)
    · rw [if_neg years, if_neg fun fits => years (yearFits_iff.mp fits).2]
  · rw [if_neg behind, if_neg fun fits => behind (yearFits_iff.mp fits).1]
    rfl

/-- Whoever has the text has the second, there is no text exactly if the year is too far, and
each second of the calendar has the text with its date and its day of the week. -/
theorem expiry_reads_back (now t : Int) :
    (expireTimeUseRfc1123 now t).map readExpireTime =
        (if YearFits (dateTimeOf (now + t + epoch)).date.year then some (some (now + t))
          else none) ∧
      ∀ time : DateTime, time.seconds = now + t + epoch → YearFits time.date.year →
        expireTimeUseRfc1123 now t = expireText time := by
  rw [expireTimeUseRfc1123_eq]
  constructor
  · split
    · rename_i fits
      obtain ⟨text, said, -, read⟩ := exists_expireText (yearFits_iff.mp fits).2
      rw [seconds_dateTimeOf, Int.add_sub_cancel] at read
      rw [said, Option.map_some, read]
    · rfl
  · intro time same fits
    rw [← same, dateTimeOf_seconds, if_pos fits]

/-- The end of a leap day in a year that 400 divides. -/
theorem expiry_reads_back_leap_day :
    (expireTimeUseRfc1123 951868740 60).map readExpireTime = some (some 951868800) ∧
      expireTimeUseRfc1123 951868740 60 = some (ascii "Wed, 01 Mar 2000 00:00:00 UTC") := by
  have both := expiry_reads_back 951868740 60
  refine ⟨both.1.trans (by decide), ?_⟩
  exact both.2 ⟨⟨2000, 2, 1, by decide⟩, 0, 0, 0, by decide⟩ (by decide) (by decide)

end LinuxSystemLearning.Sessions
