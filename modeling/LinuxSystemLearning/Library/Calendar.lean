import Mathlib.Algebra.GroupWithZero.Nat
import Mathlib.Algebra.BigOperators.Group.List.Basic

/-!
# The Gregorian calendar

The days are counted from the first of January of the year 1, in both directions.  A day is
found in its year and in its month as a place in blocks that follow one another.
-/

set_option autoImplicit false

namespace LinuxSystemLearning.Calendar

/-! ## Blocks -/

/-- The block that has a place, and how far behind its beginning the place is. -/
def locate : List Nat → Nat → Nat × Nat
  | [], place => (0, place)
  | length :: lengths, place =>
      if place < length then (0, place)
      else
        let (block, rest) := locate lengths (place - length)
        (block + 1, rest)

def blockStart (lengths : List Nat) (block : Nat) : Nat := (lengths.take block).sum

variable {lengths : List Nat} {place block rest length : Nat}

theorem locate_start (there : lengths[block]? = some length) (inside : rest < length) :
    locate lengths (blockStart lengths block + rest) = (block, rest) := by
  induction lengths generalizing block with
  | nil => cases there
  | cons first lengths ih =>
      cases block with
      | zero =>
          have same : first = length := Option.some.inj there
          rw [blockStart, List.take_zero, List.sum_nil, Nat.zero_add, locate,
            if_pos (same ▸ inside)]
      | succ block =>
          have later := ih there
          rw [blockStart, List.take_succ_cons, List.sum_cons, locate, if_neg (by omega)]
          have place : first + (lengths.take block).sum + rest - first =
              blockStart lengths block + rest := by
            rw [blockStart]
            omega
          rw [place, later]

theorem locate_inside (inside : place < lengths.sum) :
    ∃ length, lengths[(locate lengths place).1]? = some length ∧
      (locate lengths place).2 < length ∧
        blockStart lengths (locate lengths place).1 + (locate lengths place).2 = place := by
  induction lengths generalizing place with
  | nil => cases inside
  | cons first lengths ih =>
      rw [List.sum_cons] at inside
      rw [locate]
      by_cases here : place < first
      · rw [if_pos here]
        exact ⟨first, rfl, here, Nat.zero_add place⟩
      · rw [if_neg here]
        obtain ⟨length, there, within, whole⟩ := ih (show place - first < lengths.sum by omega)
        refine ⟨length, there, within, ?_⟩
        rw [blockStart] at whole
        show ((first :: lengths).take ((locate lengths (place - first)).1 + 1)).sum +
          (locate lengths (place - first)).2 = place
        rw [List.take_succ_cons, List.sum_cons]
        omega

theorem place_lt_sum (there : lengths[block]? = some length) (inside : rest < length) :
    blockStart lengths block + rest < lengths.sum := by
  induction lengths generalizing block with
  | nil => cases there
  | cons first lengths ih =>
      rw [List.sum_cons]
      cases block with
      | zero =>
          have same : first = length := Option.some.inj there
          rw [blockStart, List.take_zero, List.sum_nil]
          omega
      | succ block =>
          have later := ih there
          rw [blockStart] at later
          rw [blockStart, List.take_succ_cons, List.sum_cons]
          omega

/-! ## Years -/

def leap (year : Int) : Bool :=
  decide (year % 4 = 0 ∧ (year % 100 ≠ 0 ∨ year % 400 = 0))

def yearLength (year : Int) : Nat := if leap year then 366 else 365

def yearStart (year : Int) : Int :=
  365 * (year - 1) + (year - 1) / 4 - (year - 1) / 100 + (year - 1) / 400

theorem yearStart_succ (year : Int) : yearStart (year + 1) = yearStart year + yearLength year := by
  unfold yearStart yearLength leap
  split
  · rename_i isLeap
    have isLeap := of_decide_eq_true isLeap
    omega
  · rename_i notLeap
    have notLeap := of_decide_eq_false (Bool.eq_false_iff.mpr notLeap)
    omega

theorem yearStart_le {year later : Int} (order : year ≤ later) :
    yearStart year ≤ yearStart later := by
  unfold yearStart
  omega

/-- 400 years have 146097 days. -/
def yearOf (day : Int) : Int :=
  let guess := 400 * day / 146097 + 1
  if yearStart (guess + 1) ≤ day then guess + 1 else guess

theorem yearOf_bounds (day : Int) :
    yearStart (yearOf day) ≤ day ∧ day < yearStart (yearOf day + 1) := by
  have step := yearStart_succ (400 * day / 146097 + 1 + 1)
  have length : 365 ≤ yearLength (400 * day / 146097 + 1 + 1) := by
    unfold yearLength
    split <;> omega
  unfold yearOf
  dsimp only
  split
  · rename_i behind
    refine ⟨behind, ?_⟩
    rw [step]
    unfold yearStart
    omega
  · rename_i here
    refine ⟨?_, Int.not_le.mp here⟩
    unfold yearStart
    omega

theorem yearOf_eq {year day : Int} (begun : yearStart year ≤ day)
    (ends : day < yearStart (year + 1)) : yearOf day = year := by
  obtain ⟨begun', ends'⟩ := yearOf_bounds day
  rcases Int.lt_trichotomy (yearOf day) year with before | same | behind
  · have order := yearStart_le (Int.add_one_le_iff.mpr before)
    omega
  · exact same
  · have order := yearStart_le (Int.add_one_le_iff.mpr behind)
    omega

/-! ## Dates -/

def monthLengths (isLeap : Bool) : List Nat :=
  [31, if isLeap then 29 else 28, 31, 30, 31, 30, 31, 31, 30, 31, 30, 31]

theorem sum_monthLengths (year : Int) : (monthLengths (leap year)).sum = yearLength year := by
  unfold yearLength
  cases leap year <;> rfl

def InMonth (year : Int) (month mday : Nat) : Prop :=
  0 < mday ∧ mday ≤ (monthLengths (leap year)).getD month 0

instance (year : Int) (month mday : Nat) : Decidable (InMonth year month mday) :=
  inferInstanceAs (Decidable (_ ∧ _))

theorem inMonth_iff {year : Int} {month mday : Nat} : InMonth year month mday ↔
    ∃ length, (monthLengths (leap year))[month]? = some length ∧ 0 < mday ∧ mday ≤ length := by
  rw [InMonth, List.getD_eq_getElem?_getD]
  cases (monthLengths (leap year))[month]? with
  | none =>
      simp only [Option.getD_none]
      refine iff_of_false (by omega) ?_
      rintro ⟨length, ⟨⟩, -⟩
  | some length => simp

structure Date where
  year : Int
  month : Nat
  mday : Nat
  inMonth : InMonth year month mday

theorem Date.ext_fields {date other : Date} (year : date.year = other.year)
    (month : date.month = other.month) (mday : date.mday = other.mday) : date = other := by
  cases date
  cases other
  cases year
  cases month
  cases mday
  rfl

theorem InMonth.month_lt {year : Int} {month mday : Nat} (inMonth : InMonth year month mday) :
    month < 12 := by
  obtain ⟨length, there, -⟩ := inMonth_iff.mp inMonth
  exact (List.getElem?_eq_some_iff.mp there).1

theorem InMonth.mday_le {year : Int} {month mday : Nat} (inMonth : InMonth year month mday) :
    mday ≤ 31 := by
  obtain ⟨length, there, -, last⟩ := inMonth_iff.mp inMonth
  have most : ∀ isLeap, ∀ length ∈ monthLengths isLeap, length ≤ 31 := by decide
  exact Nat.le_trans last (most _ length (List.mem_of_getElem? there))

def Date.yearDay (date : Date) : Nat :=
  blockStart (monthLengths (leap date.year)) date.month + (date.mday - 1)

def Date.toDay (date : Date) : Int := yearStart date.year + date.yearDay

theorem Date.locate_yearDay (date : Date) :
    locate (monthLengths (leap date.year)) date.yearDay = (date.month, date.mday - 1) := by
  obtain ⟨length, there, first, last⟩ := inMonth_iff.mp date.inMonth
  exact locate_start there (by omega)

theorem Date.yearDay_lt (date : Date) : date.yearDay < yearLength date.year := by
  obtain ⟨length, there, first, last⟩ := inMonth_iff.mp date.inMonth
  rw [← sum_monthLengths]
  exact place_lt_sum there (by omega)

/-- How many days of its year are in front of a day. -/
def yearDayOf (day : Int) : Nat := (day - yearStart (yearOf day)).toNat

theorem yearDayOf_lt (day : Int) : yearDayOf day < yearLength (yearOf day) := by
  obtain ⟨begun, ends⟩ := yearOf_bounds day
  rw [yearStart_succ] at ends
  unfold yearDayOf
  omega

theorem inMonth_of_day (day : Int) :
    InMonth (yearOf day) (locate (monthLengths (leap (yearOf day))) (yearDayOf day)).1
      ((locate (monthLengths (leap (yearOf day))) (yearDayOf day)).2 + 1) := by
  have inside : yearDayOf day < (monthLengths (leap (yearOf day))).sum := by
    rw [sum_monthLengths]
    exact yearDayOf_lt day
  obtain ⟨length, there, within, -⟩ := locate_inside inside
  exact inMonth_iff.mpr ⟨length, there, Nat.succ_pos _, within⟩

def dateOf (day : Int) : Date where
  year := yearOf day
  month := (locate (monthLengths (leap (yearOf day))) (yearDayOf day)).1
  mday := (locate (monthLengths (leap (yearOf day))) (yearDayOf day)).2 + 1
  inMonth := inMonth_of_day day

theorem toDay_dateOf (day : Int) : (dateOf day).toDay = day := by
  have inside : yearDayOf day < (monthLengths (leap (yearOf day))).sum := by
    rw [sum_monthLengths]
    exact yearDayOf_lt day
  obtain ⟨length, -, -, whole⟩ := locate_inside inside
  have place : (dateOf day).yearDay = yearDayOf day := whole
  have begun := (yearOf_bounds day).1
  rw [Date.toDay, place, yearDayOf]
  show yearStart (yearOf day) + _ = day
  omega

theorem dateOf_toDay (date : Date) : dateOf date.toDay = date := by
  have year : yearOf date.toDay = date.year := by
    have inside := date.yearDay_lt
    apply yearOf_eq
    · unfold Date.toDay
      omega
    · rw [yearStart_succ]
      unfold Date.toDay
      omega
  have place : yearDayOf date.toDay = date.yearDay := by
    rw [yearDayOf, year]
    unfold Date.toDay
    omega
  have found := date.locate_yearDay
  obtain ⟨length, there, first, last⟩ := inMonth_iff.mp date.inMonth
  refine Date.ext_fields year ?_ ?_
  · show (locate (monthLengths (leap (yearOf date.toDay))) (yearDayOf date.toDay)).1 = _
    rw [year, place, found]
  · show (locate (monthLengths (leap (yearOf date.toDay))) (yearDayOf date.toDay)).2 + 1 = _
    rw [year, place, found]
    show date.mday - 1 + 1 = date.mday
    omega

/-- The first of January of the year 1 was a Monday; Sunday is 0. -/
def weekday (day : Int) : Nat := ((day + 1) % 7).toNat

theorem weekday_lt (day : Int) : weekday day < 7 := by
  unfold weekday
  omega

/-! ## Seconds -/

structure DateTime where
  date : Date
  hour : Nat
  min : Nat
  sec : Nat
  inDay : hour < 24 ∧ min < 60 ∧ sec < 60

def DateTime.daySecond (time : DateTime) : Nat := time.hour * 3600 + time.min * 60 + time.sec

/-- The seconds in front of it, from the first of January of the year 1. -/
def DateTime.seconds (time : DateTime) : Int := time.date.toDay * 86400 + time.daySecond

theorem DateTime.daySecond_lt (time : DateTime) : time.daySecond < 86400 := by
  obtain ⟨hours, mins, secs⟩ := time.inDay
  unfold DateTime.daySecond
  omega

theorem DateTime.ext_fields {time other : DateTime} (date : time.date = other.date)
    (hour : time.hour = other.hour) (min : time.min = other.min) (sec : time.sec = other.sec) :
    time = other := by
  cases time
  cases other
  cases date
  cases hour
  cases min
  cases sec
  rfl

def daySecondOf (seconds : Int) : Nat := (seconds % 86400).toNat

theorem inDay_of_seconds (seconds : Int) : daySecondOf seconds / 3600 < 24 ∧
    daySecondOf seconds / 60 % 60 < 60 ∧ daySecondOf seconds % 60 < 60 := by
  unfold daySecondOf
  omega

def dateTimeOf (seconds : Int) : DateTime where
  date := dateOf (seconds / 86400)
  hour := daySecondOf seconds / 3600
  min := daySecondOf seconds / 60 % 60
  sec := daySecondOf seconds % 60
  inDay := inDay_of_seconds seconds

theorem seconds_dateTimeOf (seconds : Int) : (dateTimeOf seconds).seconds = seconds := by
  have day : (dateTimeOf seconds).date.toDay = seconds / 86400 := toDay_dateOf _
  have second : (dateTimeOf seconds).daySecond = daySecondOf seconds := by
    show daySecondOf seconds / 3600 * 3600 + daySecondOf seconds / 60 % 60 * 60 +
      daySecondOf seconds % 60 = _
    omega
  rw [DateTime.seconds, day, second, daySecondOf]
  omega

theorem dateTimeOf_seconds (time : DateTime) : dateTimeOf time.seconds = time := by
  have inside := time.daySecond_lt
  have day : time.seconds / 86400 = time.date.toDay := by
    unfold DateTime.seconds
    omega
  have second : daySecondOf time.seconds = time.hour * 3600 + time.min * 60 + time.sec := by
    show daySecondOf time.seconds = time.daySecond
    unfold daySecondOf DateTime.seconds
    omega
  obtain ⟨hours, mins, secs⟩ := time.inDay
  apply DateTime.ext_fields
  · show dateOf (time.seconds / 86400) = time.date
    rw [day, dateOf_toDay]
  · show daySecondOf time.seconds / 3600 = time.hour
    omega
  · show daySecondOf time.seconds / 60 % 60 = time.min
    omega
  · show daySecondOf time.seconds % 60 = time.sec
    omega

end LinuxSystemLearning.Calendar
