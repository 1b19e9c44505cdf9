import LinuxSystemLearning.Cxx.Text

/-!
# The calculator behind the two servers

`Request`, `Response` and `Cal::Execute`.  An `int` is an `Int32` and a `char`
an `Int8`, so the records hold exactly the values the C++ members can hold.
Signed overflow and the two trapping divisions are not given a value: they are
`Fault.undefinedBehaviour`.
-/

set_option autoImplicit false

namespace LinuxSystemLearning.Calculator

open LinuxSystemLearning.Cxx

structure Request where
  x : Int32
  y : Int32
  oper : Int8
  deriving DecidableEq, Repr

structure Response where
  result : Int32 := 0
  code : Int32 := 0
  deriving DecidableEq, Repr

/-- The value of a signed `int` operation with mathematical result `value`. -/
def signed (value : Int) : Except Fault Int32 :=
  if intMin ≤ value ∧ value ≤ intMax then .ok (Int32.ofInt value)
  else .error .undefinedBehaviour

def plus : Int8 := 43
def minus : Int8 := 45
def times : Int8 := 42
def slash : Int8 := 47
def percent : Int8 := 37

def Cal.execute (req : Request) : Except Fault Response :=
  if req.oper = plus then do
    return { result := ← signed (req.x.toInt + req.y.toInt) }
  else if req.oper = minus then do
    return { result := ← signed (req.x.toInt - req.y.toInt) }
  else if req.oper = times then do
    return { result := ← signed (req.x.toInt * req.y.toInt) }
  else if req.oper = slash then
    if req.y = 0 then
      .ok { code := 1 }
    else do
      return { result := ← signed (req.x.toInt.tdiv req.y.toInt) }
  else if req.oper = percent then
    if req.y = 0 then
      .ok { code := 2 }
    else if req.x.toInt = intMin ∧ req.y.toInt = -1 then
      -- the quotient overflows, and `%` traps together with `/`
      .error .undefinedBehaviour
    else do
      return { result := ← signed (req.x.toInt.tmod req.y.toInt) }
  else
    .ok { code := 3 }

/-! ## Where `Execute` is defined -/

def InInt (value : Int) : Prop := intMin ≤ value ∧ value ≤ intMax

structure Request.Defined (req : Request) : Prop where
  plus : req.oper = plus → InInt (req.x.toInt + req.y.toInt)
  minus : req.oper = minus → InInt (req.x.toInt - req.y.toInt)
  times : req.oper = times → InInt (req.x.toInt * req.y.toInt)
  divides : req.oper = slash ∨ req.oper = percent →
    ¬ (req.x.toInt = intMin ∧ req.y.toInt = -1)

instance (value : Int) : Decidable (InInt value) :=
  inferInstanceAs (Decidable (intMin ≤ value ∧ value ≤ intMax))

instance (req : Request) : Decidable req.Defined :=
  decidable_of_iff
    ((req.oper = plus → InInt (req.x.toInt + req.y.toInt)) ∧
      (req.oper = minus → InInt (req.x.toInt - req.y.toInt)) ∧
      (req.oper = times → InInt (req.x.toInt * req.y.toInt)) ∧
      (req.oper = slash ∨ req.oper = percent →
        ¬ (req.x.toInt = intMin ∧ req.y.toInt = -1)))
    ⟨fun ⟨plus, minus, times, divides⟩ => ⟨plus, minus, times, divides⟩,
      fun ⟨plus, minus, times, divides⟩ => ⟨plus, minus, times, divides⟩⟩

theorem signed_isOk_iff (value : Int) :
    (∃ result, signed value = .ok result) ↔ InInt value := by
  unfold signed InInt
  split
  · rename_i range
    exact ⟨fun _ => range, fun _ => ⟨_, rfl⟩⟩
  · rename_i range
    simp [range]

theorem int32_range (value : Int32) : InInt value.toInt :=
  ⟨value.le_toInt, by have := value.toInt_lt; unfold intMax; omega⟩

/-- A quotient of two `int`s is one, with a single exception. -/
theorem inInt_tdiv {x y : Int} (range : InInt x) (nonzero : y ≠ 0) :
    InInt (x.tdiv y) ↔ ¬ (x = intMin ∧ y = -1) := by
  have size : (x.tdiv y).natAbs = x.natAbs / y.natAbs := Int.natAbs_tdiv x y
  unfold InInt intMin intMax at *
  by_cases unit : y = -1
  · subst unit
    rw [Int.tdiv_neg, Int.tdiv_one]
    omega
  · by_cases one : y = 1
    · subst one
      rw [Int.tdiv_one]
      omega
    · have half : x.natAbs / y.natAbs ≤ x.natAbs / 2 :=
        Nat.div_le_div_left (by omega) (by omega)
      omega

theorem inInt_tmod {x y : Int} (range : InInt x) : InInt (x.tmod y) := by
  have size : (x.tmod y).natAbs = x.natAbs % y.natAbs := Int.natAbs_tmod x y
  have below := Nat.mod_le x.natAbs y.natAbs
  by_cases negative : x < 0
  · have sign := Int.tmod_nonneg y (by omega : 0 ≤ -x)
    rw [Int.neg_tmod] at sign
    unfold InInt intMin intMax at *
    omega
  · have sign := Int.tmod_nonneg y (by omega : 0 ≤ x)
    unfold InInt intMin intMax at *
    omega

theorem response_isOk_iff (value : Int) :
    (∃ resp : Response, (do return { result := ← signed value }) =
      (Except.ok resp : Except Fault Response)) ↔ InInt value := by
  rw [← signed_isOk_iff]
  cases outcome : signed value with
  | error fault => simp [bind, Except.bind]
  | ok result => simp [bind, Except.bind, pure, Except.pure]

theorem operators_differ :
    plus ≠ minus ∧ plus ≠ times ∧ plus ≠ slash ∧ plus ≠ percent ∧
      minus ≠ times ∧ minus ≠ slash ∧ minus ≠ percent ∧
      times ≠ slash ∧ times ≠ percent ∧ slash ≠ percent := by
  decide

theorem execute_isOk_iff (req : Request) :
    (∃ resp, Cal.execute req = .ok resp) ↔ req.Defined := by
  have differ := operators_differ
  have xRange := int32_range req.x
  rw [Cal.execute]
  by_cases isPlus : req.oper = plus
  · rw [if_pos isPlus, response_isOk_iff]
    exact ⟨fun range => ⟨fun _ => range, by simp [isPlus, differ],
      by simp [isPlus, differ], by simp [isPlus, differ]⟩,
      fun defined => defined.plus isPlus⟩
  rw [if_neg isPlus]
  by_cases isMinus : req.oper = minus
  · rw [if_pos isMinus, response_isOk_iff]
    exact ⟨fun range => ⟨fun oper => absurd oper isPlus, fun _ => range,
      by simp [isMinus, differ], by simp [isMinus, differ]⟩,
      fun defined => defined.minus isMinus⟩
  rw [if_neg isMinus]
  by_cases isTimes : req.oper = times
  · rw [if_pos isTimes, response_isOk_iff]
    exact ⟨fun range => ⟨fun oper => absurd oper isPlus,
      fun oper => absurd oper isMinus, fun _ => range,
      by simp [isTimes, differ]⟩,
      fun defined => defined.times isTimes⟩
  rw [if_neg isTimes]
  have divides : req.Defined ↔ (req.oper = slash ∨ req.oper = percent →
      ¬ (req.x.toInt = intMin ∧ req.y.toInt = -1)) :=
    ⟨fun defined => defined.divides, fun safe =>
      ⟨fun oper => absurd oper isPlus, fun oper => absurd oper isMinus,
        fun oper => absurd oper isTimes, safe⟩⟩
  have zero : req.y = 0 ↔ req.y.toInt = 0 := by
    rw [← Int32.toInt_inj]
    rfl
  rw [divides]
  by_cases isSlash : req.oper = slash
  · rw [if_pos isSlash]
    by_cases byZero : req.y = 0
    · simp [byZero]
    · rw [if_neg byZero, response_isOk_iff,
        inInt_tdiv xRange (fun yZero => byZero (zero.mpr yZero))]
      simp [isSlash]
  rw [if_neg isSlash]
  by_cases isPercent : req.oper = percent
  · rw [if_pos isPercent]
    by_cases byZero : req.y = 0
    · simp [byZero]
    · rw [if_neg byZero]
      by_cases traps : req.x.toInt = intMin ∧ req.y.toInt = -1
      · simp [traps, isPercent]
      · rw [if_neg traps, response_isOk_iff]
        exact ⟨fun _ _ => traps, fun _ => inInt_tmod xRange⟩
  · simp [isPercent, isSlash]

/-! ## What `Execute` answers -/

/-- The mathematical result, if the operator has one for the operands. -/
def exactResult (req : Request) : Option Int :=
  if req.oper = plus then some (req.x.toInt + req.y.toInt)
  else if req.oper = minus then some (req.x.toInt - req.y.toInt)
  else if req.oper = times then some (req.x.toInt * req.y.toInt)
  else if req.y = 0 then none
  else if req.oper = slash then some (req.x.toInt.tdiv req.y.toInt)
  else if req.oper = percent then some (req.x.toInt.tmod req.y.toInt)
  else none

/-- No undefined operation is evaluated, and the response has the mathematical result or
a code that says there is none. -/
def AnswersExactly (req : Request) : Prop :=
  ∃ resp, Cal.execute req = .ok resp ∧
    (resp.code = 0 ∧ exactResult req = some resp.result.toInt ∨ resp.code ≠ 0)

theorem toInt_of_signed {value : Int} {result : Int32} (range : signed value = .ok result) :
    result.toInt = value := by
  unfold signed at range
  split at range
  · rename_i inRange
    cases range
    have low : -2 ^ 31 ≤ value := inRange.1
    have high : value < 2 ^ 31 := by
      have bound := inRange.2
      unfold intMax at bound
      omega
    exact Int32.toInt_ofInt_of_le low high
  · cases range

theorem exact_of_response {value : Int} {resp : Response}
    (answered : (do return { result := ← signed value }) =
      (Except.ok resp : Except Fault Response)) :
    resp.code = 0 ∧ resp.result.toInt = value := by
  obtain ⟨result, range, same⟩ := bind_eq_ok.mp answered
  cases same
  exact ⟨rfl, toInt_of_signed range⟩

theorem execute_exact {req : Request} {resp : Response}
    (executed : Cal.execute req = .ok resp) :
    resp.code = 0 ∧ exactResult req = some resp.result.toInt ∨ resp.code ≠ 0 := by
  rw [Cal.execute] at executed
  rw [exactResult]
  by_cases isPlus : req.oper = plus
  · rw [if_pos isPlus] at executed ⊢
    obtain ⟨code, value⟩ := exact_of_response executed
    exact .inl ⟨code, congrArg some value.symm⟩
  rw [if_neg isPlus] at executed ⊢
  by_cases isMinus : req.oper = minus
  · rw [if_pos isMinus] at executed ⊢
    obtain ⟨code, value⟩ := exact_of_response executed
    exact .inl ⟨code, congrArg some value.symm⟩
  rw [if_neg isMinus] at executed ⊢
  by_cases isTimes : req.oper = times
  · rw [if_pos isTimes] at executed ⊢
    obtain ⟨code, value⟩ := exact_of_response executed
    exact .inl ⟨code, congrArg some value.symm⟩
  rw [if_neg isTimes] at executed ⊢
  by_cases byZero : req.y = 0
  · rw [if_pos byZero, if_pos byZero] at executed
    have failed : resp.code ≠ 0 := by
      split at executed
      · cases executed
        decide
      · split at executed
        · cases executed
          decide
        · cases executed
          decide
    exact .inr failed
  rw [if_neg byZero, if_neg byZero] at executed
  rw [if_neg byZero]
  by_cases isSlash : req.oper = slash
  · rw [if_pos isSlash] at executed ⊢
    obtain ⟨code, value⟩ := exact_of_response executed
    exact .inl ⟨code, congrArg some value.symm⟩
  rw [if_neg isSlash] at executed ⊢
  by_cases isPercent : req.oper = percent
  · rw [if_pos isPercent] at executed ⊢
    split at executed
    · cases executed
    · obtain ⟨code, value⟩ := exact_of_response executed
      exact .inl ⟨code, congrArg some value.symm⟩
  · rw [if_neg isPercent] at executed
    cases executed
    exact .inr (by decide)

/-- `Execute` answers a request exactly, and evaluates nothing undefined for it, exactly
if no result leaves the range of `int` and no division traps. -/
theorem answers_exactly_iff (req : Request) : AnswersExactly req ↔ req.Defined := by
  rw [← execute_isOk_iff]
  constructor
  · intro answers
    obtain ⟨resp, executed, -⟩ := answers
    exact ⟨resp, executed⟩
  · intro defined
    obtain ⟨resp, executed⟩ := defined
    exact ⟨resp, executed, execute_exact executed⟩

/-- The largest `int` and one more. -/
theorem largest_plus_one_undefined : ¬ AnswersExactly ⟨Int32.maxValue, 1, plus⟩ := by
  intro answers
  obtain ⟨resp, executed, -⟩ := answers
  have undefined : Cal.execute ⟨Int32.maxValue, 1, plus⟩ = .error .undefinedBehaviour := by
    decide
  rw [undefined] at executed
  cases executed

end LinuxSystemLearning.Calculator
