import Mathlib.Data.Nat.Init

/-!
# Loops as iterated step functions

The body of a `while (true)` loop is a function from the state at the loop head
to either the state at the next loop head or the result the loop is left with.
`run` executes such a body with a bound on the number of iterations, `Ends` is
the same execution without a bound, and the rules below are the ones a proof
about a loop needs: an invariant, a measure for termination, and an invariant
that never leaves the loop for divergence.
-/

set_option autoImplicit false

namespace LinuxSystemLearning.Loop

universe u v

variable {State : Type u} {Result : Type v}

inductive Step (State : Type u) (Result : Type v) where
  | next (state : State)
  | stop (result : Result)

/-- At most `fuel` iterations; `none` when the loop is still running then. -/
def run (body : State → Step State Result) : Nat → State → Option Result
  | 0, _ => none
  | fuel + 1, state =>
      match body state with
      | .next after => run body fuel after
      | .stop result => some result

/-- The loop entered in `state` is left with `result`. -/
inductive Ends (body : State → Step State Result) : State → Result → Prop where
  | stop {state : State} {result : Result}
      (left : body state = .stop result) : Ends body state result
  | next {state after : State} {result : Result}
      (again : body state = .next after)
      (rest : Ends body after result) : Ends body state result

/-- The states that stand at the loop head, from the one the loop is entered in. -/
inductive Visits (body : State → Step State Result) (start : State) :
    State → Prop where
  | entry : Visits body start start
  | next {state after : State} (before : Visits body start state)
      (again : body state = .next after) : Visits body start after

theorem ends_of_run (body : State → Step State Result) (fuel : Nat)
    (state : State) (result : Result)
    (done : run body fuel state = some result) : Ends body state result := by
  induction fuel generalizing state with
  | zero => simp [run] at done
  | succ fuel ih =>
      cases step : body state with
      | next after =>
          simp only [run, step] at done
          exact .next step (ih after done)
      | stop value =>
          simp only [run, step, Option.some.injEq] at done
          subst value
          exact .stop step

theorem Ends.exists_run {body : State → Step State Result} {state : State}
    {result : Result} (ends : Ends body state result) :
    ∃ fuel, run body fuel state = some result := by
  induction ends with
  | stop left => exact ⟨1, by simp [run, left]⟩
  | next again _ ih =>
      obtain ⟨fuel, done⟩ := ih
      exact ⟨fuel + 1, by simp [run, again, done]⟩

theorem Ends.unique {body : State → Step State Result} {state : State}
    {first second : Result} (one : Ends body state first)
    (two : Ends body state second) : first = second := by
  induction one with
  | stop left =>
      cases two with
      | stop left' => simpa using left.symm.trans left'
      | next again' _ => simp [left] at again'
  | next again _ ih =>
      cases two with
      | stop left' => simp [again] at left'
      | next again' rest' =>
          have same := again.symm.trans again'
          simp only [Step.next.injEq] at same
          subst same
          exact ih rest'

/-- The loop is left from a state the invariant holds of. -/
theorem Ends.invariant {body : State → Step State Result}
    (Inv : State → Prop)
    (keeps : ∀ state after, Inv state → body state = .next after → Inv after)
    {state : State} {result : Result} (ends : Ends body state result)
    (start : Inv state) :
    ∃ last, Inv last ∧ body last = .stop result := by
  induction ends with
  | stop left => exact ⟨_, start, left⟩
  | next again _ ih => exact ih (keeps _ _ start again)

theorem ends_of_measure {body : State → Step State Result}
    (Inv : State → Prop) (measure : State → Nat)
    (keeps : ∀ state after, Inv state → body state = .next after →
      Inv after ∧ measure after < measure state)
    (state : State) (start : Inv state) :
    ∃ result, Ends body state result := by
  induction size : measure state using Nat.strong_induction_on
    generalizing state with
  | _ size ih =>
      cases step : body state with
      | stop result => exact ⟨result, .stop step⟩
      | next after =>
          obtain ⟨kept, smaller⟩ := keeps state after start step
          obtain ⟨result, ends⟩ := ih (measure after) (size ▸ smaller) after
            kept rfl
          exact ⟨result, .next step ends⟩

/-- A loop whose every iteration leads back into the invariant is never left. -/
theorem not_ends_of_invariant {body : State → Step State Result}
    (Inv : State → Prop)
    (again : ∀ state, Inv state → ∃ after, body state = .next after ∧ Inv after)
    {state : State} (start : Inv state) (result : Result) :
    ¬ Ends body state result := by
  intro ends
  obtain ⟨last, kept, left⟩ := ends.invariant Inv (by
    intro before after held step
    obtain ⟨after', step', held'⟩ := again before held
    have same := step.symm.trans step'
    simp only [Step.next.injEq] at same
    exact same ▸ held') start
  obtain ⟨after, step, -⟩ := again last kept
  simp [left] at step

/-- Iterations counted from the entry: as long as none of the first `count` leaves
the loop, the loop head is visited once more. -/
theorem visits_of_steps {body : State → Step State Result}
    (Inv : Nat → State → Prop) (count : Nat)
    (steps : ∀ i state, i < count → Inv i state →
      ∃ after, body state = .next after ∧ Inv (i + 1) after)
    {start : State} (entry : Inv 0 start) :
    ∃ last, Visits body start last ∧ Inv count last := by
  induction count with
  | zero => exact ⟨start, .entry, entry⟩
  | succ count ih =>
      have earlier := ih fun i state small => steps i state (Nat.lt_succ_of_lt small)
      obtain ⟨last, visits, held⟩ := earlier
      obtain ⟨after, again, next⟩ := steps count last (Nat.lt_succ_self _) held
      exact ⟨after, .next visits again, next⟩

theorem Visits.behind {body : State → Step State Result} {first second state : State}
    (again : body first = .next second) (visits : Visits body second state) :
    Visits body first state := by
  induction visits with
  | entry => exact .next .entry again
  | next _ again' ih => exact .next ih again'

theorem Visits.ends_iff {body : State → Step State Result}
    {start state : State} (visits : Visits body start state)
    (result : Result) : Ends body start result ↔ Ends body state result := by
  induction visits with
  | entry => exact Iff.rfl
  | next before again ih =>
      rw [ih]
      constructor
      · intro ends
        cases ends with
        | stop left => simp [again] at left
        | next again' rest =>
            have same := again.symm.trans again'
            simp only [Step.next.injEq] at same
            exact same ▸ rest
      · exact fun rest => .next again rest

theorem ends_iff_of_next {body : State → Step State Result} {state after : State}
    (again : body state = .next after) (result : Result) :
    Ends body state result ↔ Ends body after result :=
  (Visits.next .entry again).ends_iff result

theorem ends_iff_of_stop {body : State → Step State Result} {state : State}
    {left : Result} (stops : body state = .stop left) (result : Result) :
    Ends body state result ↔ result = left := by
  constructor
  · exact fun ends => ends.unique (.stop stops)
  · rintro rfl
    exact .stop stops

end LinuxSystemLearning.Loop
