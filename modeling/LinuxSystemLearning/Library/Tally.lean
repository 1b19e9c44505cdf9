import LinuxSystemLearning.Library.Interleaving

/-!
# Counting the steps of a run

How often a kind of step happened in a run, and how a quantity of the state that goes up with
one kind of step and down with another stands at its end.
-/

set_option autoImplicit false

namespace LinuxSystemLearning.Interleaving

universe u v

variable {State : Type u} {Event : Type v} {step : State → Event → Option State}

/-- The steps of the run that pass the test. -/
def tally (step : State → Event → Option State) (test : State → Event → Bool) :
    State → List Event → Nat
  | _, [] => 0
  | st, event :: events =>
      (if test st event then 1 else 0) +
        match step st event with
        | none => 0
        | some after => tally step test after events

theorem tally_cons {test : State → Event → Bool} {st after : State} {event : Event}
    (stepped : step st event = some after) (events : List Event) :
    tally step test st (event :: events) =
      (if test st event then 1 else 0) + tally step test after events := by
  rw [tally, stepped]

/-- What came in is what went out and what is left. -/
theorem tally_balance {ups downs : State → Event → Bool} (amount : State → Nat)
    (Inv : State → Prop)
    (keeps : ∀ st event after, Inv st → step st event = some after → Inv after)
    (balance : ∀ st event after, Inv st → step st event = some after →
      amount after + (if downs st event then 1 else 0) =
        amount st + if ups st event then 1 else 0)
    {start last : State} {events : List Event} (held : Inv start)
    (ran : play step start events = some last) :
    amount last + tally step downs start events = amount start + tally step ups start events := by
  induction events generalizing start with
  | nil =>
      cases ran
      rfl
  | cons event events ih =>
      obtain ⟨after, stepped, ran⟩ := play_cons.mp ran
      have first := balance start event after held stepped
      have rest := ih (keeps start event after held stepped) ran
      rw [tally_cons stepped, tally_cons stepped]
      omega

theorem tally_of_event {kind : Event → Bool} {start last : State} {events : List Event}
    (ran : play step start events = some last) :
    tally step (fun _ event => kind event) start events = events.countP kind := by
  induction events generalizing start with
  | nil => rfl
  | cons event events ih =>
      obtain ⟨after, stepped, ran⟩ := play_cons.mp ran
      rw [tally_cons stepped, ih ran, List.countP_cons, Nat.add_comm]

end LinuxSystemLearning.Interleaving
