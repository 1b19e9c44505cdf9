import LinuxSystemLearning.Library.Interleaving

/-!
# Simulation

A system simulates another one if each step of the latter can be followed by given acts of
it, from a state that stands for the state before to one that stands for the state behind.
Then it can follow a whole run.
-/

set_option autoImplicit false

namespace LinuxSystemLearning.Interleaving

universe u v u' v'

variable {State : Type u} {Event : Type v} {Spec : Type u'} {Act : Type v'}
  {step : State → Event → Option State} {specStep : Spec → Act → Option Spec}

/-- What follows a run, where `acts` says what follows an event. -/
def follow (step : State → Event → Option State) (acts : State → Event → List Act) :
    State → List Event → List Act
  | _, [] => []
  | st, event :: events =>
      match step st event with
      | none => []
      | some after => acts st event ++ follow step acts after events

/-- What holds of the state and of the state that stands for it is kept by a step and the
acts that follow it: so it holds behind a run. -/
theorem exists_play_follow (R : State → Spec → Prop) {cond : State → Event → Prop}
    {acts : State → Event → List Act}
    (follows : ∀ st spec event after, R st spec → cond st event →
      step st event = some after →
        ∃ spec', play specStep spec (acts st event) = some spec' ∧ R after spec')
    {start last : State} {spec : Spec} {events : List Event} (related : R start spec)
    (ran : play step start events = some last)
    (met : Throughout step cond start events) :
    ∃ spec', play specStep spec (follow step acts start events) = some spec' ∧
      R last spec' := by
  induction events generalizing start spec with
  | nil =>
      cases ran
      exact ⟨spec, rfl, related⟩
  | cons event events ih =>
      obtain ⟨after, stepped, ran⟩ := play_cons.mp ran
      obtain ⟨middle, first, related⟩ := follows start spec event after related met.1 stepped
      obtain ⟨final, second, related⟩ := ih related ran (met.2 after stepped)
      refine ⟨final, ?_, related⟩
      rw [follow, stepped]
      exact play_append.mpr ⟨middle, first, second⟩

theorem play_single {st after : State} {event : Event} (stepped : step st event = some after) :
    play step st [event] = some after :=
  play_cons.mpr ⟨after, stepped, rfl⟩

end LinuxSystemLearning.Interleaving
