import Mathlib.Data.List.Basic

/-!
# Runs of a system under every order of events

A system of several threads is a partial step function: an event names the thread
that moves and whatever the scheduler chooses, and `none` says that the event
cannot happen in the state.  A list of events is one interleaving.  The rules
below carry a property of one step to every interleaving, or to those in which
every step meets a condition.
-/

set_option autoImplicit false

namespace LinuxSystemLearning.Interleaving

universe u v

variable {State : Type u} {Event : Type v}

/-- The state behind the events, if each of them can happen where it stands. -/
def play (step : State → Event → Option State) : State → List Event → Option State
  | st, [] => some st
  | st, event :: events =>
      match step st event with
      | none => none
      | some after => play step after events

def Reachable (step : State → Event → Option State) (start st : State) : Prop :=
  ∃ events, play step start events = some st

/-- Every event of the run meets the condition in the state it happens in. -/
def Throughout (step : State → Event → Option State) (cond : State → Event → Prop) :
    State → List Event → Prop
  | _, [] => True
  | st, event :: events =>
      cond st event ∧
        ∀ after, step st event = some after → Throughout step cond after events

def Always (step : State → Event → Option State) (Good : State → Prop) :
    State → List Event → Prop
  | st, [] => Good st
  | st, event :: events =>
      Good st ∧ ∀ after, step st event = some after → Always step Good after events

variable {step : State → Event → Option State} {cond : State → Event → Prop}

theorem play_cons {st last : State} {event : Event} {events : List Event} :
    play step st (event :: events) = some last ↔
      ∃ after, step st event = some after ∧ play step after events = some last := by
  rw [play]
  cases step st event with
  | none =>
      constructor
      · rintro ⟨⟩
      · rintro ⟨after, ⟨⟩, _⟩
  | some after =>
      constructor
      · exact fun ran => ⟨after, rfl, ran⟩
      · rintro ⟨_, ⟨⟩, ran⟩
        exact ran

theorem play_append {st last : State} {front back : List Event} :
    play step st (front ++ back) = some last ↔
      ∃ middle, play step st front = some middle ∧
        play step middle back = some last := by
  induction front generalizing st with
  | nil => simp [play]
  | cons event front ih =>
      rw [List.cons_append, play_cons]
      constructor
      · intro ran
        obtain ⟨after, stepped, ran⟩ := ran
        obtain ⟨middle, first, second⟩ := ih.mp ran
        exact ⟨middle, play_cons.mpr ⟨after, stepped, first⟩, second⟩
      · intro ran
        obtain ⟨middle, first, second⟩ := ran
        obtain ⟨after, stepped, first⟩ := play_cons.mp first
        exact ⟨after, stepped, ih.mpr ⟨middle, first, second⟩⟩

theorem exists_play (total : ∀ st event, ∃ after, step st event = some after) (start : State)
    (events : List Event) : ∃ last, play step start events = some last := by
  induction events generalizing start with
  | nil => exact ⟨start, rfl⟩
  | cons event events ih =>
      obtain ⟨after, stepped⟩ := total start event
      obtain ⟨last, ran⟩ := ih after
      exact ⟨last, play_cons.mpr ⟨after, stepped, ran⟩⟩

theorem Reachable.trans {start middle last : State} (one : Reachable step start middle)
    (two : Reachable step middle last) : Reachable step start last := by
  obtain ⟨front, first⟩ := one
  obtain ⟨back, second⟩ := two
  exact ⟨front ++ back, play_append.mpr ⟨middle, first, second⟩⟩

theorem Reachable.single {st after : State} {event : Event}
    (stepped : step st event = some after) : Reachable step st after :=
  ⟨[event], play_cons.mpr ⟨after, stepped, rfl⟩⟩

/-- What every step that meets the condition keeps, a run that meets it keeps. -/
theorem invariant_throughout (Inv : State → Prop)
    (keeps : ∀ st event after, Inv st → cond st event →
      step st event = some after → Inv after)
    {start last : State} {events : List Event} (held : Inv start)
    (ran : play step start events = some last)
    (met : Throughout step cond start events) : Inv last := by
  induction events generalizing start with
  | nil =>
      cases ran
      exact held
  | cons event events ih =>
      obtain ⟨after, stepped, ran⟩ := play_cons.mp ran
      exact ih (keeps start event after held met.1 stepped) ran (met.2 after stepped)

theorem Reachable.invariant (Inv : State → Prop)
    (keeps : ∀ st event after, Inv st → step st event = some after → Inv after)
    {start last : State} (held : Inv start)
    (reached : Reachable step start last) : Inv last := by
  obtain ⟨events, ran⟩ := reached
  induction events generalizing start with
  | nil =>
      cases ran
      exact held
  | cons event events ih =>
      obtain ⟨after, stepped, ran⟩ := play_cons.mp ran
      exact ih (keeps start event after held stepped) ran

/-- Where each step meets one condition exactly if it meets the other, and such a
step keeps the invariant, a run meets one throughout exactly if it meets the other. -/
theorem throughout_iff {cond' : State → Event → Prop} (Inv : State → Prop)
    (same : ∀ st event, Inv st → (cond st event ↔ cond' st event))
    (keeps : ∀ st event after, Inv st → cond st event →
      step st event = some after → Inv after)
    {start : State} (held : Inv start) (events : List Event) :
    Throughout step cond start events ↔ Throughout step cond' start events := by
  induction events generalizing start with
  | nil => exact Iff.rfl
  | cons event events ih =>
      constructor
      · intro met
        refine ⟨(same start event held).mp met.1, ?_⟩
        intro after stepped
        exact (ih (keeps start event after held met.1 stepped)).mp (met.2 after stepped)
      · intro met
        have first := (same start event held).mpr met.1
        refine ⟨first, ?_⟩
        intro after stepped
        exact (ih (keeps start event after held first stepped)).mpr (met.2 after stepped)

theorem throughout_iff_of_play {cond' : State → Event → Prop} (Inv : State → Prop)
    (same : ∀ st event after, Inv st → step st event = some after →
      (cond st event ↔ cond' st event))
    (keeps : ∀ st event after, Inv st → step st event = some after → Inv after)
    {start last : State} (held : Inv start) {events : List Event}
    (ran : play step start events = some last) :
    Throughout step cond start events ↔ Throughout step cond' start events := by
  induction events generalizing start with
  | nil => exact Iff.rfl
  | cons event events ih =>
      obtain ⟨after, stepped, ran⟩ := play_cons.mp ran
      simp only [Throughout, stepped, Option.some.injEq, forall_eq']
      rw [same start event after held stepped, ih (keeps start event after held stepped) ran]

theorem throughout_cons {start after : State} {event : Event} {events : List Event}
    (stepped : step start event = some after) :
    Throughout step cond start (event :: events) ↔
      cond start event ∧ Throughout step cond after events := by
  simp only [Throughout, stepped, Option.some.injEq, forall_eq']

theorem throughout_concat {start last : State} {event : Event} {events : List Event}
    (ran : play step start events = some last) :
    Throughout step cond start (events ++ [event]) ↔
      Throughout step cond start events ∧ cond last event := by
  induction events generalizing start with
  | nil =>
      cases ran
      simp [Throughout]
  | cons first events ih =>
      obtain ⟨after, stepped, ran⟩ := play_cons.mp ran
      rw [List.cons_append, throughout_cons stepped, throughout_cons stepped, ih ran, and_assoc]

/-- Where a step can happen exactly if it meets the condition, a run can. -/
theorem exists_play_iff (defined : ∀ st event, (∃ after, step st event = some after) ↔
    cond st event) (start : State) (events : List Event) :
    (∃ last, play step start events = some last) ↔ Throughout step cond start events := by
  induction events generalizing start with
  | nil => exact ⟨fun _ => trivial, fun _ => ⟨start, rfl⟩⟩
  | cons event events ih =>
      constructor
      · rintro ⟨last, ran⟩
        obtain ⟨after, stepped, ran⟩ := play_cons.mp ran
        refine ⟨(defined start event).mp ⟨after, stepped⟩, ?_⟩
        intro after' stepped'
        cases stepped.symm.trans stepped'
        exact (ih after).mp ⟨last, ran⟩
      · rintro ⟨met, later⟩
        obtain ⟨after, stepped⟩ := (defined start event).mpr met
        obtain ⟨last, ran⟩ := (ih after).mpr (later after stepped)
        exact ⟨last, play_cons.mpr ⟨after, stepped, ran⟩⟩

theorem throughout_iff_forall_mem {good : Event → Prop} {start last : State}
    {events : List Event} (ran : play step start events = some last) :
    Throughout step (fun _ event => good event) start events ↔
      ∀ event ∈ events, good event := by
  induction events generalizing start with
  | nil => exact ⟨fun _ _ member => absurd member List.not_mem_nil, fun _ => trivial⟩
  | cons event events ih =>
      obtain ⟨after, stepped, ran⟩ := play_cons.mp ran
      rw [throughout_cons stepped, ih ran, List.forall_mem_cons]

instance decidableThroughout [∀ st event, Decidable (cond st event)] (start : State)
    (events : List Event) : Decidable (Throughout step cond start events) :=
  match events with
  | [] => isTrue trivial
  | event :: events =>
      match stepped : step start event with
      | none => decidable_of_iff (cond start event) (by simp [Throughout, stepped])
      | some after =>
          have := decidableThroughout after events
          decidable_of_iff (cond start event ∧ Throughout step cond after events)
            (throughout_cons stepped).symm

theorem throughout_of_forall (all : ∀ st event, cond st event) {start : State}
    (events : List Event) : Throughout step cond start events := by
  induction events generalizing start with
  | nil => exact trivial
  | cons event events ih => exact ⟨all start event, fun after _ => ih⟩

/-- Where a step that meets the condition keeps the invariant and one that fails it
leads to a state that is not good, the states of a run are good exactly if its
steps meet the condition. -/
theorem always_iff_throughout {Good : State → Prop} (Inv : State → Prop)
    (good : ∀ st, Inv st → Good st)
    (keeps : ∀ st event after, Inv st → cond st event →
      step st event = some after → Inv after)
    (breaks : ∀ st event after, Inv st → ¬ cond st event →
      step st event = some after → ¬ Good after)
    {start last : State} {events : List Event} (held : Inv start)
    (ran : play step start events = some last) :
    Always step Good start events ↔ Throughout step cond start events := by
  induction events generalizing start with
  | nil => exact ⟨fun _ => trivial, fun _ => good start held⟩
  | cons event events ih =>
      obtain ⟨after, stepped, ran⟩ := play_cons.mp ran
      simp only [Always, Throughout, stepped, Option.some.injEq, forall_eq']
      by_cases met : cond start event
      · rw [ih (keeps start event after held met stepped) ran]
        exact ⟨fun both => ⟨met, both.2⟩, fun both => ⟨good start held, both.2⟩⟩
      · constructor
        · intro both
          have reached : Good after := by
            cases events with
            | nil => exact both.2
            | cons _ _ => exact both.2.1
          exact absurd reached (breaks start event after held met stepped)
        · exact fun both => absurd both.1 met

theorem always_of_throughout {Good : State → Prop} (Inv : State → Prop)
    (good : ∀ st, Inv st → Good st)
    (keeps : ∀ st event after, Inv st → cond st event →
      step st event = some after → Inv after)
    {start : State} {events : List Event} (held : Inv start)
    (met : Throughout step cond start events) : Always step Good start events := by
  induction events generalizing start with
  | nil => exact good start held
  | cons event events ih =>
      refine ⟨good start held, ?_⟩
      intro after stepped
      exact ih (keeps start event after held met.1 stepped) (met.2 after stepped)

theorem Always.last {Good : State → Prop} {start last : State} {events : List Event}
    (always : Always step Good start events) (ran : play step start events = some last) :
    Good last := by
  induction events generalizing start with
  | nil =>
      cases ran
      exact always
  | cons event events ih =>
      obtain ⟨after, stepped, ran⟩ := play_cons.mp ran
      exact ih (always.2 after stepped) ran

/-- A step that fails the condition leads into `Bad`, and nothing leads out of it:
so a run in which some step failed the condition ends there. -/
theorem bad_of_not_throughout (Inv Bad : State → Prop)
    (keeps : ∀ st event after, Inv st → step st event = some after → Inv after)
    (enters : ∀ st event after, Inv st → ¬ cond st event →
      step st event = some after → Bad after)
    (stays : ∀ st event after, Bad st → step st event = some after → Bad after)
    {start last : State} {events : List Event} (held : Inv start)
    (ran : play step start events = some last)
    (breach : ¬ Throughout step cond start events) : Bad last := by
  induction events generalizing start with
  | nil => exact absurd trivial breach
  | cons event events ih =>
      obtain ⟨after, stepped, ran⟩ := play_cons.mp ran
      by_cases met : cond start event
      · apply ih (keeps start event after held stepped) ran
        intro rest
        apply breach
        refine ⟨met, ?_⟩
        intro after' stepped'
        rw [stepped] at stepped'
        cases stepped'
        exact rest
      · have bad := enters start event after held met stepped
        exact Reachable.invariant Bad stays bad ⟨events, ran⟩

/-! ## Runs that come to an end -/

/-- No run from the state goes on for ever, and it stops only where it is done. -/
def Completes (step : State → Event → Option State) (Done : State → Prop) (st : State) : Prop :=
  ∃ bound, ∀ events last, play step st events = some last →
    events.length ≤ bound ∧ ((∀ event, step last event = none) → Done last)

/-- Each step uses up some of the work that is left. -/
theorem length_add_work_le (Inv : State → Prop) (work : State → Nat)
    (keeps : ∀ st event after, Inv st → step st event = some after → Inv after)
    (drops : ∀ st event after, Inv st → step st event = some after → work after < work st)
    {start last : State} {events : List Event} (held : Inv start)
    (ran : play step start events = some last) : events.length + work last ≤ work start := by
  induction events generalizing start with
  | nil =>
      cases ran
      simp
  | cons event events ih =>
      obtain ⟨after, stepped, ran⟩ := play_cons.mp ran
      have rest := ih (keeps start event after held stepped) ran
      have less := drops start event after held stepped
      rw [List.length_cons]
      omega

theorem completes_of_work {Done : State → Prop} (Inv : State → Prop) (work : State → Nat)
    (keeps : ∀ st event after, Inv st → step st event = some after → Inv after)
    (drops : ∀ st event after, Inv st → step st event = some after → work after < work st)
    (stuck : ∀ st, Inv st → (∀ event, step st event = none) → Done st)
    {st : State} (held : Inv st) : Completes step Done st := by
  refine ⟨work st, ?_⟩
  intro events last ran
  have spent := length_add_work_le Inv work keeps drops held ran
  refine ⟨by omega, ?_⟩
  exact stuck last (Reachable.invariant Inv keeps held ⟨events, ran⟩)

end LinuxSystemLearning.Interleaving
