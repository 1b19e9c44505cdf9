import LinuxSystemLearning.Library.FdTable
import LinuxSystemLearning.Multiplex.Servers

/-!
# The descriptors that `SelectServer` is given

The kernel gives a new connection the lowest number not in use.  The three standard
descriptors are in use, then the listening socket, then the connections in the table:
the table has a slot for each number below `FD_SETSIZE`, but four of the numbers are
taken by what needs one slot.
-/

set_option autoImplicit false

namespace LinuxSystemLearning.SlotTable

open LinuxSystemLearning.FdTable LinuxSystemLearning.Interleaving

def standard : List Nat := [0, 1, 2]

/-- The listening socket is the first to be given a number. -/
def listener : Int := lowest standard

def inUse (calls : List Call) : List Nat := standard ++ (listener :: live calls).map Int.toNat

def newFd (st : State Int (List Int)) : Int := lowest (inUse st.calls)

/-- At the slot of the listening socket, `accept` fails or gives the lowest number. -/
def answered (st : State Int (List Int)) : Event (List Int) → Event (List Int)
  | .wait answer => .wait answer
  | .visit outcome =>
      match current st with
      | some (_, _, slot) =>
          if slot = listener ∧ 0 ≤ outcome then .visit (newFd st) else .visit outcome
      | none => .visit outcome

def stepLowest (st : State Int (List Int)) (event : Event (List Int)) :
    Option (State Int (List Int)) :=
  step select listener st (answered st event)

/-- No descriptor outside the set was given to `FD_SET` or `FD_ISSET`. -/
def Defined (st : State Int (List Int)) : Prop := st.undefined = false

/-- Where a connection is accepted, fewer than 1020 are open. -/
def Few (st : State Int (List Int)) : Event (List Int) → Prop
  | .wait _ => True
  | .visit outcome => ∀ pos ready slot, current st = some (pos, ready, slot) →
      slot = listener → slot ∈ ready → 0 ≤ outcome → (live st.calls).length < 1020

instance decidableFew (st : State Int (List Int)) (event : Event (List Int)) :
    Decidable (Few st event) :=
  match event with
  | .wait _ => isTrue trivial
  | .visit outcome =>
      decidable_of_iff (∀ place ∈ current st, place.2.2 = listener → place.2.2 ∈ place.2.1 →
          0 ≤ outcome → (live st.calls).length < 1020)
        ⟨fun met pos ready slot here => met (pos, ready, slot) here,
          fun met place here => met place.1 place.2.1 place.2.2 here⟩

theorem listener_eq : listener = 3 := by decide

/-! ## The new number -/

variable {st after : State Int (List Int)}

theorem length_inUse (calls : List Call) : (inUse calls).length = (live calls).length + 4 := by
  simp [inUse, standard]

theorem newFd_not_mem (st : State Int (List Int)) : newFd st ∉ listener :: live st.calls := by
  intro member
  have used : (newFd st).toNat ∈ inUse st.calls :=
    List.mem_append_right _ (List.mem_map_of_mem member)
  exact lowest_not_mem _ used

theorem three_le_newFd (st : State Int (List Int)) : 3 ≤ newFd st := by
  have free : lowest (inUse st.calls) ∉ standard := fun member =>
    lowest_not_mem _ (List.mem_append_left _ member)
  simp only [standard, List.mem_cons, List.not_mem_nil, or_false, not_or] at free
  unfold newFd
  omega

theorem newFd_lt (few : (live st.calls).length < 1020) : newFd st < fdSetSize := by
  have least := lowest_le_length (inUse st.calls)
  rw [length_inUse] at least
  unfold newFd fdSetSize
  omega

structure Held (st : State Int (List Int)) : Prop where
  inv : Inv select listener st
  own : ∀ fd ∈ live st.calls, 3 ≤ fd

def Small (st : State Int (List Int)) : Prop := ∀ fd ∈ live st.calls, fd < fdSetSize

theorem held_start : Held (start select listener) where
  inv := inv_start select_lawful (by decide)
  own := fun _ member => absurd member List.not_mem_nil

theorem Held.nodup_inUse (held : Held st) : (inUse st.calls).Nodup := by
  have valid := held.inv.valid
  rw [inUse, List.nodup_append]
  refine ⟨by decide, ?_, ?_⟩
  · refine List.Nodup.map_on ?_ held.inv.distinct
    intro one oneIn two twoIn same
    have oneValid := valid one oneIn
    have twoValid := valid two twoIn
    omega
  · intro low lowIn fd fdIn
    obtain ⟨used, usedIn, rfl⟩ := List.mem_map.mp fdIn
    have below : low < 3 := by
      simp only [standard, List.mem_cons, List.not_mem_nil, or_false] at lowIn
      omega
    rcases List.mem_cons.mp usedIn with rfl | connection
    · rw [listener_eq]
      omega
    · have above := held.own used connection
      omega

theorem Small.inUse (small : Small st) : ∀ fd ∈ SlotTable.inUse st.calls, fd < 1024 := by
  intro fd member
  rcases List.mem_append.mp member with low | high
  · simp only [standard, List.mem_cons, List.not_mem_nil, or_false] at low
    omega
  · obtain ⟨used, usedIn, rfl⟩ := List.mem_map.mp high
    rcases List.mem_cons.mp usedIn with rfl | connection
    · decide
    · have below := small used connection
      unfold fdSetSize at below
      omega

/-- With 1020 connections the numbers of the set are used up. -/
theorem Held.le_newFd (held : Held st) (small : Small st)
    (many : 1020 ≤ (live st.calls).length) : fdSetSize ≤ newFd st := by
  have least := le_lowest held.nodup_inUse small.inUse
    (by rw [length_inUse]; omega)
  unfold newFd fdSetSize
  omega

/-- There are no more connections than numbers, and a slot is free for one more. -/
theorem Held.length_live (held : Held st) (small : Small st) :
    (live st.calls).length ≤ 1020 := by
  have subset : inUse st.calls ⊆ List.range 1024 := fun fd member =>
    List.mem_range.mpr (small.inUse fd member)
  have length := (List.subperm_of_subset held.nodup_inUse subset).length_le
  rw [length_inUse, List.length_range] at length
  omega

/-! ## A step and the connections -/

theorem full_of_place {kind : Kind Int (List Int) (List Int)} {sockfd : Int} {slots : List Int}
    (full : place kind sockfd slots = none) : ∀ slot ∈ slots, kind.fd slot ≠ defaultfd := by
  induction slots with
  | nil => exact fun _ member => absurd member List.not_mem_nil
  | cons slot slots ih =>
      unfold place at full
      split at full
      · cases full
      · rename_i used
        intro other member
        rcases List.mem_cons.mp member with rfl | later
        · exact used
        · exact ih (Option.map_eq_none_iff.mp full) other later

theorem Held.place (held : Held st) (small : Small st) (sockfd : Int) :
    ∃ slots, SlotTable.place select sockfd st.slots = some slots := by
  cases placed : SlotTable.place select sockfd st.slots with
  | some slots => exact ⟨slots, rfl⟩
  | none =>
      have whole : occupied select st.slots = st.slots.map select.fd := by
        rw [occupied, List.filter_eq_self]
        intro fd member
        obtain ⟨slot, slotIn, rfl⟩ := List.mem_map.mp member
        exact decide_eq_true (full_of_place placed slot slotIn)
      have length := held.inv.occupied_slots.length_eq
      rw [whole, List.length_map, held.inv.size, List.length_cons] at length
      have few := held.length_live small
      have size : select.size = 1024 := rfl
      omega

/-- The visit of a slot enters a connection, leaves all as they are, or closes one whose
descriptor was looked up. -/
theorem live_visit {outcome : Int} {pos : Nat} {ready : List Int} {slot : Int}
    (ran : visit select listener outcome pos ready slot st = some after) :
    live after.calls = live st.calls ∨
      (slot = listener ∧ slot ∈ ready ∧ 0 ≤ outcome ∧
        live after.calls = outcome :: live st.calls) ∨
      (slot < fdSetSize ∧ live after.calls = (live st.calls).erase slot) := by
  unfold visit at ran
  split at ran
  · cases ran
    exact Or.inl rfl
  · split at ran
    · cases ran
      exact Or.inl rfl
    · rename_i inRange
      have small : slot < fdSetSize := by
        simp only [select, decide_eq_false_iff_not, not_not] at inRange
        exact inRange.2
      split at ran
      · rename_i isReady
        split at ran
        · rename_i listens
          split at ran
          · cases ran
          · cases ran
            unfold accepter
            split
            · rename_i valid
              split
              · exact Or.inl (List.erase_cons_head ..)
              · exact Or.inr (Or.inl ⟨listens, of_decide_eq_true isReady, valid, rfl⟩)
            · exact Or.inl rfl
        · cases ran
          unfold recver
          split
          · exact Or.inl rfl
          · exact Or.inr (Or.inr ⟨small, rfl⟩)
      · cases ran
        exact Or.inl rfl

theorem live_wait {answer : Option (List Int)}
    (waited : wait select listener answer st = some after) :
    live after.calls = live st.calls := by
  unfold wait at waited
  split at waited
  · cases answer with
    | none =>
        cases waited
        rfl
    | some rfds =>
        dsimp only at waited
        split at waited
        · cases waited
        · cases waited
          rfl
  · cases waited
    rfl

theorem answered_visit {outcome : Int} {pos : Nat} {ready : List Int} {slot : Int}
    (here : current st = some (pos, ready, slot)) :
    answered st (.visit outcome) =
      .visit (if slot = listener ∧ 0 ≤ outcome then newFd st else outcome) := by
  rw [answered, here]
  dsimp only
  split
  · rfl
  · rfl

theorem stepLowest_visit {outcome : Int} {pos : Nat} {ready : List Int} {slot : Int}
    (defined : st.undefined = false) (here : current st = some (pos, ready, slot))
    (visited : visit select listener (if slot = listener ∧ 0 ≤ outcome then newFd st else outcome)
      pos ready slot st = some after) :
    stepLowest st (.visit outcome) = some { after with round := some (pos + 1, ready) } := by
  rw [stepLowest, answered_visit here]
  simp only [step, defined, Bool.false_eq_true, if_false, here, visited, Option.map_some]

theorem live_step {event : Event (List Int)} (stepped : stepLowest st event = some after) :
    live after.calls = live st.calls ∨
      (live after.calls = newFd st :: live st.calls ∧
        ∃ outcome pos ready slot, event = .visit outcome ∧
          current st = some (pos, ready, slot) ∧ slot = listener ∧ slot ∈ ready ∧
          0 ≤ outcome) ∨
      ∃ fd, fd < fdSetSize ∧ live after.calls = (live st.calls).erase fd := by
  cases event with
  | wait answer => exact Or.inl (live_wait (step_wait stepped))
  | visit outcome =>
      cases here : current st with
      | none =>
          have none : answered st (.visit outcome) = .visit outcome := by
            rw [answered, here]
          rw [stepLowest, none] at stepped
          obtain ⟨pos, ready, slot, visited, there, -⟩ := step_visit stepped
          rw [here] at there
          cases there
      | some place =>
          obtain ⟨pos, ready, slot⟩ := place
          rw [stepLowest, answered_visit here] at stepped
          obtain ⟨pos', ready', slot', visited, there, ran, rfl⟩ := step_visit stepped
          rw [here] at there
          cases there
          rcases live_visit ran with same | ⟨listens, isReady, valid, entered⟩ | ⟨small, erased⟩
          · exact Or.inl same
          · right
            left
            by_cases succeeds : 0 ≤ outcome
            · rw [if_pos ⟨listens, succeeds⟩] at entered
              exact ⟨entered, outcome, pos, ready, slot, rfl, rfl, listens, isReady, succeeds⟩
            · rw [if_neg (not_and.mpr fun _ => succeeds)] at valid
              exact absurd valid succeeds
          · exact Or.inr (Or.inr ⟨slot, small, erased⟩)

/-! ## Runs in which few connections are open -/

theorem Held.in_range (held : Held st) (small : Small st) (event : Event (List Int)) :
    InRange select st event := by
  have all : ∀ slot ∈ st.slots, select.fd slot ≠ defaultfd → select.inRange slot = true := by
    intro slot member used
    have inUse : slot ∈ listener :: live st.calls :=
      held.inv.occupied_slots.mem_iff.mp (mem_occupied.mpr ⟨used, slot, member, rfl⟩)
    have valid := held.inv.valid slot inUse
    refine decide_eq_true ⟨valid, ?_⟩
    rcases List.mem_cons.mp inUse with rfl | connection
    · decide
    · exact small slot connection
  cases event with
  | wait answer => exact all
  | visit outcome =>
      intro pos ready slot here used
      exact all slot (List.mem_of_getElem? (current_eq here).2) used

theorem Held.own_step {event : Event (List Int)} (held : Held st)
    (stepped : stepLowest st event = some after) : ∀ fd ∈ live after.calls, 3 ≤ fd := by
  intro fd member
  rcases live_step stepped with same | ⟨entered, -⟩ | ⟨closed, -, erased⟩
  · exact held.own fd (same ▸ member)
  · rw [entered] at member
    rcases List.mem_cons.mp member with rfl | before
    · exact three_le_newFd st
    · exact held.own fd before
  · rw [erased] at member
    exact held.own fd (List.mem_of_mem_erase member)

theorem Held.step {event : Event (List Int)} (held : Held st)
    (inRange : InRange select st (answered st event))
    (stepped : stepLowest st event = some after) : Held after where
  inv := held.inv.step select_lawful inRange stepped
  own := held.own_step stepped

theorem small_step {event : Event (List Int)} (small : Small st) (few : Few st event)
    (stepped : stepLowest st event = some after) : Small after := by
  intro fd member
  rcases live_step stepped with same | ⟨entered, outcome, pos, ready, slot, rfl, here, listens,
    isReady, valid⟩ | ⟨closed, -, erased⟩
  · exact small fd (same ▸ member)
  · rw [entered] at member
    rcases List.mem_cons.mp member with rfl | before
    · exact newFd_lt (few pos ready slot here listens isReady valid)
    · exact small fd before
  · rw [erased] at member
    exact small fd (List.mem_of_mem_erase member)

theorem defined_of_few {events : List (Event (List Int))}
    (few : Throughout stepLowest Few (start select listener) events) :
    Always stepLowest Defined (start select listener) events := by
  refine always_of_throughout (fun st => Held st ∧ Small st) ?_ ?_
    ⟨held_start, fun _ member => absurd member List.not_mem_nil⟩ few
  · exact fun st both => both.1.inv.defined
  · intro st event after both few stepped
    exact ⟨both.1.step (both.1.in_range both.2 _) stepped, small_step both.2 few stepped⟩

/-! ## Runs with a connection too many -/

/-- A connection is open whose descriptor is outside the set, or one was looked up. -/
def Overrun (st : State Int (List Int)) : Prop :=
  st.undefined = true ∨ ∃ fd ∈ live st.calls, fdSetSize ≤ fd

theorem defined_of_step {event : Event (List Int)} (stepped : stepLowest st event = some after) :
    st.undefined = false := by
  by_contra undefined
  rw [Bool.not_eq_false] at undefined
  cases event with
  | wait answer => simp [stepLowest, answered, step, undefined] at stepped
  | visit outcome =>
      unfold stepLowest answered at stepped
      dsimp only at stepped
      split at stepped
      · split at stepped
        · simp [step, undefined] at stepped
        · simp [step, undefined] at stepped
      · simp [step, undefined] at stepped

/-- Where a step is possible, what is known of a state short of undefined behaviour holds. -/
theorem resolve_defined {event : Event (List Int)} {Known : Prop}
    (holds : st.undefined = true ∨ Known) (stepped : stepLowest st event = some after) : Known :=
  holds.resolve_left (Bool.eq_false_iff.mp (defined_of_step stepped))

theorem held_or_undefined_step {event : Event (List Int)}
    (holds : st.undefined = true ∨ Held st) (stepped : stepLowest st event = some after) :
    after.undefined = true ∨ Held after := by
  have held := resolve_defined holds stepped
  by_cases inRange : InRange select st (answered st event)
  · exact Or.inr (held.step inRange stepped)
  · exact Or.inl (undefined_of_not_inRange inRange stepped)

/-- Such a connection is closed only where its descriptor was looked up before. -/
theorem Overrun.step {event : Event (List Int)} (overrun : Overrun st)
    (stepped : stepLowest st event = some after) : Overrun after := by
  obtain ⟨fd, member, beyond⟩ := resolve_defined overrun stepped
  refine Or.inr ⟨fd, ?_, beyond⟩
  rcases live_step stepped with same | ⟨entered, -⟩ | ⟨closed, small, erased⟩
  · exact same.symm ▸ member
  · rw [entered]
    exact List.mem_cons_of_mem _ member
  · have other : fd ≠ closed := by omega
    rw [erased]
    exact (List.mem_erase_of_ne other).mpr member

theorem Held.enters (held : Held st) (small : Small st) {outcome : Int} {pos : Nat}
    {ready : List Int} {slot : Int} (here : current st = some (pos, ready, slot))
    (listens : slot = listener) (isReady : slot ∈ ready) (valid : 0 ≤ outcome) :
    ∃ slots, stepLowest st (.visit outcome) = some { st with
      slots := slots
      round := some (pos + 1, ready)
      calls := .accepted (newFd st) :: st.calls } := by
  obtain ⟨slots, placed⟩ := held.place small (newFd st)
  have positive : 0 ≤ newFd st := Int.le_trans (by decide) (three_le_newFd st)
  have visited : visit select listener
      (if slot = listener ∧ 0 ≤ outcome then newFd st else outcome) pos ready slot st = some
      { st with slots := slots, calls := .accepted (newFd st) :: st.calls } := by
    have fd : select.fd slot = listener := listens
    have used : select.fd slot ≠ defaultfd := by
      rw [fd]
      decide
    have inRange : select.inRange slot = true := by
      rw [listens]
      decide
    have answers : select.isReady ready slot = true := decide_eq_true isReady
    rw [if_pos ⟨listens, valid⟩, visit, if_neg used, if_neg (by simp [inRange]),
      if_pos answers, if_pos fd, if_neg (newFd_not_mem st), accepter, if_pos positive, placed]
  exact ⟨slots, stepLowest_visit held.inv.defined here visited⟩

/-- With 1020 connections the next one is outside the set, and there is a slot for it. -/
theorem overrun_of_not_few {event : Event (List Int)} (holds : st.undefined = true ∨ Held st)
    (many : ¬ Few st event) (stepped : stepLowest st event = some after) : Overrun after := by
  have held := resolve_defined holds stepped
  by_cases small : Small st
  · cases event with
    | wait answer => exact absurd trivial many
    | visit outcome =>
        simp only [Few, not_forall] at many
        obtain ⟨pos, ready, slot, here, listens, isReady, valid, many⟩ := many
        obtain ⟨slots, entered⟩ := held.enters small here listens isReady valid
        rw [entered] at stepped
        cases stepped
        exact Or.inr ⟨newFd st, List.mem_cons_self, held.le_newFd small (Nat.not_lt.mp many)⟩
  · have beyond : ∃ fd ∈ live st.calls, fdSetSize ≤ fd := by
      by_contra none
      apply small
      intro fd member
      by_contra notBelow
      exact none ⟨fd, member, Int.not_lt.mp notBelow⟩
    exact Overrun.step (Or.inr beyond) stepped

/-- The next preparation of the set gives it the descriptor. -/
theorem undefined_of_wait {answer : Option (List Int)} (overrun : Overrun st)
    (holds : st.undefined = true ∨ Held st)
    (stepped : stepLowest st (.wait answer) = some after) : after.undefined = true := by
  have held := resolve_defined holds stepped
  obtain ⟨fd, member, beyond⟩ := resolve_defined overrun stepped
  refine undefined_of_not_inRange ?_ stepped
  intro inRange
  have there : fd ∈ occupied select st.slots :=
    held.inv.occupied_slots.mem_iff.mpr (List.mem_cons_of_mem _ member)
  obtain ⟨used, slot, slotIn, rfl⟩ := mem_occupied.mp there
  have below := of_decide_eq_true (inRange slot slotIn used)
  exact absurd below.2 (Int.not_lt.mpr beyond)

theorem not_always_defined {events : List (Event (List Int))} {last : State Int (List Int)}
    (ran : play stepLowest (start select listener) events = some last)
    (undefined : last.undefined = true) :
    ¬ Always stepLowest Defined (start select listener) events := by
  intro always
  exact Bool.eq_false_iff.mp (always.last ran) undefined

theorem overrun_of_breach {events : List (Event (List Int))} {last : State Int (List Int)}
    (ran : play stepLowest (start select listener) events = some last)
    (breach : ¬ Throughout stepLowest Few (start select listener) events) : Overrun last :=
  bad_of_not_throughout (fun st => st.undefined = true ∨ Held st) Overrun
    (fun _ _ _ holds stepped => held_or_undefined_step holds stepped)
    (fun _ _ _ holds many stepped => overrun_of_not_few holds many stepped)
    (fun _ _ _ overrun stepped => overrun.step stepped) (Or.inr held_start) ran breach

theorem held_or_undefined {events : List (Event (List Int))} {last : State Int (List Int)}
    (ran : play stepLowest (start select listener) events = some last) :
    last.undefined = true ∨ Held last :=
  Reachable.invariant (fun st => st.undefined = true ∨ Held st)
    (fun _ _ _ holds stepped => held_or_undefined_step holds stepped) (Or.inr held_start)
    ⟨events, ran⟩

/-- No descriptor outside the set is looked up in a run in which fewer than 1020
connections are open whenever one is accepted; and in a run with one too many, at the
latest the next `FD_SET` is given it. -/
theorem in_range_of_few {events : List (Event (List Int))} {last : State Int (List Int)}
    (ran : play stepLowest (start select listener) events = some last) :
    (Throughout stepLowest Few (start select listener) events →
      Always stepLowest Defined (start select listener) events) ∧
    ∀ answer after, stepLowest last (.wait answer) = some after →
      (Always stepLowest Defined (start select listener) (events ++ [.wait answer]) ↔
        Throughout stepLowest Few (start select listener) events) := by
  refine ⟨defined_of_few, ?_⟩
  intro answer after stepped
  have ran' : play stepLowest (start select listener) (events ++ [.wait answer]) =
      some after := play_append.mpr ⟨last, ran, play_cons.mpr ⟨after, stepped, rfl⟩⟩
  constructor
  · intro always
    by_contra breach
    have undefined := undefined_of_wait (overrun_of_breach ran breach)
      (held_or_undefined ran) stepped
    exact not_always_defined ran' undefined always
  · intro few
    exact defined_of_few ((throughout_concat ran).mpr ⟨few, trivial⟩)

theorem in_range_of_few_accepted :
    Always stepLowest Defined (start select listener) [.wait (some [3]), .visit 0] := by
  obtain ⟨last, ran⟩ := Option.isSome_iff_exists.mp
    (show (play stepLowest (start select listener) [.wait (some [3]), .visit 0]).isSome = true by
      decide +kernel)
  exact (in_range_of_few ran).1 (by decide +kernel)

/-! ## A run with 1021 clients -/

theorem step_quiet {pos : Nat} {ready : List Int} {slot : Int} (defined : st.undefined = false)
    (here : current st = some (pos, ready, slot))
    (inRange : slot ≠ defaultfd → select.inRange slot = true) (notReady : slot ∉ ready) :
    stepLowest st (.visit (-1)) = some { st with round := some (pos + 1, ready) } := by
  refine stepLowest_visit defined here ?_
  rw [if_neg (by simp), visit]
  by_cases free : select.fd slot = defaultfd
  · rw [if_pos free]
  · have quiet : select.isReady ready slot = false := decide_eq_false notReady
    rw [if_neg free, if_neg (by simp [inRange free]), if_neg (by simp [quiet])]

theorem step_beyond {pos : Nat} {ready : List Int} {slot : Int} (defined : st.undefined = false)
    (here : current st = some (pos, ready, slot)) (used : slot ≠ defaultfd)
    (beyond : select.inRange slot = false) :
    stepLowest st (.visit (-1)) =
      some { st with undefined := true, round := some (pos + 1, ready) } := by
  have visited : visit select listener (if slot = listener ∧ 0 ≤ (-1 : Int) then newFd st else -1)
      pos ready slot st = some { st with undefined := true } := by
    have used' : select.fd slot ≠ defaultfd := used
    rw [if_neg (by simp), visit, if_neg used', if_pos beyond]
  exact stepLowest_visit defined here visited

/-- The rest of the loop, when only the listening socket was reported: it comes to a
descriptor outside the set, or to its end. -/
theorem Held.finish {left pos : Nat} (held : Held st)
    (round : st.round = some (pos + 1, [listener])) (inside : pos + 1 + left = 1024) :
    ∃ count last, play stepLowest st (List.replicate count (.visit (-1))) = some last ∧
      (last.undefined = true ∨
        (Held last ∧ roundOver select last = true ∧ live last.calls = live st.calls)) := by
  induction left generalizing st pos with
  | zero =>
      refine ⟨0, st, rfl, Or.inr ⟨held, ?_, rfl⟩⟩
      have size : select.size = 1024 := rfl
      simp only [roundOver, round, size, beq_iff_eq]
      omega
  | succ left ih =>
      have inSlots : pos + 1 < st.slots.length := by
        have size : st.slots.length = 1024 := held.inv.size
        omega
      have found : st.slots[pos + 1]? = some st.slots[pos + 1] :=
        List.getElem?_eq_getElem inSlots
      have here : current st = some (pos + 1, [listener], st.slots[pos + 1]) := by
        simp only [current, round, found, Option.map_some]
      have client : st.slots[pos + 1] ≠ listener := by
        intro same
        exact absurd ((held.inv.first_iff found).mp same) (Nat.succ_ne_zero pos)
      have notReady : st.slots[pos + 1] ∉ [listener] := by simp [client]
      by_cases inRange : st.slots[pos + 1] ≠ defaultfd → select.inRange st.slots[pos + 1] = true
      · have stepped := step_quiet held.inv.defined here inRange notReady
        have after : Held { st with round := some (pos + 1 + 1, [listener]) } :=
          ⟨held.inv.passed round found (Or.inr (Or.inr (decide_eq_false notReady))), held.own⟩
        obtain ⟨count, last, ran, ends⟩ := ih after rfl (by omega)
        exact ⟨count + 1, last, play_cons.mpr ⟨_, stepped, ran⟩, ends⟩
      · obtain ⟨used, beyond⟩ := not_forall.mp inRange
        rw [Bool.not_eq_true] at beyond
        have stepped := step_beyond held.inv.defined here used beyond
        exact ⟨1, _, play_cons.mpr ⟨_, stepped, rfl⟩, Or.inl rfl⟩

theorem stepLowest_wait (defined : st.undefined = false) (ended : roundOver select st = true)
    (answer : Option (List Int)) :
    stepLowest st (.wait answer) = wait select listener answer st := by
  simp [stepLowest, answered, step, defined, ended]

/-- The listening socket alone is reported, and the connection is entered. -/
theorem Held.begins (held : Held st) (small : Small st) (ended : roundOver select st = true) :
    ∃ last, play stepLowest st [.wait (some [listener]), .visit 0] = some last ∧ Held last ∧
      last.round = some (1, [listener]) ∧ live last.calls = newFd st :: live st.calls := by
  obtain ⟨first, rest, shape, listens, -⟩ := held.inv.table
  have listens : first = listener := listens
  have all := all_in_range.mpr (held.in_range small (.wait (some [listener])))
  have received : select.receive [listener] st.slots = some (st.slots, [listener]) := by
    simp only [select]
    rw [if_pos]
    intro fd member
    rw [List.mem_singleton.mp member, shape, ← listens]
    exact ⟨List.mem_cons_self, by rw [listens]; decide⟩
  obtain ⟨waited, stepped, calls, round, slots⟩ : ∃ waited,
      stepLowest st (.wait (some [listener])) = some waited ∧
        waited.calls = .waited :: st.calls ∧ waited.round = some (0, [listener]) ∧
        waited.slots = st.slots := by
    rw [stepLowest_wait held.inv.defined ended, wait, if_pos all, received]
    exact ⟨_, rfl, rfl, rfl, rfl⟩
  have same : live waited.calls = live st.calls := by rw [calls]; rfl
  have held' : Held waited := held.step (held.in_range small _) stepped
  have small' : Small waited := fun fd member => small fd (same ▸ member)
  have here : current waited = some (0, [listener], first) := by
    simp only [current, round, slots, shape, List.getElem?_cons_zero, Option.map_some]
  obtain ⟨entered, accepted⟩ := held'.enters small' here listens (by simp [listens])
    (Int.le_refl 0)
  refine ⟨_, play_cons.mpr ⟨waited, stepped, play_cons.mpr ⟨_, accepted, rfl⟩⟩, ?_, rfl, ?_⟩
  · exact held'.step (held'.in_range small' _) accepted
  · have new : newFd waited = newFd st := by rw [newFd, newFd, inUse, inUse, same]
    show newFd waited :: live waited.calls = newFd st :: live st.calls
    rw [new, same]

theorem few_replicate (count : Nat) :
    Throughout stepLowest Few st (List.replicate count (.visit (-1))) := by
  induction count generalizing st with
  | zero => exact trivial
  | succ count ih =>
      refine ⟨?_, fun after _ => ih⟩
      intro pos ready slot here listens isReady valid
      cases valid

theorem exists_clients {clients : Nat} (few : clients ≤ 1020) :
    ∃ events last, play stepLowest (start select listener) events = some last ∧ Held last ∧
      Small last ∧ roundOver select last = true ∧ (live last.calls).length = clients := by
  induction clients with
  | zero =>
      exact ⟨[], _, rfl, held_start, fun _ member => absurd member List.not_mem_nil, rfl, rfl⟩
  | succ clients ih =>
      obtain ⟨events, st, ran, held, small, ended, length⟩ := ih (Nat.le_of_succ_le few)
      obtain ⟨middle, began, held', round, entered⟩ := held.begins small ended
      have small' : Small middle := by
        intro fd member
        rw [entered] at member
        rcases List.mem_cons.mp member with rfl | before
        · exact newFd_lt (by omega)
        · exact small fd before
      obtain ⟨count, last, finished, ends⟩ := held'.finish round (by omega : 0 + 1 + 1023 = 1024)
      have both : Held last ∧ Small last :=
        invariant_throughout (fun st => Held st ∧ Small st)
          (fun _ _ _ both few stepped =>
            ⟨both.1.step (both.1.in_range both.2 _) stepped, small_step both.2 few stepped⟩)
          ⟨held', small'⟩ finished (few_replicate count)
      obtain ⟨-, ended', same⟩ :=
        ends.resolve_left (Bool.eq_false_iff.mp both.1.inv.defined)
      refine ⟨events ++ ([.wait (some [listener]), .visit 0] ++
        List.replicate count (.visit (-1))), last, ?_, both.1, both.2, ended', ?_⟩
      · exact play_append.mpr ⟨st, ran, play_append.mpr ⟨middle, began, finished⟩⟩
      · rw [same, entered, List.length_cons, length]

/-- The 1021st client is given the descriptor 1024, and the table has a slot for it. -/
theorem select_looks_beyond_set :
    ∃ events last, play stepLowest (start select listener) events = some last ∧
      ¬ Always stepLowest Defined (start select listener) events := by
  obtain ⟨events, st, ran, held, small, ended, length⟩ := exists_clients (Nat.le_refl 1020)
  obtain ⟨middle, began, held', round, entered⟩ := held.begins small ended
  have overrun : Overrun middle := by
    refine Or.inr ⟨newFd st, ?_, held.le_newFd small (Nat.le_of_eq length.symm)⟩
    rw [entered]
    exact List.mem_cons_self
  obtain ⟨count, last, finished, ends⟩ := held'.finish round (by omega : 0 + 1 + 1023 = 1024)
  have ran' := play_append.mpr ⟨st, ran, play_append.mpr ⟨middle, began, finished⟩⟩
  rcases ends with undefined | ⟨held'', ended', same⟩
  · exact ⟨_, last, ran', not_always_defined ran' undefined⟩
  · obtain ⟨after, stepped⟩ : ∃ after, stepLowest last (.wait none) = some after := by
      rw [stepLowest_wait held''.inv.defined ended', wait]
      split
      · exact ⟨_, rfl⟩
      · exact ⟨_, rfl⟩
    have beyond := overrun.resolve_left (Bool.eq_false_iff.mp held'.inv.defined)
    have overrun' : Overrun last := Or.inr (same ▸ beyond)
    have undefined := undefined_of_wait overrun' (Or.inr held'') stepped
    have ran'' : play stepLowest (start select listener) (_ ++ [.wait none]) = some after :=
      play_append.mpr ⟨last, ran', play_cons.mpr ⟨after, stepped, rfl⟩⟩
    exact ⟨_, after, ran'', not_always_defined ran'' undefined⟩

end LinuxSystemLearning.SlotTable
