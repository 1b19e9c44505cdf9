import LinuxSystemLearning.Library.Progress

/-!
# The tickets

The threads of `route` sell `ticket` tickets between them.  `LockGuard` has the mutex from the
test to the end of the block, whichever way the block is left: `ticket--` reads and writes the
variable in two steps, and what was printed was read before.
-/

set_option autoImplicit false

namespace LinuxSystemLearning.Tickets

open LinuxSystemLearning.Interleaving

/-- Where a thread is: before the guard, before the test, before `printf`, before the read of
`ticket--`, before its write, before the destructor of the guard on the way back to the guard
or out of the loop, or behind its return. -/
inductive Phase where
  | outside
  | testing
  | selling
  | printed
  | loaded (value : Int)
  | leaving (again : Bool)
  | finished
  deriving DecidableEq

def Phase.inside : Phase → Bool
  | .outside => false
  | .finished => false
  | _ => true

/-- `sold` are the lines of `printf`, by thread and ticket. -/
structure State where
  ticket : Int
  mutex : Option Nat
  threads : List Phase
  sold : List (Nat × Int)

def start (tickets num : Nat) : State := ⟨tickets, none, List.replicate num .outside, []⟩

def State.move (st : State) (i : Nat) (phase : Phase) : State :=
  { st with threads := st.threads.set i phase }

def step (st : State) (i : Nat) : Option State :=
  match st.threads[i]? with
  | none => none
  | some .outside =>
      match st.mutex with
      | none => some { st.move i .testing with mutex := some i }
      | some _ => none
  | some .testing =>
      if 0 < st.ticket then some (st.move i .selling) else some (st.move i (.leaving false))
  | some .selling => some { st.move i .printed with sold := st.sold ++ [(i, st.ticket)] }
  | some .printed => some (st.move i (.loaded st.ticket))
  | some (.loaded value) => some { st.move i (.leaving true) with ticket := value - 1 }
  | some (.leaving again) =>
      some { st.move i (if again then .outside else .finished) with mutex := none }
  | some .finished => none

/-! ## Who is inside and what is sold -/

def countdown (tickets count : Nat) : List Int :=
  (List.range count).map fun k : Nat => (tickets : Int) - (k : Int)

theorem countdown_succ (tickets count : Nat) :
    countdown tickets (count + 1) = countdown tickets count ++ [(tickets : Int) - count] := by
  rw [countdown, List.range_succ, List.map_append]
  rfl

/-- What the one inside knows of the variable when `sold` tickets are printed. -/
def Fits (tickets sold : Nat) (ticket : Int) : Phase → Prop
  | .outside => False
  | .testing => ticket = tickets - sold
  | .selling => ticket = tickets - sold ∧ 0 < ticket
  | .printed => ticket = tickets - sold + 1 ∧ 0 < ticket
  | .loaded value => value = ticket ∧ ticket = tickets - sold + 1 ∧ 0 < ticket
  | .leaving again => ticket = tickets - sold ∧ (again = false → ticket = 0)
  | .finished => False

structure Inv (tickets num : Nat) (st : State) : Prop where
  length : st.threads.length = num
  sold : st.sold.map Prod.snd = countdown tickets st.sold.length
  nonneg : 0 ≤ st.ticket
  owner : ∀ i phase, st.threads[i]? = some phase →
    (phase.inside = true ↔ st.mutex = some i)
  free : st.mutex = none → st.ticket = tickets - st.sold.length
  held : ∀ i, st.mutex = some i → ∃ phase, st.threads[i]? = some phase ∧
    Fits tickets st.sold.length st.ticket phase
  finished : Phase.finished ∈ st.threads → st.ticket = 0

variable {tickets num : Nat} {st after : State} {i : Nat} {phase : Phase}

theorem inv_start : Inv tickets num (start tickets num) where
  length := List.length_replicate
  sold := rfl
  nonneg := Int.natCast_nonneg tickets
  owner i phase found := by
    have isOutside := (List.mem_replicate.mp (List.mem_of_getElem? found)).2
    rw [isOutside]
    exact ⟨fun inside => absurd inside Bool.false_ne_true, fun held => by cases held⟩
  free _ := by simp [start]
  held _ held := by cases held
  finished member := by cases (List.mem_replicate.mp member).2

theorem found_move {j : Nat} {next other : Phase} (here : st.threads[i]? = some phase)
    (found : (st.threads.set i next)[j]? = some other) :
    (j = i ∧ other = next) ∨ (j ≠ i ∧ st.threads[j]? = some other) := by
  by_cases same : i = j
  · subst same
    rw [List.getElem?_set_self (List.getElem?_eq_some_iff.mp here).1] at found
    exact .inl ⟨rfl, (Option.some.inj found).symm⟩
  · rw [List.getElem?_set_ne same] at found
    exact .inr ⟨Ne.symm same, found⟩

theorem Inv.fits (inv : Inv tickets num st) (here : st.threads[i]? = some phase)
    (inside : phase.inside = true) :
    st.mutex = some i ∧ Fits tickets st.sold.length st.ticket phase := by
  have owns := (inv.owner i phase here).mp inside
  obtain ⟨phase', here', fits⟩ := inv.held i owns
  cases here.symm.trans here'
  exact ⟨owns, fits⟩

theorem Inv.inner (inv : Inv tickets num st) (here : st.threads[i]? = some phase)
    (inside : phase.inside = true) {next : Phase} (stays : next.inside = true) {ticket : Int}
    {sold : List (Nat × Int)} (numbers : sold.map Prod.snd = countdown tickets sold.length)
    (nonneg : 0 ≤ ticket) (fits : Fits tickets sold.length ticket next)
    (ended : st.ticket = 0 → ticket = 0) :
    Inv tickets num { st.move i next with ticket := ticket, sold := sold } := by
  have owns := (inv.fits here inside).1
  refine ⟨List.length_set.trans inv.length, numbers, nonneg, ?_, ?_, ?_, ?_⟩
  · intro j other found
    rcases found_move here found with ⟨rfl, rfl⟩ | ⟨-, there⟩
    · exact ⟨fun _ => owns, fun _ => stays⟩
    · exact inv.owner j other there
  · intro free
    have none : st.mutex = none := free
    rw [owns] at none
    cases none
  · intro j held
    cases owns.symm.trans held
    exact ⟨next, List.getElem?_set_self (List.getElem?_eq_some_iff.mp here).1, fits⟩
  · intro member
    rcases List.mem_or_eq_of_mem_set member with before | isNext
    · exact ended (inv.finished before)
    · rw [← isNext] at stays
      cases stays

theorem Inv.leave (inv : Inv tickets num st) {again : Bool}
    (here : st.threads[i]? = some (.leaving again)) :
    Inv tickets num { st.move i (if again then .outside else .finished) with mutex := none } := by
  obtain ⟨owns, balance, last⟩ := inv.fits here rfl
  have leaves : (if again then Phase.outside else .finished).inside = false := by
    cases again <;> rfl
  refine ⟨List.length_set.trans inv.length, inv.sold, inv.nonneg, ?_, fun _ => balance, ?_, ?_⟩
  · intro j other found
    rcases found_move here found with ⟨rfl, rfl⟩ | ⟨different, there⟩
    · rw [leaves]
      exact ⟨fun inside => absurd inside Bool.false_ne_true, fun held => by cases held⟩
    · rw [inv.owner j other there, owns]
      constructor
      · intro same
        exact absurd (Option.some.inj same).symm different
      · intro held
        cases held
  · intro j held
    cases held
  · intro member
    rcases List.mem_or_eq_of_mem_set member with before | isNext
    · exact inv.finished before
    · cases again with
      | false => exact last rfl
      | true => cases isNext

theorem Inv.enter (inv : Inv tickets num st) (here : st.threads[i]? = some .outside)
    (free : st.mutex = none) :
    Inv tickets num { st.move i .testing with mutex := some i } := by
  refine ⟨List.length_set.trans inv.length, inv.sold, inv.nonneg, ?_, fun none => (by cases none),
    ?_, ?_⟩
  · intro j other found
    rcases found_move here found with ⟨rfl, rfl⟩ | ⟨different, there⟩
    · exact ⟨fun _ => rfl, fun _ => rfl⟩
    · rw [inv.owner j other there, free]
      constructor
      · intro held
        cases held
      · intro same
        exact absurd (Option.some.inj same).symm different
  · intro j held
    cases held
    exact ⟨.testing, List.getElem?_set_self (List.getElem?_eq_some_iff.mp here).1, inv.free free⟩
  · intro member
    rcases List.mem_or_eq_of_mem_set member with before | isNext
    · exact inv.finished before
    · cases isNext

theorem Inv.step (inv : Inv tickets num st) (stepped : Tickets.step st i = some after) :
    Inv tickets num after := by
  unfold Tickets.step at stepped
  split at stepped
  · cases stepped
  · rename_i here
    split at stepped
    · rename_i free
      cases stepped
      exact inv.enter here free
    · cases stepped
  · rename_i here
    have balance := (inv.fits here rfl).2
    split at stepped
    · rename_i left
      cases stepped
      exact inv.inner here rfl rfl inv.sold inv.nonneg ⟨balance, left⟩ id
    · rename_i none
      have nonneg := inv.nonneg
      cases stepped
      exact inv.inner here rfl rfl inv.sold inv.nonneg ⟨balance, fun _ => by omega⟩ id
  · rename_i here
    obtain ⟨balance, left⟩ := (inv.fits here rfl).2
    cases stepped
    refine inv.inner here rfl rfl ?_ inv.nonneg ?_ id
    · rw [List.map_append, inv.sold, List.length_append, List.length_singleton,
        countdown_succ, ← balance]
      rfl
    · have balance' : st.ticket = tickets - (st.sold ++ [(i, st.ticket)]).length + 1 := by
        rw [List.length_append, List.length_singleton]
        omega
      exact ⟨balance', left⟩
  · rename_i here
    obtain ⟨balance, left⟩ := (inv.fits here rfl).2
    cases stepped
    exact inv.inner here rfl rfl inv.sold inv.nonneg ⟨rfl, balance, left⟩ id
  · rename_i value here
    obtain ⟨same, balance, left⟩ := (inv.fits here rfl).2
    cases stepped
    have balance' : value - 1 = tickets - st.sold.length := by omega
    exact inv.inner here rfl rfl inv.sold (by omega) ⟨balance', fun again => by cases again⟩
      (by omega)
  · rename_i again here
    cases stepped
    exact inv.leave here
  · cases stepped

theorem reachable_inv (reached : Reachable step (start tickets num) st) : Inv tickets num st :=
  reached.invariant (Inv tickets num) (fun _ _ _ inv stepped => inv.step stepped) inv_start

/-! ## The end -/

def Phase.rank : Phase → Nat
  | .outside => 7
  | .testing => 6
  | .selling => 5
  | .printed => 4
  | .loaded _ => 3
  | .leaving true => 9
  | .leaving false => 1
  | .finished => 0

def work (st : State) : Nat := 10 * st.ticket.toNat + (st.threads.map Phase.rank).sum

theorem rank_move (here : st.threads[i]? = some phase) (next : Phase) :
    ((st.move i next).threads.map Phase.rank).sum + phase.rank =
      (st.threads.map Phase.rank).sum + next.rank :=
  sum_map_set_add Phase.rank here

theorem Inv.work_lt (inv : Inv tickets num st) (stepped : Tickets.step st i = some after) :
    work after < work st := by
  unfold Tickets.step at stepped
  split at stepped
  · cases stepped
  · rename_i here
    have moved := rank_move here .testing
    split at stepped
    · cases stepped
      simp only [work, Phase.rank, State.move] at moved ⊢
      omega
    · cases stepped
  · rename_i here
    split at stepped
    · have moved := rank_move here .selling
      cases stepped
      simp only [work, Phase.rank, State.move] at moved ⊢
      omega
    · have moved := rank_move here (.leaving false)
      cases stepped
      simp only [work, Phase.rank, State.move] at moved ⊢
      omega
  · rename_i here
    have moved := rank_move here .printed
    cases stepped
    simp only [work, Phase.rank, State.move] at moved ⊢
    omega
  · rename_i here
    have moved := rank_move here (.loaded st.ticket)
    cases stepped
    simp only [work, Phase.rank, State.move] at moved ⊢
    omega
  · rename_i value here
    obtain ⟨same, -, left⟩ := (inv.fits here rfl).2
    have moved := rank_move here (.leaving true)
    cases stepped
    simp only [work, Phase.rank, State.move] at moved ⊢
    omega
  · rename_i again here
    have moved := rank_move here (if again then .outside else .finished)
    cases stepped
    cases again with
    | false =>
        simp only [work, Phase.rank, State.move, Bool.false_eq_true, if_false] at moved ⊢
        omega
    | true =>
        simp only [work, Phase.rank, State.move, if_true] at moved ⊢
        omega
  · cases stepped

/-- Whoever is inside can go on, and so can whoever is before a guard that nobody has. -/
theorem Inv.exists_step (inv : Inv tickets num st) (unfinished : ∃ phase ∈ st.threads,
    phase ≠ .finished) : ∃ i after, Tickets.step st i = some after := by
  cases owner : st.mutex with
  | some i =>
      obtain ⟨phase, here, fits⟩ := inv.held i owner
      refine ⟨i, ?_⟩
      unfold Tickets.step
      rw [here]
      cases phase with
      | outside => exact fits.elim
      | finished => exact fits.elim
      | testing =>
          dsimp only
          split
          · exact ⟨_, rfl⟩
          · exact ⟨_, rfl⟩
      | selling => exact ⟨_, rfl⟩
      | printed => exact ⟨_, rfl⟩
      | loaded value => exact ⟨_, rfl⟩
      | leaving again => exact ⟨_, rfl⟩
  | none =>
      obtain ⟨phase, member, up⟩ := unfinished
      obtain ⟨i, inside, here⟩ := List.getElem_of_mem member
      have found := List.getElem?_eq_some_iff.mpr ⟨inside, here⟩
      have notInside : phase.inside ≠ true := by
        intro isInside
        rw [(inv.owner i phase found).mp isInside] at owner
        cases owner
      refine ⟨i, ?_⟩
      unfold Tickets.step
      rw [found, owner]
      cases phase with
      | outside => exact ⟨_, rfl⟩
      | finished => exact absurd rfl up
      | testing => exact absurd rfl notInside
      | selling => exact absurd rfl notInside
      | printed => exact absurd rfl notInside
      | loaded value => exact absurd rfl notInside
      | leaving again => exact absurd rfl notInside

/-- All threads have returned and the tickets are sold, one line for each, from the highest
number down. -/
structure SoldOut (tickets : Nat) (st : State) : Prop where
  returned : ∀ phase ∈ st.threads, phase = .finished
  ticket : st.ticket = 0
  sold : st.sold.map Prod.snd = countdown tickets tickets

theorem Inv.soldOut (inv : Inv tickets num st) (somebody : 0 < num)
    (stuck : ∀ i, Tickets.step st i = none) : SoldOut tickets st := by
  have returned : ∀ phase ∈ st.threads, phase = .finished := by
    by_contra unfinished
    rw [not_forall] at unfinished
    obtain ⟨phase, up⟩ := unfinished
    rw [Classical.not_imp] at up
    obtain ⟨i, after, stepped⟩ := inv.exists_step ⟨phase, up.1, up.2⟩
    rw [stuck i] at stepped
    cases stepped
  have first : 0 < st.threads.length := inv.length.symm ▸ somebody
  have isFinished := returned _ (List.getElem_mem first)
  have zero := inv.finished (isFinished ▸ List.getElem_mem first)
  have free : st.mutex = none := by
    cases owner : st.mutex with
    | none => rfl
    | some i =>
        obtain ⟨phase, here, fits⟩ := inv.held i owner
        rw [returned phase (List.mem_of_getElem? here)] at fits
        exact fits.elim
  have balance := inv.free free
  have all : st.sold.length = tickets := by omega
  exact ⟨returned, zero, all ▸ inv.sold⟩

/-- Whatever the order in which the threads take their steps, at most one is behind the guard,
the tickets are sold one behind the other without a gap or a ticket twice, the threads come to
their ends, and then every ticket is sold. -/
theorem tickets_sold_once (somebody : 0 < num) :
    Completes Tickets.step (SoldOut tickets) (start tickets num) ∧
      ∀ st, Reachable Tickets.step (start tickets num) st →
        st.sold.map Prod.snd = countdown tickets st.sold.length ∧
        st.sold.length ≤ tickets ∧
        ∀ (i j : Nat) (phase other : Phase), st.threads[i]? = some phase →
          st.threads[j]? = some other → phase.inside = true → other.inside = true → i = j := by
  refine ⟨completes_of_work (Inv tickets num) work (fun _ _ _ inv stepped => inv.step stepped)
    (fun _ _ _ inv stepped => inv.work_lt stepped)
    (fun _ inv stuck => inv.soldOut somebody stuck) inv_start, ?_⟩
  intro st reached
  have inv := reachable_inv reached
  refine ⟨inv.sold, ?_, ?_⟩
  · have nonneg := inv.nonneg
    cases owner : st.mutex with
    | none =>
        have balance := inv.free owner
        omega
    | some i =>
        obtain ⟨phase, -, fits⟩ := inv.held i owner
        cases phase with
        | outside => exact fits.elim
        | finished => exact fits.elim
        | testing =>
            have balance : st.ticket = tickets - st.sold.length := fits
            omega
        | selling =>
            have balance := fits.1
            omega
        | printed =>
            have balance := fits.1
            have left := fits.2
            omega
        | loaded value =>
            have balance := fits.2.1
            have left := fits.2.2
            omega
        | leaving again =>
            have balance := fits.1
            omega
  · intro i j phase other here there inside also
    have one := (inv.owner i phase here).mp inside
    rw [(inv.owner j other there).mp also] at one
    exact (Option.some.inj one).symm

/-- Two threads, of which the second waits while the first sells. -/
theorem tickets_sold_once_two : ∃ st : State, st.sold = [(0, 2), (1, 1)] ∧
    st.threads = [.outside, .printed] ∧ st.sold.length ≤ 2 := by
  have reached : Reachable Tickets.step (start 2 2) _ :=
    ⟨[0, 0, 0, 0, 0, 0, 1, 1, 1], rfl⟩
  exact ⟨_, rfl, rfl, ((tickets_sold_once (by decide : 0 < 2)).2 _ reached).2.1⟩

end LinuxSystemLearning.Tickets
