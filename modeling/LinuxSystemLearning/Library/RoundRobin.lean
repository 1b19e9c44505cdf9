import Mathlib.Data.Int.CardIntervalMod
import Mathlib.Data.List.Infix

/-!
# Places taken in turn

`n` places, each of which is followed by the next and the last by the first.  However long
a part of such a sequence is, no place is in it more than once more often than another.
-/

set_option autoImplicit false

namespace LinuxSystemLearning.RoundRobin

structure InTurn (n : Nat) (places : List Nat) : Prop where
  bounded : ∀ place ∈ places, place < n
  follows : places.IsChain fun place next => next = (place + 1) % n

/-- In every part of the sequence the places are taken equally often, but for one time. -/
def Balanced (n : Nat) (places : List Nat) : Prop :=
  ∀ window, window <:+: places → ∀ i < n, ∀ j < n, window.count i ≤ window.count j + 1

variable {n place : Nat} {places window : List Nat}

theorem inTurn_singleton (bounded : place < n) : InTurn n [place] := by
  refine ⟨?_, List.isChain_singleton place⟩
  intro other member
  rw [List.mem_singleton.mp member]
  exact bounded

theorem InTurn.concat (inTurn : InTurn n (places ++ [place])) :
    InTurn n (places ++ [place] ++ [(place + 1) % n]) := by
  have bounded : place < n := inTurn.bounded place (List.mem_append_right _ List.mem_cons_self)
  have positive : 0 < n := Nat.lt_of_le_of_lt (Nat.zero_le place) bounded
  constructor
  · intro other member
    rcases List.mem_append.mp member with before | new
    · exact inTurn.bounded other before
    · rw [List.mem_singleton.mp new]
      exact Nat.mod_lt _ positive
  · refine List.isChain_append.mpr ⟨inTurn.follows, List.isChain_singleton _, ?_⟩
    intro last isLast next isNext
    rw [List.getLast?_concat, Option.mem_some_iff] at isLast
    rw [List.head?_cons, Option.mem_some_iff] at isNext
    rw [← isLast, ← isNext]

theorem InTurn.part (inTurn : InTurn n places) (inside : window <:+: places) :
    InTurn n window :=
  ⟨fun place member => inTurn.bounded place (inside.mem member), inTurn.follows.infix inside⟩

/-- The places are those of a clock that was set to the first of them. -/
theorem InTurn.eq_map (inTurn : InTurn n (place :: places)) :
    place :: places = (List.range (places.length + 1)).map fun k => (place + k) % n := by
  induction places generalizing place with
  | nil =>
      have bounded : place < n := inTurn.bounded place List.mem_cons_self
      simp [Nat.mod_eq_of_lt bounded]
  | cons next places ih =>
      have bounded : place < n := inTurn.bounded place List.mem_cons_self
      obtain ⟨follows, later⟩ := List.isChain_cons_cons.mp inTurn.follows
      have rest : InTurn n (next :: places) :=
        ⟨fun other member => inTurn.bounded other (List.mem_cons_of_mem _ member), later⟩
      have clock : (List.range (places.length + 1)).map (fun k => (next + k) % n) =
          (List.range (places.length + 1)).map ((fun k => (place + k) % n) ∘ Nat.succ) := by
        apply List.map_congr_left
        intro k _
        rw [follows, Nat.mod_add_mod, Function.comp_apply, Nat.succ_eq_add_one, Nat.add_assoc,
          Nat.add_comm 1 k]
      rw [List.length_cons, List.range_succ_eq_map, List.map_cons, List.map_map, Nat.add_zero,
        Nat.mod_eq_of_lt bounded, ← clock, ← ih rest]

theorem countP_range (p : Nat → Prop) [DecidablePred p] (m : Nat) :
    (List.range m).countP (fun k => decide (p k)) = Nat.count p m := by
  induction m with
  | zero => rfl
  | succ m ih => simp [List.range_succ, Nat.count_succ, ih]

theorem mod_eq_iff {first i : Nat} (inside : first < n) (bounded : i < n) (k : Nat) :
    (first + k) % n = i ↔ k ≡ i + (n - first) [MOD n] := by
  have whole : first + (i + (n - first)) = i + n := by omega
  have around : first + (i + (n - first)) ≡ i [MOD n] := by
    rw [whole, Nat.ModEq, Nat.add_mod_right]
  constructor
  · intro here
    have same : first + k ≡ i [MOD n] := here.trans (Nat.mod_eq_of_lt bounded).symm
    exact Nat.ModEq.add_left_cancel' first (same.trans around.symm)
  · intro turns
    have same : first + k ≡ i [MOD n] := (turns.add_left first).trans around
    exact Eq.trans same (Nat.mod_eq_of_lt bounded)

theorem InTurn.count (inTurn : InTurn n places) {i : Nat} (bounded : i < n) :
    places.length / n ≤ places.count i ∧ places.count i ≤ places.length / n + 1 := by
  cases places with
  | nil => simp
  | cons first rest =>
      have inside : first < n := inTurn.bounded first List.mem_cons_self
      have positive : 0 < n := Nat.lt_of_le_of_lt (Nat.zero_le i) bounded
      have turns : (first :: rest).count i =
          Nat.count (fun k => k ≡ i + (n - first) [MOD n]) (rest.length + 1) := by
        rw [inTurn.eq_map, List.count, List.countP_map, ← countP_range]
        apply List.countP_congr
        intro k _
        simp [mod_eq_iff inside bounded]
      rw [turns, Nat.count_modEq_card _ positive, List.length_cons]
      split
      · exact ⟨Nat.le_succ _, Nat.le_refl _⟩
      · exact ⟨Nat.le_refl _, Nat.le_succ _⟩

theorem InTurn.balanced (inTurn : InTurn n places) : Balanced n places := by
  intro window inside i bounded j bounded'
  have most := ((inTurn.part inside).count bounded).2
  have least := ((inTurn.part inside).count bounded').1
  omega

end LinuxSystemLearning.RoundRobin
