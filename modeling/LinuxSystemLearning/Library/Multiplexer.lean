import LinuxSystemLearning.Library.Interleaving
import Mathlib.Data.Finset.Basic

/-!
# What a multiplexing server does

A server waits for several connections at once, and for new ones.  A wait reports some of
those it watches, and whether there is a new one; before the next wait it receives from each
of them, once, and from nobody else, and accepts once if there is.  The state says which
connections are watched, which were accepted and then neither watched nor closed, which are
still due, and whether an accept is; the history is that of the calls.
-/

set_option autoImplicit false

namespace LinuxSystemLearning.Multiplexer

open LinuxSystemLearning.Interleaving

universe u

variable {Conn : Type u}

/-- A wait with what it reports; `missed` is an accept that fails. -/
inductive Call (Conn : Type u) where
  | waited (reported : Finset Conn) (ringing : Bool)
  | accepted (c : Conn)
  | missed
  | received (c : Conn)
  | closed (c : Conn)

/-- `calls` has the last call in front. -/
structure State (Conn : Type u) where
  watched : Finset Conn
  forgotten : Finset Conn
  due : Finset Conn
  ringing : Bool
  calls : List (Call Conn)

inductive Act (Conn : Type u) where
  | wait (reported : Finset Conn) (ringing : Bool)
  /-- Accept a connection and watch it. -/
  | enter (c : Conn)
  /-- Accept a connection and close it. -/
  | refuse (c : Conn)
  /-- Accept a connection and leave it. -/
  | forget (c : Conn)
  | miss
  | receive (c : Conn)
  /-- Receive the end of a connection and close it. -/
  | finish (c : Conn)

variable [DecidableEq Conn]

def State.isOpen (st : State Conn) (c : Conn) : Prop := c ∈ st.watched ∨ c ∈ st.forgotten

instance (st : State Conn) (c : Conn) : Decidable (st.isOpen c) :=
  inferInstanceAs (Decidable (_ ∨ _))

def State.mayAccept (st : State Conn) (c : Conn) : Prop := st.ringing = true ∧ ¬ st.isOpen c

instance (st : State Conn) (c : Conn) : Decidable (st.mayAccept c) :=
  inferInstanceAs (Decidable (_ ∧ _))

def step (st : State Conn) : Act Conn → Option (State Conn)
  | .wait reported ringing =>
      if st.due = ∅ ∧ st.ringing = false ∧ reported ⊆ st.watched then
        some { st with
          due := reported
          ringing := ringing
          calls := .waited reported ringing :: st.calls }
      else none
  | .enter c =>
      if st.mayAccept c then
        some { st with
          watched := insert c st.watched
          ringing := false
          calls := .accepted c :: st.calls }
      else none
  | .refuse c =>
      if st.mayAccept c then
        some { st with ringing := false, calls := .closed c :: .accepted c :: st.calls }
      else none
  | .forget c =>
      if st.mayAccept c then
        some { st with
          forgotten := insert c st.forgotten
          ringing := false
          calls := .accepted c :: st.calls }
      else none
  | .miss =>
      if st.ringing = true then
        some { st with ringing := false, calls := .missed :: st.calls }
      else none
  | .receive c =>
      if c ∈ st.due then
        some { st with due := st.due.erase c, calls := .received c :: st.calls }
      else none
  | .finish c =>
      if c ∈ st.due then
        some { st with
          watched := st.watched.erase c
          due := st.due.erase c
          calls := .closed c :: .received c :: st.calls }
      else none

def start : State Conn := ⟨∅, ∅, ∅, false, []⟩

/-! ## The calls -/

def live : List (Call Conn) → Finset Conn
  | [] => ∅
  | .waited _ _ :: calls => live calls
  | .accepted c :: calls => insert c (live calls)
  | .missed :: calls => live calls
  | .received _ :: calls => live calls
  | .closed c :: calls => (live calls).erase c

def told : List (Call Conn) → Finset Conn
  | [] => ∅
  | .waited reported _ :: _ => reported
  | .accepted _ :: calls => told calls
  | .missed :: calls => told calls
  | .received _ :: calls => told calls
  | .closed _ :: calls => told calls

/-- The connections received from since the last wait. -/
def served : List (Call Conn) → Finset Conn
  | [] => ∅
  | .waited _ _ :: _ => ∅
  | .accepted _ :: calls => served calls
  | .missed :: calls => served calls
  | .received c :: calls => insert c (served calls)
  | .closed _ :: calls => served calls

/-- The last wait reported a new connection, and nobody has called accept since. -/
def rings : List (Call Conn) → Bool
  | [] => false
  | .waited _ ringing :: _ => ringing
  | .accepted _ :: _ => false
  | .missed :: _ => false
  | .received _ :: calls => rings calls
  | .closed _ :: calls => rings calls

/-- Who is waited for is open, and a wait comes when everybody the last one reported was
served.  Accept is called once if the last wait reported a new connection, and gives one that
is not open.  A connection is received from and closed while it is open, and received from
once if the last wait reported it. -/
def Regular : List (Call Conn) → Prop
  | [] => True
  | .waited reported _ :: calls =>
      reported ⊆ live calls ∧ told calls ⊆ served calls ∧ rings calls = false ∧ Regular calls
  | .accepted c :: calls => rings calls = true ∧ c ∉ live calls ∧ Regular calls
  | .missed :: calls => rings calls = true ∧ Regular calls
  | .received c :: calls =>
      c ∈ live calls ∧ c ∈ told calls ∧ c ∉ served calls ∧ Regular calls
  | .closed c :: calls => c ∈ live calls ∧ Regular calls

structure Inv (st : State Conn) : Prop where
  live : ∀ c, c ∈ Multiplexer.live st.calls ↔ st.isOpen c
  apart : ∀ c ∈ st.watched, c ∉ st.forgotten
  due : ∀ c, c ∈ st.due ↔ c ∈ told st.calls ∧ c ∉ served st.calls
  watched : st.due ⊆ st.watched
  ringing : st.ringing = rings st.calls
  regular : Regular st.calls

variable {st after : State Conn} {c : Conn}

theorem inv_start : Inv (start : State Conn) where
  live c := by simp [start, Multiplexer.live, State.isOpen]
  apart c member := by simp [start] at member
  due c := by simp [start, told]
  watched := Finset.Subset.refl _
  ringing := rfl
  regular := trivial

theorem Inv.notMem_live (inv : Inv st) (may : st.mayAccept c) :
    c ∉ Multiplexer.live st.calls :=
  fun isLive => may.2 ((inv.live c).mp isLive)

theorem Inv.wait (inv : Inv st) {reported : Finset Conn} (ringing : Bool)
    (nothing : st.due = ∅) (quiet : st.ringing = false) (part : reported ⊆ st.watched) :
    Inv { st with
      due := reported
      ringing := ringing
      calls := .waited reported ringing :: st.calls } where
  live := inv.live
  apart := inv.apart
  due c := by simp [told, served]
  watched := part
  ringing := rfl
  regular := by
    refine ⟨fun c member => (inv.live c).mpr (.inl (part member)), ?_, inv.ringing ▸ quiet,
      inv.regular⟩
    intro c isTold
    by_contra unserved
    have isDue := (inv.due c).mpr ⟨isTold, unserved⟩
    rw [nothing] at isDue
    exact Finset.notMem_empty c isDue

theorem Inv.enter (inv : Inv st) (may : st.mayAccept c) :
    Inv { st with
      watched := insert c st.watched
      ringing := false
      calls := .accepted c :: st.calls } where
  live other := by
    have before := inv.live other
    simp only [State.isOpen] at before ⊢
    rw [Multiplexer.live, Finset.mem_insert, Finset.mem_insert, before, or_assoc]
  apart other member := by
    rcases Finset.mem_insert.mp member with rfl | before
    · exact fun forgotten => may.2 (.inr forgotten)
    · exact inv.apart other before
  due := inv.due
  watched := inv.watched.trans (Finset.subset_insert c st.watched)
  ringing := rfl
  regular := ⟨inv.ringing ▸ may.1, inv.notMem_live may, inv.regular⟩

theorem Inv.forget (inv : Inv st) (may : st.mayAccept c) :
    Inv { st with
      forgotten := insert c st.forgotten
      ringing := false
      calls := .accepted c :: st.calls } where
  live other := by
    have before := inv.live other
    simp only [State.isOpen] at before ⊢
    rw [Multiplexer.live, Finset.mem_insert, Finset.mem_insert, before, or_left_comm]
  apart other member := by
    rw [Finset.mem_insert, not_or]
    refine ⟨?_, inv.apart other member⟩
    rintro rfl
    exact may.2 (.inl member)
  due := inv.due
  watched := inv.watched
  ringing := rfl
  regular := ⟨inv.ringing ▸ may.1, inv.notMem_live may, inv.regular⟩

theorem Inv.refuse (inv : Inv st) (may : st.mayAccept c) :
    Inv { st with ringing := false, calls := .closed c :: .accepted c :: st.calls } := by
  have same : Multiplexer.live (.closed c :: .accepted c :: st.calls) =
      Multiplexer.live st.calls := Finset.erase_insert (inv.notMem_live may)
  refine ⟨?_, inv.apart, inv.due, inv.watched, rfl, Finset.mem_insert_self c _,
    inv.ringing ▸ may.1, inv.notMem_live may, inv.regular⟩
  intro other
  rw [same]
  exact inv.live other

theorem Inv.miss (inv : Inv st) (ringing : st.ringing = true) :
    Inv { st with ringing := false, calls := .missed :: st.calls } :=
  ⟨inv.live, inv.apart, inv.due, inv.watched, rfl, inv.ringing ▸ ringing, inv.regular⟩

theorem Inv.receive (inv : Inv st) (due : c ∈ st.due) :
    Inv { st with due := st.due.erase c, calls := .received c :: st.calls } where
  live := inv.live
  apart := inv.apart
  due other := by
    rw [Finset.mem_erase, inv.due, served, Finset.mem_insert, not_or, and_left_comm]
    rfl
  watched := (Finset.erase_subset c st.due).trans inv.watched
  ringing := inv.ringing
  regular := by
    obtain ⟨isTold, unserved⟩ := (inv.due c).mp due
    exact ⟨(inv.live c).mpr (.inl (inv.watched due)), isTold, unserved, inv.regular⟩

theorem Inv.finish (inv : Inv st) (due : c ∈ st.due) :
    Inv { st with
      watched := st.watched.erase c
      due := st.due.erase c
      calls := .closed c :: .received c :: st.calls } := by
  have received := inv.receive due
  have watched := inv.watched due
  refine ⟨?_, ?_, received.due, ?_, inv.ringing, (inv.live c).mpr (.inl watched),
    received.regular⟩
  · intro other
    have before := inv.live other
    simp only [State.isOpen] at before ⊢
    rw [Multiplexer.live, Multiplexer.live, Finset.mem_erase, Finset.mem_erase, before]
    constructor
    · rintro ⟨different, isOpen⟩
      exact isOpen.imp_left fun member => ⟨different, member⟩
    · rintro (⟨different, member⟩ | forgotten)
      · exact ⟨different, .inl member⟩
      · refine ⟨?_, .inr forgotten⟩
        rintro rfl
        exact inv.apart other watched forgotten
  · intro other member
    exact inv.apart other (Finset.mem_of_mem_erase member)
  · exact Finset.erase_subset_erase c inv.watched

theorem Inv.step (inv : Inv st) {act : Act Conn}
    (stepped : Multiplexer.step st act = some after) : Inv after := by
  cases act with
  | wait reported ringing =>
      simp only [Multiplexer.step] at stepped
      split at stepped
      · rename_i may
        cases stepped
        exact inv.wait ringing may.1 may.2.1 may.2.2
      · cases stepped
  | enter c =>
      simp only [Multiplexer.step] at stepped
      split at stepped
      · rename_i may
        cases stepped
        exact inv.enter may
      · cases stepped
  | refuse c =>
      simp only [Multiplexer.step] at stepped
      split at stepped
      · rename_i may
        cases stepped
        exact inv.refuse may
      · cases stepped
  | forget c =>
      simp only [Multiplexer.step] at stepped
      split at stepped
      · rename_i may
        cases stepped
        exact inv.forget may
      · cases stepped
  | miss =>
      simp only [Multiplexer.step] at stepped
      split at stepped
      · rename_i ringing
        cases stepped
        exact inv.miss ringing
      · cases stepped
  | receive c =>
      simp only [Multiplexer.step] at stepped
      split at stepped
      · rename_i due
        cases stepped
        exact inv.receive due
      · cases stepped
  | finish c =>
      simp only [Multiplexer.step] at stepped
      split at stepped
      · rename_i due
        cases stepped
        exact inv.finish due
      · cases stepped

theorem inv_play {acts : List (Act Conn)} (ran : play Multiplexer.step start acts = some st) :
    Inv st :=
  Reachable.invariant Inv (fun _ _ _ inv stepped => inv.step stepped) inv_start ⟨acts, ran⟩

end LinuxSystemLearning.Multiplexer
