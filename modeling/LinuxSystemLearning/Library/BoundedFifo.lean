import LinuxSystemLearning.Library.Interleaving

/-!
# A bounded queue

What a queue between producers and consumers is for: what is put in comes out in the same
order, and never more is inside than there is room for.
-/

set_option autoImplicit false

namespace LinuxSystemLearning.BoundedFifo

open LinuxSystemLearning.Interleaving

universe u

variable {α : Type u}

/-- What is inside, with what went in and what came out so far. -/
structure Fifo (α : Type u) where
  inside : List α
  putIn : List α
  gotOut : List α

inductive Act (α : Type u) where
  | put (item : α)
  | get

/-- `none` is a queue without a bound. -/
def HasRoom (cap : Option Nat) (fifo : Fifo α) : Prop :=
  ∀ size ∈ cap, fifo.inside.length < size

instance (cap : Option Nat) (fifo : Fifo α) : Decidable (HasRoom cap fifo) :=
  match cap with
  | none => isTrue nofun
  | some size => decidable_of_iff (fifo.inside.length < size) (by simp [HasRoom])

def step (cap : Option Nat) (fifo : Fifo α) : Act α → Option (Fifo α)
  | .put item =>
      if HasRoom cap fifo then
        some { fifo with inside := fifo.inside ++ [item], putIn := fifo.putIn ++ [item] }
      else none
  | .get =>
      match fifo.inside with
      | [] => none
      | item :: rest => some { fifo with inside := rest, gotOut := fifo.gotOut ++ [item] }

def empty : Fifo α := ⟨[], [], []⟩

/-- Nothing is lost, doubled or out of order, and the bound is kept. -/
structure Inv (cap : Option Nat) (fifo : Fifo α) : Prop where
  ordered : fifo.putIn = fifo.gotOut ++ fifo.inside
  bounded : ∀ size ∈ cap, fifo.inside.length ≤ size

variable {cap : Option Nat} {fifo after : Fifo α}

theorem inv_empty : Inv cap (empty : Fifo α) := ⟨rfl, fun _ _ => Nat.zero_le _⟩

theorem Inv.step {act : Act α} (inv : Inv cap fifo)
    (stepped : BoundedFifo.step cap fifo act = some after) : Inv cap after := by
  cases act with
  | put item =>
      rw [BoundedFifo.step] at stepped
      split at stepped
      · rename_i room
        cases stepped
        refine ⟨?_, ?_⟩
        · show fifo.putIn ++ [item] = fifo.gotOut ++ (fifo.inside ++ [item])
          rw [inv.ordered, List.append_assoc]
        · intro size bound
          rw [List.length_append]
          exact room size bound
      · cases stepped
  | get =>
      rw [BoundedFifo.step] at stepped
      split at stepped
      · cases stepped
      · rename_i item rest front
        cases stepped
        refine ⟨?_, ?_⟩
        · show fifo.putIn = (fifo.gotOut ++ [item]) ++ rest
          rw [inv.ordered, front, List.append_assoc, List.singleton_append]
        · intro size bound
          have within := inv.bounded size bound
          rw [front, List.length_cons] at within
          exact Nat.le_of_succ_le within

theorem reachable_inv (reached : Reachable (step cap) empty fifo) : Inv cap fifo :=
  reached.invariant (Inv cap) (fun _ _ _ inv stepped => inv.step stepped) inv_empty

theorem reachable_put (reached : Reachable (step cap) empty fifo) (room : HasRoom cap fifo)
    (item : α) : Reachable (step cap) empty
      ⟨fifo.inside ++ [item], fifo.putIn ++ [item], fifo.gotOut⟩ :=
  reached.trans (.single (show step cap fifo (.put item) = _ by rw [step, if_pos room]))

theorem reachable_get (reached : Reachable (step cap) empty fifo) {item : α} {rest : List α}
    (front : fifo.inside = item :: rest) : Reachable (step cap) empty
      ⟨rest, fifo.putIn, fifo.gotOut ++ [item]⟩ :=
  reached.trans (.single (show step cap fifo .get = _ by rw [step, front]))

end LinuxSystemLearning.BoundedFifo
