import LinuxSystemLearning.Library.Waiting

/-!
# A section behind a semaphore and a mutex

Threads that pass a semaphore, take a mutex, use the slot of a circular array an index
points to, move the index on, give the mutex back and post another semaphore.  Every
one of these is a step of its own, and any number of threads take them in any order.

`Side` is one group of such threads.  `Side.Inv` relates the index to the number of
slots used so far; `Side.next_spec` says what one step of a thread does to it, and to
the tokens that are on their way from the one semaphore to the other.
-/

set_option autoImplicit false

namespace LinuxSystemLearning.Turnstile

open LinuxSystemLearning.Waiting (countP_set)

universe u v

/-- Where a thread stands: outside, behind the semaphore, with the mutex, behind the use
of a slot, behind the update of the index, behind the release of the mutex. -/
inductive Call (α : Type u) (β : Type v) where
  | outside
  | admitted (arg : α)
  | locked (arg : α)
  | accessed (slot : Nat) (result : β)
  | advanced (slot : Nat) (result : β)
  | left (result : β)

variable {α : Type u} {β : Type v}

namespace Call

/-- Has a token of the first semaphore and has not used a slot for it. -/
def isPending : Call α β → Bool
  | .admitted _ => true
  | .locked _ => true
  | _ => false

/-- Has used a slot and has not posted the second semaphore for it. -/
def isPosting : Call α β → Bool
  | .accessed _ _ => true
  | .advanced _ _ => true
  | .left _ => true
  | _ => false

def isInside : Call α β → Bool
  | .locked _ => true
  | .accessed _ _ => true
  | .advanced _ _ => true
  | _ => false

def isAccessed : Call α β → Bool
  | .accessed _ _ => true
  | _ => false

/-- The slot that was used in the section the thread is in. -/
def used : Call α β → Option Nat
  | .accessed slot _ => some slot
  | .advanced slot _ => some slot
  | _ => none

end Call

structure Side (α : Type u) (β : Type v) where
  index : Nat
  busy : Bool
  calls : List (Call α β)

/-- What a step does outside the group: nothing, the use of the slot, or the post. -/
inductive Effect (α : Type u) where
  | silent
  | access (arg : α)
  | post

namespace Side

def start (num : Nat) : Side α β := ⟨0, false, List.replicate num .outside⟩

def move (side : Side α β) (i : Nat) (call : Call α β) : Side α β :=
  { side with calls := side.calls.set i call }

def enter (side : Side α β) (i : Nat) (arg : α) : Option (Side α β) :=
  match side.calls[i]? with
  | some .outside => some (side.move i (.admitted arg))
  | _ => none

/-- The next step of the thread `i`; `use` is what it gets out of a slot. -/
def next (cap : Nat) (use : Nat → α → β) (side : Side α β) (i : Nat) :
    Option (Side α β × Effect α) :=
  match side.calls[i]? with
  | some (.admitted arg) =>
      if side.busy then none
      else some ({ side.move i (.locked arg) with busy := true }, .silent)
  | some (.locked arg) =>
      some (side.move i (.accessed side.index (use side.index arg)), .access arg)
  | some (.accessed slot result) =>
      some ({ side.move i (.advanced slot result) with
        index := (side.index + 1) % cap }, .silent)
  | some (.advanced _ result) =>
      some ({ side.move i (.left result) with busy := false }, .silent)
  | some (.left _) => some (side.move i .outside, .post)
  | _ => none

def pending (side : Side α β) : Nat := side.calls.countP Call.isPending

def posting (side : Side α β) : Nat := side.calls.countP Call.isPosting

/-- The slot the section of the thread `i` uses, if the thread is in it. -/
def touches (side : Side α β) (i : Nat) : Option Nat :=
  match side.calls[i]? with
  | some (.locked _) => some side.index
  | some (.accessed slot _) => some slot
  | some (.advanced slot _) => some slot
  | _ => none

/-- `count` slots have been used so far. -/
structure Inv (cap count : Nat) (side : Side α β) : Prop where
  alone : side.calls.countP Call.isInside = side.busy.toNat
  inRange : side.index < cap
  index : (side.index + side.calls.countP Call.isAccessed) % cap = count % cap
  used : ∀ (i : Nat) (call : Call α β) (slot : Nat), side.calls[i]? = some call →
    call.used = some slot →
    0 < count ∧ slot = (count - 1) % cap

variable {cap count : Nat} {side after : Side α β} {i : Nat}

/-! ## One in the section -/

theorem countP_pos_of_found {γ : Type u} {test : γ → Bool} {calls : List γ} {j : Nat}
    {call : γ} (found : calls[j]? = some call) (holds : test call = true) :
    0 < calls.countP test :=
  List.countP_pos_iff.mpr ⟨call, List.mem_of_getElem? found, holds⟩

theorem Inv.eq_of_inside (inv : Inv cap count side) {j : Nat} {call call' : Call α β}
    (found : side.calls[i]? = some call) (inside : call.isInside = true)
    (found' : side.calls[j]? = some call') (inside' : call'.isInside = true) : i = j := by
  by_contra different
  -- with the one of them taken out, the other one is still counted
  have fewer := countP_set Call.isInside found (.outside : Call α β)
  have still : (side.calls.set i .outside)[j]? = some call' := by
    rw [List.getElem?_set_ne different]
    exact found'
  have more := countP_pos_of_found still inside'
  have one := Bool.toNat_le side.busy
  rw [inside, inv.alone] at fewer
  have outside : (Call.outside : Call α β).isInside = false := rfl
  rw [outside] at fewer
  simp only [Bool.toNat_true, Bool.toNat_false] at fewer
  omega

theorem accessed_eq_zero
    (nobody : ∀ (j : Nat) (call : Call α β), side.calls[j]? = some call → call.used = none) :
    side.calls.countP Call.isAccessed = 0 := by
  rw [List.countP_eq_zero]
  intro call member accessed
  obtain ⟨j, found⟩ := List.getElem?_of_mem member
  have used := nobody j call found
  cases call with
  | accessed _ _ => cases used
  | _ => cases accessed

theorem inside_of_used {call : Call α β} {slot : Nat} (used : call.used = some slot) :
    call.isInside = true := by
  cases call with
  | accessed _ _ => rfl
  | advanced _ _ => rfl
  | _ => cases used

theorem Inv.index_of_locked (inv : Inv cap count side) {arg : α}
    (found : side.calls[i]? = some (.locked arg)) : side.index = count % cap := by
  have nobody := accessed_eq_zero (by
    intro j call found'
    cases used : call.used with
    | none => rfl
    | some slot =>
        have same := inv.eq_of_inside found rfl found' (inside_of_used used)
        rw [← same, found] at found'
        cases found'
        cases used)
  have index := inv.index
  rw [nobody, Nat.add_zero, Nat.mod_eq_of_lt inv.inRange] at index
  exact index

/-! ## What a step does -/

/-- A thread moves; what it and the others have used fits the new count. -/
theorem used_of_move {now : Nat} {call : Call α β}
    (mine : ∀ slot, call.used = some slot → 0 < now ∧ slot = (now - 1) % cap)
    (others : ∀ (j : Nat) (call' : Call α β) (slot : Nat), i ≠ j →
      side.calls[j]? = some call' → call'.used = some slot →
        0 < now ∧ slot = (now - 1) % cap)
    (j : Nat) (call' : Call α β) (slot : Nat)
    (found : (side.calls.set i call)[j]? = some call') (used : call'.used = some slot) :
    0 < now ∧ slot = (now - 1) % cap := by
  rw [List.getElem?_set] at found
  split at found
  · split at found
    · cases found
      exact mine slot used
    · cases found
  · rename_i different
    exact others j call' slot different found used

theorem Inv.used_of_unused (inv : Inv cap count side) {call : Call α β}
    (unused : call.used = none) (j : Nat) (call' : Call α β) (slot : Nat)
    (found : (side.calls.set i call)[j]? = some call') (used : call'.used = some slot) :
    0 < count ∧ slot = (count - 1) % cap := by
  refine used_of_move ?_ ?_ j call' slot found used
  · intro slot used
    rw [unused] at used
    cases used
  · exact fun j call slot _ => inv.used j call slot

theorem Inv.enter_spec (inv : Inv cap count side) {arg : α}
    (entered : side.enter i arg = some after) :
    Inv cap count after ∧ after.pending = side.pending + 1 ∧
      after.posting = side.posting := by
  unfold enter at entered
  split at entered
  · rename_i found
    cases entered
    have counts := fun test => countP_set test found (.admitted arg : Call α β)
    refine ⟨⟨(counts Call.isInside).trans inv.alone, inv.inRange, ?_, ?_⟩,
      counts Call.isPending, counts Call.isPosting⟩
    · rw [show (side.move i (.admitted arg)).calls.countP Call.isAccessed =
        side.calls.countP Call.isAccessed from counts Call.isAccessed]
      exact inv.index
    · exact inv.used_of_unused rfl
  · cases entered

theorem Inv.lock_spec (inv : Inv cap count side) {arg : α}
    (found : side.calls[i]? = some (.admitted arg)) (free : side.busy = false) :
    Inv cap count { side.move i (.locked arg) with busy := true } := by
  have alone := countP_set Call.isInside found (.locked arg : Call α β)
  have accessed : (side.calls.set i (.locked arg)).countP Call.isAccessed =
      side.calls.countP Call.isAccessed :=
    countP_set Call.isAccessed found (.locked arg : Call α β)
  refine ⟨?_, inv.inRange, ?_, ?_⟩
  · rw [inv.alone, free] at alone
    exact alone
  · show (side.index + (side.calls.set i (.locked arg)).countP Call.isAccessed) % cap = _
    rw [accessed]
    exact inv.index
  · exact inv.used_of_unused rfl

theorem Inv.access_spec (inv : Inv cap count side) {arg : α} {result : β}
    (found : side.calls[i]? = some (.locked arg)) :
    side.index = count % cap ∧
      Inv cap (count + 1) (side.move i (.accessed side.index result)) := by
  have turn := inv.index_of_locked found
  have alone := countP_set Call.isInside found (.accessed side.index result : Call α β)
  have accessed : (side.calls.set i (.accessed side.index result)).countP
      Call.isAccessed = side.calls.countP Call.isAccessed + 1 :=
    countP_set Call.isAccessed found (.accessed side.index result : Call α β)
  refine ⟨turn, ?_, inv.inRange, ?_, ?_⟩
  · exact (Nat.add_right_cancel alone).trans inv.alone
  · show (side.index + (side.calls.set i (.accessed side.index result)).countP
      Call.isAccessed) % cap = _
    rw [accessed, ← Nat.add_assoc, Nat.add_mod, inv.index, ← Nat.add_mod]
  · apply used_of_move
    · intro slot used
      cases used
      exact ⟨Nat.succ_pos count, turn⟩
    · intro j call slot different found' used
      exact absurd (inv.eq_of_inside found rfl found' (inside_of_used used)) different

theorem Inv.advance_spec (inv : Inv cap count side) {slot : Nat} {result : β}
    (found : side.calls[i]? = some (.accessed slot result)) :
    Inv cap count { side.move i (.advanced slot result) with
      index := (side.index + 1) % cap } := by
  have alone := countP_set Call.isInside found (.advanced slot result : Call α β)
  have accessed : (side.calls.set i (.advanced slot result)).countP Call.isAccessed + 1 =
      side.calls.countP Call.isAccessed :=
    countP_set Call.isAccessed found (.advanced slot result : Call α β)
  refine ⟨(Nat.add_right_cancel alone).trans inv.alone,
    Nat.mod_lt _ (Nat.zero_lt_of_lt inv.inRange), ?_, ?_⟩
  · have before := inv.index
    rw [← accessed, Nat.add_comm _ 1, ← Nat.add_assoc] at before
    show ((side.index + 1) % cap +
      (side.calls.set i (.advanced slot result)).countP Call.isAccessed) % cap = _
    rw [Nat.mod_add_mod]
    exact before
  · apply used_of_move
    · intro slot' used
      cases used
      exact inv.used i _ slot found rfl
    · exact fun j call slot _ => inv.used j call slot

theorem Inv.unlock_spec (inv : Inv cap count side) {slot : Nat} {result : β}
    (found : side.calls[i]? = some (.advanced slot result)) :
    Inv cap count { side.move i (.left result) with busy := false } := by
  have alone : (side.calls.set i (.left result)).countP Call.isInside + 1 =
      side.calls.countP Call.isInside :=
    countP_set Call.isInside found (.left result : Call α β)
  have accessed : (side.calls.set i (.left result)).countP Call.isAccessed =
      side.calls.countP Call.isAccessed :=
    countP_set Call.isAccessed found (.left result : Call α β)
  refine ⟨?_, inv.inRange, ?_, ?_⟩
  · have one := Bool.toNat_le side.busy
    rw [inv.alone] at alone
    show (side.calls.set i (.left result)).countP Call.isInside = 0
    omega
  · show (side.index + (side.calls.set i (.left result)).countP Call.isAccessed) % cap = _
    rw [accessed]
    exact inv.index
  · exact inv.used_of_unused rfl

theorem Inv.post_spec (inv : Inv cap count side) {result : β}
    (found : side.calls[i]? = some (.left result)) :
    Inv cap count (side.move i .outside) := by
  have alone := countP_set Call.isInside found (.outside : Call α β)
  have accessed := countP_set Call.isAccessed found (.outside : Call α β)
  refine ⟨alone.trans inv.alone, inv.inRange, ?_, ?_⟩
  · rw [show (side.move i .outside).calls.countP Call.isAccessed =
      side.calls.countP Call.isAccessed from accessed]
    exact inv.index
  · exact inv.used_of_unused rfl

/-- What the step of a thread means to the one who sees only its effect. -/
def Spec (cap count : Nat) (side after : Side α β) (i : Nat) : Effect α → Prop
  | .silent => Inv cap count after ∧ after.pending = side.pending ∧
      after.posting = side.posting
  | .access arg => side.calls[i]? = some (.locked arg) ∧ side.index = count % cap ∧
      Inv cap (count + 1) after ∧ after.pending + 1 = side.pending ∧
      after.posting = side.posting + 1
  | .post => Inv cap count after ∧ after.pending = side.pending ∧
      after.posting + 1 = side.posting

theorem Inv.next_spec {use : Nat → α → β} {effect : Effect α} (inv : Inv cap count side)
    (stepped : side.next cap use i = some (after, effect)) :
    Spec cap count side after i effect := by
  unfold next at stepped
  split at stepped
  · rename_i arg found
    split at stepped
    · cases stepped
    · rename_i free
      cases stepped
      exact ⟨inv.lock_spec found (by simpa using free),
        Nat.add_right_cancel (countP_set Call.isPending found (.locked arg)),
        countP_set Call.isPosting found (.locked arg)⟩
  · rename_i arg found
    cases stepped
    obtain ⟨turn, kept⟩ : side.index = count % cap ∧ Inv cap (count + 1)
        (side.move i (.accessed side.index (use side.index arg))) := inv.access_spec found
    exact ⟨found, turn, kept,
      countP_set Call.isPending found (.accessed side.index (use side.index arg)),
      countP_set Call.isPosting found (.accessed side.index (use side.index arg))⟩
  · rename_i slot result found
    cases stepped
    exact ⟨inv.advance_spec found,
      countP_set Call.isPending found (.advanced slot result),
      Nat.add_right_cancel (countP_set Call.isPosting found (.advanced slot result))⟩
  · rename_i slot result found
    cases stepped
    exact ⟨inv.unlock_spec found,
      countP_set Call.isPending found (.left result),
      Nat.add_right_cancel (countP_set Call.isPosting found (.left result))⟩
  · rename_i result found
    cases stepped
    exact ⟨inv.post_spec found, countP_set Call.isPending found .outside,
      countP_set Call.isPosting found .outside⟩
  · cases stepped

/-- Of the slots used so far, the section of a thread touches the last one, or the
next one if it has the mutex and has not used it yet. -/
theorem Inv.touches_cases (inv : Inv cap count side) {slot : Nat}
    (touched : side.touches i = some slot) :
    slot = count % cap ∧ 0 < side.pending ∨
      0 < count ∧ slot = (count - 1) % cap ∧ 0 < side.posting := by
  unfold touches at touched
  split at touched
  · rename_i arg found
    cases touched
    have pending : 0 < side.calls.countP Call.isPending := countP_pos_of_found found rfl
    exact .inl ⟨inv.index_of_locked found, pending⟩
  · rename_i slot' result found
    cases touched
    have used := inv.used i _ slot found rfl
    have posting : 0 < side.calls.countP Call.isPosting := countP_pos_of_found found rfl
    exact .inr ⟨used.1, used.2, posting⟩
  · rename_i slot' result found
    cases touched
    have used := inv.used i _ slot found rfl
    have posting : 0 < side.calls.countP Call.isPosting := countP_pos_of_found found rfl
    exact .inr ⟨used.1, used.2, posting⟩
  · cases touched

theorem countP_start {num : Nat} {test : Call α β → Bool} (fails : test .outside = false) :
    (start num : Side α β).calls.countP test = 0 := by
  show (List.replicate num (.outside : Call α β)).countP test = 0
  rw [List.countP_replicate, fails]
  exact if_neg Bool.false_ne_true

theorem inv_start {num : Nat} (positive : 0 < cap) :
    Inv cap 0 (start num : Side α β) := by
  refine ⟨countP_start rfl, positive, ?_, ?_⟩
  · show (0 + (start num : Side α β).calls.countP Call.isAccessed) % cap = _
    rw [countP_start rfl]
  · intro j call slot found used
    have outside := List.mem_replicate.mp (List.mem_of_getElem? found)
    rw [outside.2] at used
    cases used

end Side

end LinuxSystemLearning.Turnstile
