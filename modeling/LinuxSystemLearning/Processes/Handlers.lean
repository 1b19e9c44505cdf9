import LinuxSystemLearning.Library.NullTerminated

/-!
# The table of handlers

`registerHandlers` puts a function into the first free slot and a `NULL` behind it.  For the
last slot there is no place behind it.
-/

set_option autoImplicit false

namespace LinuxSystemLearning.Polling

open LinuxSystemLearning.NullTerminated

/-! ## The code -/

def num : Nat := 5

structure Handlers (func : Type) where
  slots : List (Option func)
  size : slots.length = num

variable {func : Type}

/-- What a static array has in it. -/
def Handlers.empty : Handlers func := ⟨List.replicate num none, List.length_replicate⟩

def Handlers.put (h : Handlers func) (i : Nat) (f : Option func) : Option (Handlers func) :=
  if i < num then some ⟨h.slots.set i f, by rw [List.length_set, h.size]⟩ else none

/-- The loop looks for the first `NULL`, and comes to `NUM` if there is none. -/
def registerHandlers (h : Handlers func) (f : func) : Option (Handlers func) :=
  let i := h.slots.findIdx Option.isNone
  if i = num then some h
  else do
    let h ← h.put i (some f)
    h.put (i + 1) none

def registerAll : Handlers func → List func → Option (Handlers func)
  | h, [] => some h
  | h, f :: funcs => do registerAll (← registerHandlers h f) funcs

def poll (h : Handlers func) : Option (List func) := entries h.slots

/-! ## What the table is for -/

/-- No call leaves the array, the table has the functions as far as there is room, and the
loop calls them. -/
def TableRight (funcs : List func) : Prop :=
  ∃ table, registerAll .empty funcs = some table ∧
    (funcs.take num).map some <+: table.slots ∧ poll table = some (funcs.take num)

/-- The table has these functions and a `NULL` behind them. -/
def Terminated (h : Handlers func) (funcs : List func) : Prop :=
  ∃ behind, h.slots = funcs.map some ++ none :: behind

variable {h after : Handlers func} {held funcs : List func} {f : func}

theorem Terminated.length (terminated : Terminated h held) : held.length < num := by
  obtain ⟨behind, slots⟩ := terminated
  have size := congrArg List.length slots
  rw [h.size, List.length_append, List.length_map, List.length_cons] at size
  omega

theorem Handlers.exists_put {i : Nat} (inside : i < num) (f : Option func) :
    ∃ after, h.put i f = some after ∧ after.slots = h.slots.set i f :=
  ⟨_, if_pos inside, rfl⟩

theorem Terminated.put (terminated : Terminated h held) (f : func) :
    ∃ (middle : Handlers func) (behind : List (Option func)),
      registerHandlers h f = middle.put (held.length + 1) none ∧
        middle.slots = held.map some ++ some f :: behind := by
  have fewer := terminated.length
  obtain ⟨behind, slots⟩ := terminated
  have first : h.slots.findIdx Option.isNone = held.length := by
    rw [slots, findIdx_terminated]
  obtain ⟨middle, put, slots'⟩ : ∃ middle, h.put held.length (some f) = some middle ∧ _ :=
    Handlers.exists_put fewer (some f)
  refine ⟨middle, behind, ?_, ?_⟩
  · rw [registerHandlers, first, if_neg (Nat.ne_of_lt fewer), put]
    rfl
  · rw [slots', slots, set_behind]

theorem Terminated.register (terminated : Terminated h held) (f : func)
    (room : held.length + 1 < num) :
    ∃ after, registerHandlers h f = some after ∧ Terminated after (held ++ [f]) := by
  obtain ⟨middle, behind, same, slots⟩ := terminated.put f
  have size := congrArg List.length slots
  rw [middle.size, List.length_append, List.length_map, List.length_cons] at size
  obtain ⟨old, rest, rfl⟩ : ∃ old rest, behind = old :: rest :=
    List.exists_cons_of_length_pos (by omega)
  obtain ⟨after, put, slots'⟩ : ∃ after, middle.put (held.length + 1) none = some after ∧ _ :=
    Handlers.exists_put room none
  have whole : middle.slots = (held ++ [f]).map some ++ old :: rest := by
    rw [slots, List.map_append, List.append_assoc]
    rfl
  have length : held.length + 1 = (held ++ [f]).length := by
    rw [List.length_append, List.length_singleton]
  refine ⟨after, same.trans put, rest, ?_⟩
  rw [slots', whole, length, set_behind]

theorem Terminated.register_last (terminated : Terminated h held) (f : func)
    (last : held.length + 1 = num) : registerHandlers h f = none := by
  obtain ⟨middle, behind, same, -⟩ := terminated.put f
  rw [same, last]
  exact if_neg (Nat.lt_irrefl num)

/-! ## All calls -/

theorem terminated_empty : Terminated (.empty : Handlers func) [] :=
  ⟨List.replicate 4 none, rfl⟩

theorem Terminated.exists_registerAll (terminated : Terminated h held)
    (room : (held ++ funcs).length < num) :
    ∃ after, registerAll h funcs = some after ∧ Terminated after (held ++ funcs) := by
  induction funcs generalizing h held with
  | nil =>
      rw [List.append_nil]
      exact ⟨h, rfl, terminated⟩
  | cons f funcs ih =>
      rw [List.append_cons] at room ⊢
      have room' : held.length + 1 < num := by
        simp only [List.length_append, List.length_singleton] at room
        omega
      obtain ⟨middle, registered, terminated'⟩ := terminated.register f room'
      obtain ⟨after, rest, terminated''⟩ := ih terminated' room
      refine ⟨after, ?_, terminated''⟩
      rw [registerAll, registered]
      exact rest

theorem Terminated.registerAll_full (terminated : Terminated h held)
    (full : num ≤ (held ++ funcs).length) : registerAll h funcs = none := by
  induction funcs generalizing h held with
  | nil =>
      rw [List.append_nil] at full
      exact absurd terminated.length (Nat.not_lt.mpr full)
  | cons f funcs ih =>
      rw [List.append_cons] at full
      have fewer := terminated.length
      rw [registerAll]
      rcases Nat.lt_or_eq_of_le (show held.length + 1 ≤ num from fewer) with room | last
      · obtain ⟨middle, registered, terminated'⟩ := terminated.register f room
        rw [registered]
        exact ih terminated' full
      · rw [terminated.register_last f last]
        rfl

/-- The table is right exactly if one slot is left for the `NULL`. -/
theorem tableRight_iff (funcs : List func) : TableRight funcs ↔ funcs.length < num := by
  have start : Terminated (.empty : Handlers func) [] := terminated_empty
  constructor
  · rintro ⟨table, registered, -⟩
    refine Nat.not_le.mp fun full => ?_
    rw [start.registerAll_full full] at registered
    cases registered
  · intro room
    obtain ⟨table, registered, behind, slots⟩ := start.exists_registerAll room
    rw [List.nil_append] at slots
    have all : funcs.take num = funcs := List.take_of_length_le (Nat.le_of_lt room)
    refine ⟨table, registered, ?_, ?_⟩
    · rw [all, slots]
      exact List.prefix_append _ _
    · rw [all, poll, slots, entries_terminated]

/-- With the fifth function the `NULL` is put behind the table. -/
theorem fifth_leaves : ¬ TableRight [(), (), (), (), ()] := by
  rintro ⟨table, registered, -⟩
  cases registered

end LinuxSystemLearning.Polling
