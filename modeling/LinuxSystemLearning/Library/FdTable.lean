import Mathlib.Data.List.Basic
import Mathlib.Data.List.Nodup
import Mathlib.Data.List.Perm.Subperm

/-!
# Descriptor tables

What a process has open, by descriptor numbers.  A new descriptor gets the lowest number
that is not in use.
-/

set_option autoImplicit false

namespace LinuxSystemLearning.FdTable

universe u

/-! ## The lowest free number -/

def lowest (used : List Nat) : Nat :=
  ((List.range (used.length + 1)).find? fun fd => decide (fd ∉ used)).getD 0

theorem exists_free (used : List Nat) : ∃ fd ∈ List.range (used.length + 1), fd ∉ used := by
  by_contra all
  have subset : List.range (used.length + 1) ⊆ used := by
    intro fd member
    by_contra free
    exact all ⟨fd, member, free⟩
  have length := (List.subperm_of_subset List.nodup_range subset).length_le
  rw [List.length_range] at length
  omega

theorem find_lowest (used : List Nat) :
    (List.range (used.length + 1)).find? (fun fd => decide (fd ∉ used)) =
      some (lowest used) := by
  obtain ⟨fd, member, free⟩ := exists_free used
  cases found : (List.range (used.length + 1)).find? fun fd => decide (fd ∉ used) with
  | none => exact absurd (List.find?_eq_none.mp found fd member) (by simp [free])
  | some least => rw [lowest, found, Option.getD_some]

theorem lowest_not_mem (used : List Nat) : lowest used ∉ used :=
  of_decide_eq_true (List.find?_range_eq_some.mp (find_lowest used)).1

theorem lowest_le_length (used : List Nat) : lowest used ≤ used.length := by
  have member := (List.find?_range_eq_some.mp (find_lowest used)).2.1
  exact Nat.le_of_lt_succ (List.mem_range.mp member)

/-- Where as many numbers are in use as there are below `n`, the next one is not below. -/
theorem le_lowest {used : List Nat} {n : Nat} (distinct : used.Nodup)
    (small : ∀ fd ∈ used, fd < n) (full : n ≤ used.length) : n ≤ lowest used := by
  have subset : used ⊆ List.range n := fun fd member => List.mem_range.mpr (small fd member)
  have all : used.Perm (List.range n) :=
    (List.subperm_of_subset distinct subset).perm_of_length_le (by simpa using full)
  by_contra below
  exact lowest_not_mem used (all.mem_iff.mpr (List.mem_range.mpr (Nat.not_le.mp below)))

/-! ## Tables -/

abbrev Table (α : Type u) := List (Nat × α)

variable {α : Type u}

namespace Table

def fds (table : Table α) : List Nat := table.map Prod.fst

def descs (table : Table α) : List α := table.map Prod.snd

def lookup (fd : Nat) (table : Table α) : Option α :=
  (table.find? fun entry => decide (entry.1 = fd)).map Prod.snd

def insert (desc : α) (table : Table α) : Table α := (lowest table.fds, desc) :: table

def close (fd : Nat) (table : Table α) : Table α :=
  table.filter fun entry => decide (entry.1 ≠ fd)

/-- No number stands for two things. -/
def Functional (table : Table α) : Prop :=
  ∀ fd one two, (fd, one) ∈ table → (fd, two) ∈ table → one = two

theorem mem_fds {fd : Nat} {desc : α} {table : Table α} (member : (fd, desc) ∈ table) :
    fd ∈ table.fds := List.mem_map.mpr ⟨(fd, desc), member, rfl⟩

theorem mem_descs {desc : α} {table : Table α} :
    desc ∈ table.descs ↔ ∃ fd, (fd, desc) ∈ table := by
  simp [descs]

theorem mem_close {fd other : Nat} {desc : α} {table : Table α} :
    (other, desc) ∈ table.close fd ↔ (other, desc) ∈ table ∧ other ≠ fd := by
  simp [close]

theorem mem_insert {fd : Nat} {desc other : α} {table : Table α} :
    (fd, other) ∈ table.insert desc ↔
      (fd = lowest table.fds ∧ other = desc) ∨ (fd, other) ∈ table := by
  simp [insert]

theorem Functional.close {table : Table α} (functional : table.Functional) (fd : Nat) :
    (table.close fd).Functional := by
  intro other one two first second
  exact functional other one two (mem_close.mp first).1 (mem_close.mp second).1

theorem Functional.insert {table : Table α} (functional : table.Functional) (desc : α) :
    (table.insert desc).Functional := by
  intro fd one two first second
  have fresh : ∀ other, (lowest table.fds, other) ∉ table :=
    fun other member => lowest_not_mem table.fds (mem_fds member)
  rcases mem_insert.mp first with ⟨new, oneNew⟩ | oneOld
  · rcases mem_insert.mp second with ⟨-, twoNew⟩ | twoOld
    · exact oneNew.trans twoNew.symm
    · exact absurd (new ▸ twoOld) (fresh two)
  · rcases mem_insert.mp second with ⟨new, -⟩ | twoOld
    · exact absurd (new ▸ oneOld) (fresh one)
    · exact functional fd one two oneOld twoOld

theorem lookup_of_mem {table : Table α} (functional : table.Functional) {fd : Nat} {desc : α}
    (member : (fd, desc) ∈ table) : table.lookup fd = some desc := by
  unfold lookup
  cases found : table.find? fun entry => decide (entry.1 = fd) with
  | none => exact absurd (List.find?_eq_none.mp found _ member) (by simp)
  | some entry =>
      obtain ⟨other, desc'⟩ := entry
      have same : other = fd := by simpa using List.find?_some found
      have there : (fd, desc') ∈ table := same ▸ List.mem_of_find?_eq_some found
      exact congrArg some (functional fd desc' desc there member)

theorem functional_of_nodup {table : Table α} (distinct : table.fds.Nodup) :
    table.Functional := by
  intro fd one two first second
  exact congrArg Prod.snd (List.inj_on_of_nodup_map distinct first second rfl)

/-- Closing takes exactly one entry out. -/
theorem close_perm {table rest : Table α} {fd : Nat} {desc : α} (distinct : table.fds.Nodup)
    (split : table.Perm ((fd, desc) :: rest)) : (table.close fd).Perm rest := by
  have apart : (fds ((fd, desc) :: rest)).Nodup := (split.map Prod.fst).nodup_iff.mp distinct
  have fresh : fd ∉ fds rest := (List.nodup_cons.mp apart).1
  have kept : close fd rest = rest := by
    apply List.filter_eq_self.mpr
    intro entry member
    exact decide_eq_true fun same => fresh (same ▸ List.mem_map_of_mem member)
  have closed : close fd ((fd, desc) :: rest) = rest := by
    rw [close, List.filter_cons_of_neg (by simp)]
    exact kept
  exact closed ▸ split.filter _

end Table

end LinuxSystemLearning.FdTable
