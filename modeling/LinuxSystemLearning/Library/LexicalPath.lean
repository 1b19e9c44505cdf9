import Mathlib.Data.List.Basic
import Mathlib.Data.List.Infix

/-!
# Paths resolved by their text alone

A relative path as the list of its components, each of them `..` or a name.  `resolve`
goes through them with a stack, as one does when nothing is known of the file system:
`..` takes the last name back, and where there is none it leads one level up.

`within_iff` says by counting when a path ends up under a directory of the start.
-/

set_option autoImplicit false

namespace LinuxSystemLearning.LexicalPath

universe u

inductive Component (α : Type u) where
  | up
  | name (entry : α)
  deriving DecidableEq

variable {α : Type u}

namespace Component

def isUp : Component α → Bool
  | .up => true
  | .name _ => false

def isName : Component α → Bool
  | .up => false
  | .name _ => true

end Component

/-- So many levels up from the start, and down again by the names, the last one in
front. -/
structure Place (α : Type u) where
  ups : Nat
  names : List α
  deriving DecidableEq

def here : Place α := ⟨0, []⟩

def Place.step : Place α → Component α → Place α
  | ⟨ups, names⟩, .name entry => ⟨ups, entry :: names⟩
  | ⟨ups, _ :: names⟩, .up => ⟨ups, names⟩
  | ⟨ups, []⟩, .up => ⟨ups + 1, []⟩

def resolve (place : Place α) (path : List (Component α)) : Place α :=
  path.foldl Place.step place

def Place.Within (place directory : Place α) : Prop :=
  place.ups = directory.ups ∧ directory.names <:+ place.names

instance [DecidableEq α] (place directory : Place α) : Decidable (place.Within directory) :=
  inferInstanceAs (Decidable (_ ∧ _))

def climbs (path : List (Component α)) : Nat := path.countP Component.isUp

def descents (path : List (Component α)) : Nat := path.countP Component.isName

/-- At no point of the path there have been more `..` than names. -/
def NeverAbove (path : List (Component α)) : Prop :=
  ∀ front, front <+: path → climbs front ≤ descents front

/-- The path leads back to where it starts and never above it. -/
def Level (path : List (Component α)) : Prop :=
  NeverAbove path ∧ climbs path = descents path

/-! ## One more component -/

theorem resolve_concat (place : Place α) (path : List (Component α)) (last : Component α) :
    resolve place (path ++ [last]) = (resolve place path).step last := by
  rw [resolve, List.foldl_append]
  rfl

theorem resolve_append (place : Place α) (front back : List (Component α)) :
    resolve place (front ++ back) = resolve (resolve place front) back :=
  List.foldl_append

theorem climbs_concat (path : List (Component α)) (last : Component α) :
    climbs (path ++ [last]) = climbs path + last.isUp.toNat := by
  rw [climbs, List.countP_append, List.countP_singleton]
  cases last <;> rfl

theorem descents_concat (path : List (Component α)) (last : Component α) :
    descents (path ++ [last]) = descents path + last.isName.toNat := by
  rw [descents, List.countP_append, List.countP_singleton]
  cases last <;> rfl

theorem NeverAbove.total {path : List (Component α)} (never : NeverAbove path) :
    climbs path ≤ descents path :=
  never path (List.prefix_refl path)

theorem neverAbove_nil : NeverAbove ([] : List (Component α)) := by
  intro front inside
  rw [List.prefix_nil.mp inside]
  exact Nat.le_refl _

theorem neverAbove_concat {path : List (Component α)} {last : Component α} :
    NeverAbove (path ++ [last]) ↔
      NeverAbove path ∧ climbs (path ++ [last]) ≤ descents (path ++ [last]) := by
  constructor
  · intro never
    exact ⟨fun front inside => never front (inside.trans (List.prefix_append path [last])),
      never.total⟩
  · intro both front inside
    rcases List.prefix_concat_iff.mp inside with rfl | earlier
    · exact both.2
    · exact both.1 front earlier

theorem neverAbove_concat_name {path : List (Component α)} {entry : α}
    (never : NeverAbove path) : NeverAbove (path ++ [.name entry]) := by
  refine neverAbove_concat.mpr ⟨never, ?_⟩
  rw [climbs_concat, descents_concat]
  exact Nat.le_succ_of_le never.total

/-! ## The stack and the counts -/

/-- A path that is never above its start leaves what is below the start alone. -/
theorem resolve_of_neverAbove {path : List (Component α)} (never : NeverAbove path)
    (place : Place α) :
    ∃ deeper, resolve place path = ⟨place.ups, deeper ++ place.names⟩ ∧
      deeper.length + climbs path = descents path := by
  induction path using List.reverseRecOn with
  | nil => exact ⟨[], rfl, rfl⟩
  | append_singleton path last ih =>
      obtain ⟨before, total⟩ := neverAbove_concat.mp never
      obtain ⟨deeper, reached, count⟩ := ih before
      rw [climbs_concat, descents_concat] at total
      rw [resolve_concat, reached, climbs_concat, descents_concat]
      cases last with
      | name entry => exact ⟨entry :: deeper, rfl, by rw [← count]; exact Nat.succ_add ..⟩
      | up =>
          -- a name is left to take back
          cases deeper with
          | nil =>
              rw [List.length_nil, Nat.zero_add] at count
              rw [count] at total
              exact absurd total (Nat.not_succ_le_self _)
          | cons entry deeper =>
              refine ⟨deeper, rfl, ?_⟩
              show deeper.length + (climbs path + 1) = descents path
              rw [List.length_cons] at count
              omega

/-- A path that does not end above the start has never been above it. -/
theorem neverAbove_of_resolve {path : List (Component α)}
    (kept : (resolve here path).ups = 0) :
    NeverAbove path ∧ (resolve here path).names.length + climbs path = descents path := by
  induction path using List.reverseRecOn with
  | nil => exact ⟨neverAbove_nil, rfl⟩
  | append_singleton path last ih =>
      rw [resolve_concat] at kept ⊢
      rw [neverAbove_concat, climbs_concat, descents_concat]
      cases reached : resolve here path with
      | mk ups names =>
          rw [reached] at ih kept
          cases last with
          | name entry =>
              obtain ⟨before, count⟩ := ih kept
              have total := before.total
              refine ⟨⟨before, Nat.le_succ_of_le total⟩, ?_⟩
              rw [← count]
              exact Nat.succ_add ..
          | up =>
              cases names with
              | nil => exact absurd kept (Nat.succ_ne_zero ups)
              | cons entry names =>
                  obtain ⟨before, count⟩ := ih kept
                  rw [List.length_cons] at count
                  refine ⟨⟨before, ?_⟩, ?_⟩
                  · show climbs path + 1 ≤ descents path
                    omega
                  · show names.length + (climbs path + 1) = descents path
                    omega

theorem level_of_resolve {path : List (Component α)} (back : resolve here path = here) :
    Level path := by
  obtain ⟨never, count⟩ := neverAbove_of_resolve (congrArg Place.ups back)
  rw [back] at count
  exact ⟨never, (Nat.zero_add _).symm.trans count⟩

theorem resolve_of_level {path : List (Component α)} (level : Level path)
    (place : Place α) : resolve place path = place := by
  obtain ⟨deeper, reached, count⟩ := resolve_of_neverAbove level.1 place
  rw [level.2] at count
  have none_left : deeper = [] := List.length_eq_zero_iff.mp (by omega)
  rw [reached, none_left]
  rfl

/-- The way to a place under the entry passes it at the level of the start and stays
under it from there on. -/
theorem within_iff {path : List (Component α)} {entry : α} :
    (resolve here path).Within ⟨0, [entry]⟩ ↔
      ∃ front back, path = front ++ .name entry :: back ∧ Level front ∧ NeverAbove back := by
  constructor
  · intro within
    induction path using List.reverseRecOn with
    | nil =>
        obtain ⟨rest, shape⟩ := within.2
        exact absurd shape (List.append_ne_nil_of_right_ne_nil _ (List.cons_ne_nil _ _))
    | append_singleton path last ih =>
        rw [resolve_concat] at within
        cases reached : resolve here path with
        | mk ups names =>
            rw [reached] at ih within
            cases last with
            | name last =>
                obtain ⟨kept, below⟩ := within
                cases kept
                rcases List.suffix_cons_iff.mp below with same | below
                · cases same
                  exact ⟨path, [], rfl, level_of_resolve reached, neverAbove_nil⟩
                · obtain ⟨front, back, rfl, level, never⟩ := ih ⟨rfl, below⟩
                  exact ⟨front, back ++ [.name last], List.append_assoc .., level,
                    neverAbove_concat_name never⟩
            | up =>
                cases names with
                | nil => exact absurd within.1 (Nat.succ_ne_zero ups)
                | cons top names =>
                    obtain ⟨kept, below⟩ := within
                    cases kept
                    have under : [entry] <:+ top :: names :=
                      below.trans (List.suffix_cons top names)
                    obtain ⟨front, back, rfl, level, never⟩ := ih ⟨rfl, under⟩
                    refine ⟨front, back ++ [.up], List.append_assoc .., level, ?_⟩
                    refine neverAbove_concat.mpr ⟨never, ?_⟩
                    -- behind the entry there is a name that `..` takes back
                    rw [resolve_append, resolve_of_level level] at reached
                    obtain ⟨deeper, stack, count⟩ :=
                      resolve_of_neverAbove never ((here : Place α).step (.name entry))
                    have whole : top :: names = deeper ++ [entry] :=
                      congrArg Place.names (reached.symm.trans stack)
                    have lengths := congrArg List.length whole
                    have more : [entry].length ≤ names.length := below.length_le
                    rw [climbs_concat, descents_concat]
                    simp only [List.length_cons, List.length_append, List.length_nil]
                      at lengths more
                    show climbs back + 1 ≤ descents back + 0
                    omega
  · intro passes
    obtain ⟨front, back, rfl, level, never⟩ := passes
    rw [resolve_append, resolve_of_level level]
    obtain ⟨deeper, reached, -⟩ :=
      resolve_of_neverAbove never ((here : Place α).step (.name entry))
    have reached : resolve here (.name entry :: back) = ⟨0, deeper ++ [entry]⟩ := reached
    rw [reached]
    exact ⟨rfl, deeper, rfl⟩

end LinuxSystemLearning.LexicalPath
