import LinuxSystemLearning.Shell.Redirection
import Mathlib.Data.List.Chain

/-!
# Redirections and arguments

Lines of words, spaces and redirections.  `RedirCheck` looks at one operator only: what is
behind the name of the file becomes a part of the name, and the redirections in front of
the operator become arguments.
-/

set_option autoImplicit false

namespace LinuxSystemLearning.MyShell

open LinuxSystemLearning.Cxx
open LinuxSystemLearning.Words

/-! ## Lines -/

/-- An operator, as many spaces as `gap` says, and the name of a file. -/
structure Redirection where
  op : Operator
  gap : Nat
  name : Bytes
  deriving DecidableEq

inductive Item where
  | space
  | word (letters : Bytes)
  | redirect (redirection : Redirection)
  deriving DecidableEq

def Redirection.spaces (redirection : Redirection) : Bytes := List.replicate redirection.gap 32

def Item.text : Item → Bytes
  | .space => [32]
  | .word letters => letters
  | .redirect redirection =>
      redirection.op.text ++ (redirection.spaces ++ redirection.name)

def textOf (items : List Item) : Bytes := items.flatMap Item.text

def Item.word? : Item → Option Bytes
  | .word letters => some letters
  | _ => none

def Item.redirection? : Item → Option Redirection
  | .redirect redirection => some redirection
  | _ => none

def redirections (items : List Item) : List Redirection := items.filterMap Item.redirection?

/-- No operators, no white space and no NUL. -/
def Letters (text : Bytes) : Prop :=
  text ≠ [] ∧ Plain text ∧ ∀ byte ∈ text, isspace byte = false

instance (text : Bytes) : Decidable (Letters text) :=
  have := List.decidableBAll (fun byte => isspace byte = false) text
  inferInstanceAs (Decidable (text ≠ [] ∧ Plain text ∧ ∀ byte ∈ text, isspace byte = false))

def Item.Good : Item → Prop
  | .space => True
  | .word letters => Letters letters
  | .redirect redirection => Letters redirection.name

instance (item : Item) : Decidable item.Good :=
  match item with
  | .space => isTrue trivial
  | .word letters => inferInstanceAs (Decidable (Letters letters))
  | .redirect redirection => inferInstanceAs (Decidable (Letters redirection.name))

/-- A word does not touch what is in front of it. -/
def Apart (first second : Item) : Prop := second.word?.isSome = true → first = .space

instance (first second : Item) : Decidable (Apart first second) :=
  inferInstanceAs (Decidable (second.word?.isSome = true → first = .space))

structure ItemLine where
  items : List Item
  rest : Bytes
  good : ∀ item ∈ items, item.Good
  apart : items.IsChain Apart

def ItemLine.loaded (line : ItemLine) (st : Shell) : Shell :=
  { st with commandline := textOf line.items ++ 0 :: line.rest }

/-- Where the names of the redirections begin. -/
def nameStarts : Nat → List Item → List Nat
  | _, [] => []
  | pos, .redirect redirection :: items =>
      (pos + (redirection.op.text ++ redirection.spaces).length) ::
        nameStarts (pos + (Item.redirect redirection).text.length) items
  | pos, item :: items => nameStarts (pos + item.text.length) items

def ItemLine.lastName (line : ItemLine) : Bytes :=
  ((redirections line.items).getLast?.map Redirection.name).getD []

/-- `CommandParse` leaves no argument that contains an operator or that begins at one of the
places, and the name of the file is the right one. -/
def Clean (starts : List Nat) (name : Bytes) (checked : Shell) : Prop :=
  ∃ result after, commandParse checked = some (result, after) ∧
    (∀ pointer ∈ after.arguments, ∀ text, after.argument pointer = some text →
      less ∉ text ∧ greater ∉ text) ∧
    (∀ pos ∈ starts, some pos ∉ after.arguments) ∧ after.filename = name

/-- No argument contains an operator or is the name of a redirection, and the file is that
of the last redirection. -/
def NoLeak (line : ItemLine) (st : Shell) : Prop :=
  ∃ checked, redirCheck (line.loaded st) = some checked ∧
    Clean (nameStarts 0 line.items) line.lastName checked

/-- There is room for the words, and there is no redirection, or one at the end of the
line; `>` is not at its beginning as well. -/
def Settled (line : ItemLine) : Prop :=
  (line.items.filterMap Item.word?).length < maxArgv ∧
    (redirections line.items).length ≤ 1 ∧
    ∀ redirection ∈ redirections line.items,
      line.items.getLast? = some (.redirect redirection) ∧
        (redirection.op = .output → 1 < line.items.length)

/-! ## The text of a line -/

variable {items front back : List Item} {redirection : Redirection}

theorem textOf_append (front back : List Item) :
    textOf (front ++ back) = textOf front ++ textOf back := List.flatMap_append

theorem redirections_append (front back : List Item) :
    redirections (front ++ back) = redirections front ++ redirections back :=
  List.filterMap_append

theorem Item.Good.text_ne_nil {item : Item} (good : item.Good) : item.text ≠ [] := by
  cases item with
  | space => exact List.cons_ne_nil _ _
  | word letters => exact good.1
  | redirect redirection =>
      exact List.append_ne_nil_of_right_ne_nil _ (List.append_ne_nil_of_right_ne_nil _ good.1)

theorem isspace_spaces (redirection : Redirection) :
    ∀ byte ∈ redirection.spaces, isspace byte = true := by
  intro byte member
  rw [List.eq_of_mem_replicate member]
  rfl

theorem Item.Good.nulFree {item : Item} (good : item.Good) : 0 ∉ item.text := by
  cases item with
  | space => decide
  | word letters => exact good.2.1.nulFree
  | redirect redirection =>
      simp only [Item.text, List.mem_append, not_or]
      exact ⟨nul_not_mem_operator _, (plain_of_spaces (isspace_spaces redirection)).nulFree,
        good.2.1.nulFree⟩

theorem nulFree_textOf (good : ∀ item ∈ items, item.Good) : 0 ∉ textOf items := by
  intro member
  obtain ⟨item, inItems, inText⟩ := List.mem_flatMap.mp member
  exact (good item inItems).nulFree inText

theorem textOf_eq_nil (good : ∀ item ∈ items, item.Good) : textOf items = [] ↔ items = [] := by
  cases items with
  | nil => simp [textOf]
  | cons item items =>
      have nonempty := (good item List.mem_cons_self).text_ne_nil
      simp [textOf, nonempty]

theorem plain_textOf (good : ∀ item ∈ items, item.Good) (none : redirections items = []) :
    Plain (textOf items) := by
  intro byte member
  obtain ⟨item, inItems, inText⟩ := List.mem_flatMap.mp member
  cases item with
  | space =>
      rw [List.mem_singleton.mp inText]
      decide
  | word letters => exact (good _ inItems).2.1 byte inText
  | redirect redirection =>
      have other := List.filterMap_eq_nil_iff.mp none _ inItems
      cases other

/-- The operators of a line are in its text. -/
theorem operator_mem_textOf (member : redirection ∈ redirections items) :
    less ∈ textOf items ∨ greater ∈ textOf items := by
  obtain ⟨item, inItems, same⟩ := List.mem_filterMap.mp member
  cases item with
  | redirect other =>
      cases same
      have inText : ∀ byte ∈ redirection.op.text, byte ∈ textOf items := fun byte inOp =>
        List.mem_flatMap.mpr ⟨_, inItems, List.mem_append_left _ inOp⟩
      cases op : redirection.op with
      | input => exact Or.inl (inText less (by rw [op]; decide))
      | output => exact Or.inr (inText greater (by rw [op]; decide))
      | append => exact Or.inr (inText greater (by rw [op]; decide))
  | _ => cases same

theorem isSep_of_isspace {byte : UInt8} (solid : isspace byte = false) : isSep byte = false := by
  refine decide_eq_false ?_
  intro member
  rw [List.mem_singleton.mp member] at solid
  cases solid

theorem words_textOf (good : ∀ item ∈ items, item.Good) (apart : items.IsChain Apart)
    (none : redirections items = []) :
    words isSep (textOf items) = items.filterMap Item.word? := by
  induction items with
  | nil => exact words_nil
  | cons item items ih =>
      have goodRest : ∀ item ∈ items, item.Good := fun item member =>
        good item (List.mem_cons_of_mem _ member)
      have noneHead := List.filterMap_eq_nil_iff.mp none
      have noneRest : redirections items = [] :=
        List.filterMap_eq_nil_iff.mpr
          fun item member => noneHead item (List.mem_cons_of_mem _ member)
      have rest := ih goodRest apart.tail noneRest
      cases item with
      | space =>
          show words isSep (32 :: textOf items) = _
          rw [words_cons_sep (by decide), rest]
          rfl
      | word letters =>
          obtain ⟨nonempty, -, solid⟩ := good _ List.mem_cons_self
          have whole : ∀ byte ∈ letters, isSep byte = false := fun byte member =>
            isSep_of_isspace (solid byte member)
          cases items with
          | nil =>
              show words isSep (letters ++ []) = [letters]
              rw [List.append_nil, words_word nonempty whole]
          | cons next items =>
              have follows := (List.isChain_cons_cons.mp apart).1
              cases next with
              | space =>
                  have behind : words isSep (32 :: textOf items) =
                      items.filterMap Item.word? := rest
                  rw [words_cons_sep (by decide)] at behind
                  show words isSep (letters ++ 32 :: textOf items) = _
                  rw [words_word_cons nonempty whole (by decide), behind]
                  rfl
              | word letters' => cases follows rfl
              | redirect redirection =>
                  cases noneHead _ (List.mem_cons_of_mem _ List.mem_cons_self)
      | redirect redirection => cases noneHead _ List.mem_cons_self

theorem exists_last_redirection (some_redirection : redirections items ≠ []) :
    ∃ front redirection back, items = front ++ .redirect redirection :: back ∧
      redirections back = [] := by
  induction items with
  | nil => exact absurd rfl some_redirection
  | cons item items ih =>
      by_cases later : redirections items = []
      · cases item with
        | redirect redirection => exact ⟨[], redirection, items, rfl, later⟩
        | _ => exact absurd later some_redirection
      · obtain ⟨front, redirection, back, rfl, none⟩ := ih later
        exact ⟨item :: front, redirection, back, rfl, none⟩

/-! ## The operator that is found -/

theorem nameStarts_append (pos : Nat) (front back : List Item) :
    nameStarts pos (front ++ back) =
      nameStarts pos front ++ nameStarts (pos + (textOf front).length) back := by
  induction front generalizing pos with
  | nil => rfl
  | cons item front ih =>
      have length : (textOf (item :: front)).length = item.text.length + (textOf front).length := by
        rw [textOf, List.flatMap_cons, List.length_append]
        rfl
      rw [length, ← Nat.add_assoc]
      cases item with
      | redirect redirection =>
          rw [List.cons_append, nameStarts, nameStarts, ih, List.cons_append]
      | _ => exact ih _

theorem nameStarts_eq_nil (pos : Nat) (none : redirections items = []) :
    nameStarts pos items = [] := by
  induction items generalizing pos with
  | nil => rfl
  | cons item items ih =>
      cases item with
      | redirect redirection => cases none
      | space => exact ih _ none
      | word letters => exact ih _ none

/-- No text of a line ends in `>`. -/
theorem getLast?_textOf (good : ∀ item ∈ items, item.Good) :
    (textOf items).getLast? ≠ some greater := by
  induction items using List.reverseRecOn with
  | nil => exact nofun
  | append_singleton items item _ =>
      have last := good item (by simp)
      have text : textOf [item] = item.text := List.append_nil _
      rw [textOf_append, text, List.getLast?_append_of_ne_nil _ last.text_ne_nil]
      cases item with
      | space => decide
      | word letters => exact last.2.1.getLast?_ne
      | redirect redirection =>
          rw [Item.text, List.getLast?_append_of_ne_nil _
            (List.append_ne_nil_of_right_ne_nil _ last.1), List.getLast?_append_of_ne_nil _ last.1]
          exact last.2.1.getLast?_ne

variable {line : ItemLine} {st : Shell}

theorem ItemLine.good_parts (items : line.items = front ++ .redirect redirection :: back) :
    (∀ item ∈ front, item.Good) ∧ Letters redirection.name ∧ ∀ item ∈ back, item.Good := by
  have good := line.good
  rw [items, List.forall_mem_append, List.forall_mem_cons] at good
  exact good

theorem redirCheck_last (items : line.items = front ++ .redirect redirection :: back)
    (none : redirections back = []) (inside : redirection.op = .output → front ≠ []) :
    ∃ checked more, redirCheck (line.loaded st) = some checked ∧
      checked.commandline = textOf front ++ 0 :: more ∧
      checked.filename = redirection.name ++ textOf back := by
  obtain ⟨goodFront, ⟨nonempty, plain, solid⟩, goodBack⟩ := line.good_parts items
  have follows : redirection.op.Follows (textOf front) := fun output =>
    ⟨fun empty => inside output ((textOf_eq_nil goodFront).mp empty), getLast?_textOf goodFront⟩
  have array : (line.loaded st).commandline = textOf front ++ (redirection.op.text ++
      (redirection.spaces ++ (redirection.name ++ textOf back ++ 0 :: line.rest))) := by
    show textOf line.items ++ 0 :: line.rest = _
    rw [items, textOf_append]
    simp [textOf, Item.text]
  have plainBehind := plain.append (plain_textOf goodBack none)
  have trimmed : Trimmed (redirection.name ++ textOf back) := by
    obtain ⟨first, name, parts⟩ := List.exists_cons_of_ne_nil nonempty
    intro byte member
    rw [parts, List.cons_append, List.head?_cons, Option.mem_some_iff] at member
    exact solid byte (by rw [parts, member]; exact List.mem_cons_self)
  have checked := redirCheck_operator follows array (nulFree_textOf goodFront)
    (isspace_spaces redirection) plainBehind trimmed
  obtain ⟨more, cut⟩ := redirection.op.cut_eq
  exact ⟨_, _, checked, congrArg (textOf front ++ ·) (by rw [cut]; rfl), rfl⟩

theorem redirCheck_outside (items : line.items = .redirect redirection :: back)
    (none : redirections back = []) (output : redirection.op = .output) :
    redirCheck (line.loaded st) = Option.none := by
  have items' : line.items = [] ++ .redirect redirection :: back := items
  obtain ⟨-, ⟨-, plain, -⟩, goodBack⟩ := line.good_parts items'
  have array : (line.loaded st).commandline =
      greater :: (redirection.spaces ++ (redirection.name ++ textOf back) ++ 0 :: line.rest) := by
    show textOf line.items ++ 0 :: line.rest = _
    rw [items]
    simp [textOf, Item.text, Operator.text, output]
  have spaces := plain_of_spaces (isspace_spaces redirection)
  exact redirCheck_first array (spaces.append (plain.append (plain_textOf goodBack none)))

theorem clean_iff {starts : List Nat} {name text rest : Bytes} {checked : Shell}
    (array : checked.commandline = text ++ 0 :: rest) (nulFree : 0 ∉ text)
    (beyond : less ∉ text ∧ greater ∉ text → ∀ pos ∈ starts, text.length ≤ pos) :
    Clean starts name checked ↔ (words isSep text).length < maxArgv ∧
      (less ∉ text ∧ greater ∉ text) ∧ checked.filename = name := by
  constructor
  · rintro ⟨result, after, ran, clean, -, file⟩
    have few := length_words_of_commandParse array nulFree ran
    obtain ⟨result', after', ran', strings, -, -, filename⟩ :=
      arguments_of_commandParse array nulFree few
    rw [ran] at ran'
    cases ran'
    have absent : ∀ op, isSep op = false →
        (∀ pointer ∈ after.arguments, ∀ text, after.argument pointer = some text → op ∉ text) →
          op ∉ text := by
      intro op letter none member
      obtain ⟨word, inWords, inWord⟩ := exists_mem_words_iff.mpr ⟨member, letter⟩
      obtain ⟨pointer, inArguments, string⟩ := (strings word).mpr inWords
      exact none pointer inArguments word string inWord
    -- an operator in the text is in one of its words, and so in an argument
    refine ⟨few, ⟨?_, ?_⟩, filename.symm.trans file⟩
    · exact absent less (by decide) fun pointer member text string =>
        (clean pointer member text string).1
    · exact absent greater (by decide) fun pointer member text string =>
        (clean pointer member text string).2
  · rintro ⟨few, free, file⟩
    obtain ⟨result, after, ran, strings, inside, -, filename⟩ :=
      arguments_of_commandParse array nulFree few
    refine ⟨result, after, ran, ?_, ?_, filename.trans file⟩
    · intro pointer member string here
      have inWords := (strings string).mp ⟨pointer, member, here⟩
      have inText : ∀ byte ∈ string, byte ∈ text := fun byte inString =>
        (exists_mem_words_iff.mp ⟨string, inWords, inString⟩).1
      exact ⟨fun op => free.1 (inText less op), fun op => free.2 (inText greater op)⟩
    · intro pos start member
      exact absurd (inside pos member) (Nat.not_lt.mpr (beyond free pos start))

theorem redirections_eq_nil_iff (good : ∀ item ∈ items, item.Good) :
    redirections items = [] ↔ less ∉ textOf items ∧ greater ∉ textOf items := by
  constructor
  · intro none
    have plain := plain_textOf good none
    exact ⟨fun member => (plain less member).1 rfl, fun member => (plain greater member).2.1 rfl⟩
  · rintro ⟨noLess, noGreater⟩
    by_contra some_redirection
    obtain ⟨redirection, member⟩ := List.exists_mem_of_ne_nil _ some_redirection
    rcases operator_mem_textOf member with inText | inText
    · exact noLess inText
    · exact noGreater inText

theorem redirections_eq (items : line.items = front ++ .redirect redirection :: back)
    (none : redirections back = []) :
    redirections line.items = redirections front ++ [redirection] := by
  rw [items, redirections_append]
  show redirections front ++ redirection :: redirections back = _
  rw [none]

theorem lastName_eq (items : line.items = front ++ .redirect redirection :: back)
    (none : redirections back = []) : line.lastName = redirection.name := by
  rw [ItemLine.lastName, redirections_eq items none, List.getLast?_concat]
  rfl

theorem settled_iff (items : line.items = front ++ .redirect redirection :: back)
    (none : redirections back = []) :
    Settled line ↔ (front.filterMap Item.word?).length < maxArgv ∧ redirections front = [] ∧
      back = [] ∧ (redirection.op = .output → front ≠ []) := by
  have all := redirections_eq items none
  have one : (redirections line.items).length ≤ 1 ↔ redirections front = [] := by
    rw [all, List.length_append, List.length_singleton, ← List.length_eq_zero_iff]
    omega
  have last : line.items.getLast? = some (.redirect redirection) ↔ back = [] := by
    rw [items]
    constructor
    · intro ends
      by_contra more
      rw [List.getLast?_append_of_ne_nil _ (List.cons_ne_nil _ _),
        List.getLast?_cons_of_ne_nil more] at ends
      cases List.filterMap_eq_nil_iff.mp none _ (List.mem_of_getLast? ends)
    · rintro rfl
      exact List.getLast?_concat
  have sameWords : back = [] →
      line.items.filterMap Item.word? = front.filterMap Item.word? := by
    rintro rfl
    rw [items, List.filterMap_append]
    exact List.append_nil _
  constructor
  · rintro ⟨room, single, place⟩
    have alone := one.mp single
    rw [alone, List.nil_append] at all
    obtain ⟨ends, inside⟩ := place redirection (by rw [all]; exact List.mem_singleton_self _)
    have nothing := last.mp ends
    rw [sameWords nothing] at room
    rw [items, nothing] at inside
    refine ⟨room, alone, nothing, ?_⟩
    rintro output rfl
    exact absurd (inside output) (by simp)
  · rintro ⟨room, alone, nothing, inside⟩
    rw [alone, List.nil_append] at all
    refine ⟨?_, one.mpr alone, ?_⟩
    · rw [sameWords nothing]
      exact room
    · intro other member
      rw [all, List.mem_singleton] at member
      rw [member]
      refine ⟨last.mpr nothing, ?_⟩
      intro output
      have positive := List.length_pos_of_ne_nil (inside output)
      rw [items, List.length_append, List.length_cons]
      omega

theorem noLeak_of_redirection (items : line.items = front ++ .redirect redirection :: back)
    (none : redirections back = []) (inside : redirection.op = .output → front ≠ []) :
    NoLeak line st ↔ (words isSep (textOf front)).length < maxArgv ∧ redirections front = [] ∧
      back = [] := by
  obtain ⟨goodFront, -, goodBack⟩ := line.good_parts items
  obtain ⟨checked, more, ran, array, file⟩ :
      ∃ checked more, redirCheck (line.loaded st) = some checked ∧ _ :=
    redirCheck_last items none inside
  have beyond : less ∉ textOf front ∧ greater ∉ textOf front →
      ∀ pos ∈ nameStarts 0 line.items, (textOf front).length ≤ pos := by
    intro free pos start
    have alone := (redirections_eq_nil_iff goodFront).mpr free
    rw [items, nameStarts_append, nameStarts_eq_nil 0 alone, List.nil_append, nameStarts,
      nameStarts_eq_nil _ none, List.mem_singleton] at start
    omega
  have clean : Clean (nameStarts 0 line.items) line.lastName checked ↔ _ :=
    clean_iff array (nulFree_textOf goodFront) beyond
  have same : NoLeak line st ↔ Clean (nameStarts 0 line.items) line.lastName checked := by
    unfold NoLeak
    rw [ran]
    simp
  rw [same, clean, file, lastName_eq items none, ← redirections_eq_nil_iff goodFront,
    List.append_right_eq_self, textOf_eq_nil goodBack]

theorem noLeak_of_plain (none : redirections line.items = []) :
    NoLeak line st ↔ (words isSep (textOf line.items)).length < maxArgv := by
  have plain := plain_textOf line.good none
  have ran : redirCheck (line.loaded st) = some _ := redirCheck_plain rfl plain
  have array : ({ line.loaded st with redir := .noneRedir, filename := [] } : Shell).commandline =
      textOf line.items ++ 0 :: line.rest := rfl
  have beyond : less ∉ textOf line.items ∧ greater ∉ textOf line.items →
      ∀ pos ∈ nameStarts 0 line.items, (textOf line.items).length ≤ pos := by
    rw [nameStarts_eq_nil 0 none]
    exact fun _ => nofun
  have clean : Clean (nameStarts 0 line.items) line.lastName _ ↔ _ :=
    clean_iff array plain.nulFree beyond
  have same : NoLeak line st ↔ Clean (nameStarts 0 line.items) line.lastName
      { line.loaded st with redir := .noneRedir, filename := [] } := by
    unfold NoLeak
    rw [ran]
    simp
  have name : line.lastName = [] := by
    rw [ItemLine.lastName, none]
    rfl
  rw [same, clean, name]
  exact ⟨fun all => all.1, fun few => ⟨few, (redirections_eq_nil_iff line.good).mp none, rfl⟩⟩

/-- Nothing leaks exactly if the line has no redirection, or one at its end, and room for
its words. -/
theorem noLeak_iff (line : ItemLine) (st : Shell) : NoLeak line st ↔ Settled line := by
  by_cases none : redirections line.items = []
  · rw [noLeak_of_plain none, words_textOf line.good line.apart none, Settled, none]
    simp
  · obtain ⟨front, redirection, back, items, noneBack⟩ := exists_last_redirection none
    rw [settled_iff items noneBack]
    have goodFront := (line.good_parts items).1
    have apartFront : front.IsChain Apart := by
      have apart := line.apart
      rw [items] at apart
      exact apart.left_of_append
    by_cases inside : redirection.op = .output → front ≠ []
    · rw [noLeak_of_redirection items noneBack inside]
      constructor
      · rintro ⟨room, alone, nothing⟩
        rw [words_textOf goodFront apartFront alone] at room
        exact ⟨room, alone, nothing, inside⟩
      · rintro ⟨room, alone, nothing, -⟩
        rw [words_textOf goodFront apartFront alone]
        exact ⟨room, alone, nothing⟩
    · obtain ⟨output, rfl⟩ : redirection.op = .output ∧ front = [] := by
        simpa using inside
      refine iff_of_false ?_ (fun settled => inside settled.2.2.2)
      rintro ⟨checked, ran, -⟩
      rw [redirCheck_outside items noneBack output] at ran
      cases ran

def twoFiles : ItemLine where
  items := [.word (ascii "a"), .space, .redirect ⟨.input, 1, ascii "b"⟩, .space,
    .redirect ⟨.output, 1, ascii "c"⟩]
  rest := []
  good := by decide
  apart := by decide

theorem first_redirection_leaks : ¬ NoLeak twoFiles .fresh := by
  have items : twoFiles.items =
      [.word (ascii "a"), .space, .redirect ⟨.input, 1, ascii "b"⟩, .space] ++
        [.redirect ⟨.output, 1, ascii "c"⟩] := rfl
  intro clean
  obtain ⟨-, alone, -⟩ := (noLeak_of_redirection items rfl (fun _ => nofun)).mp clean
  cases alone

end LinuxSystemLearning.MyShell
