import LinuxSystemLearning.Cxx.CharArray
import LinuxSystemLearning.Library.Words

/-!
# The command line of the shell

`CommandParse` cuts the command line into its words with `strtok`.  The counter goes on by
one for the first call as well when the call finds nothing, so that a blank line has one
argument, which is `NULL`, and passes for a command.

The two versions of the shell have the same function.
-/

set_option autoImplicit false

namespace LinuxSystemLearning.MyShell

open LinuxSystemLearning.Cxx
open LinuxSystemLearning.Words

/-! ## The code -/

def maxArgv : Nat := 128

/-- `g_argv`; `none` is `NULL`, a pointer is a position in the command line. -/
structure Argv where
  slots : List (Option Nat)
  size : slots.length = maxArgv

def Argv.set (argv : Argv) (i : Nat) (pointer : Option Nat) : Argv :=
  ⟨argv.slots.set i pointer, by rw [List.length_set, argv.size]⟩

inductive Redir where
  | noneRedir
  | inputRedir
  | outputRedir
  | appedRedir
  deriving DecidableEq

structure Shell where
  commandline : Bytes
  saved : Option Nat
  argv : Argv
  argc : Nat
  redir : Redir
  filename : Bytes

def sep : Bytes := ascii " "

def assigned (token : Option Nat) (tokenizer : Tokenizer) (st : Shell) : Shell := { st with
  commandline := tokenizer.array
  saved := tokenizer.saved
  argv := st.argv.set st.argc token
  argc := st.argc + 1 }

/-- `g_argv[g_argc++] = strtok(pointer, SEP)`, and what was assigned.  Outside the array it
is undefined. -/
def assignToken (pointer : Option Nat) (st : Shell) : Option (Option Nat × Shell) :=
  match strtok pointer sep ⟨st.commandline, st.saved⟩ with
  | none => none
  | some (token, tokenizer) =>
      if st.argc < maxArgv then some (token, assigned token tokenizer st) else none

/-- The loop; it has left the array before the bound is reached. -/
def tokenLoop : Nat → Shell → Option Shell
  | 0, _ => none
  | bound + 1, st =>
      match assignToken none st with
      | none => none
      | some (none, after) => some after
      | some (some _, after) => tokenLoop bound after

def commandParse (st : Shell) : Option (Bool × Shell) := do
  let (_, st) ← assignToken (some 0) { st with argc := 0 }
  let st ← tokenLoop maxArgv st
  let st := { st with argc := st.argc - 1 }
  some (decide (0 < st.argc), st)

/-! ## What the result should be -/

def isSep (byte : UInt8) : Bool := byte ∈ sep

/-- `g_argv[0]` up to `g_argv[g_argc - 1]`. -/
def Shell.arguments (st : Shell) : List (Option Nat) := st.argv.slots.take st.argc

def Shell.argument (st : Shell) (pointer : Option Nat) : Option Bytes :=
  pointer.bind (stringAt st.commandline)

/-- A line without NUL that has fewer than 127 words, in an array that may be longer. -/
structure Line where
  text : Bytes
  rest : Bytes
  nulFree : 0 ∉ text
  few : (words isSep text).length < 127

def Line.loaded (line : Line) (st : Shell) : Shell :=
  { st with commandline := line.text ++ 0 :: line.rest }

/-- `CommandParse` returns whether there is a word, and leaves the words behind. -/
def Parsed (line : Line) (st : Shell) : Prop :=
  ∃ result after, commandParse (line.loaded st) = some (result, after) ∧
    (result = true ↔ ∃ byte ∈ line.text, isSep byte = false) ∧
    if result then
      after.argc = (words isSep line.text).length ∧
        after.arguments.map after.argument = (words isSep line.text).map some ∧
        after.argv.slots[after.argc]? = some none
    else after.argc = 0

/-! ## One token -/

theorem isSep_iff {byte : UInt8} : isSep byte = true ↔ byte ∈ sep := decide_eq_true_iff

theorem nul_not_mem_sep : (0 : UInt8) ∉ sep := by decide

theorem Argv.take_set {argv : Argv} {i : Nat} (inside : i < maxArgv) (pointer : Option Nat) :
    (argv.set i pointer).slots.take (i + 1) = argv.slots.take i ++ [pointer] := by
  have bound : i < (argv.slots.set i pointer).length := by
    rw [List.length_set, argv.size]
    exact inside
  have last : (argv.slots.set i pointer)[i]? = some pointer := by
    rw [List.getElem?_eq_getElem bound, List.getElem_set_self]
  show (argv.slots.set i pointer).take (i + 1) = _
  rw [List.take_add_one, last, List.take_set_of_le (Nat.le_refl i)]
  rfl

/-- What one token or more have done to the shell; `front` is what they leave alone. -/
structure Tokenized (front : Bytes) (st after : Shell) (tokens : List (Option Nat)) : Prop where
  front : front <+: after.commandline
  argc : after.argc = st.argc + tokens.length
  arguments : after.arguments = st.arguments ++ tokens
  redir : after.redir = st.redir
  filename : after.filename = st.filename

variable {st after : Shell} {pointer : Option Nat} {front gap word text rest : Bytes}

theorem Tokenized.trans {middle : Shell} {front' : Bytes} {tokens tokens' : List (Option Nat)}
    (first : Tokenized front st middle tokens) (second : Tokenized front' middle after tokens')
    (longer : front <+: front') : Tokenized front st after (tokens ++ tokens') where
  front := longer.trans second.front
  argc := by rw [second.argc, first.argc, List.length_append, Nat.add_assoc]
  arguments := by rw [second.arguments, first.arguments, List.append_assoc]
  redir := second.redir.trans first.redir
  filename := second.filename.trans first.filename

theorem tokenized_assigned {tokenizer : Tokenizer} (room : st.argc < maxArgv)
    (same : front <+: tokenizer.array) (token : Option Nat) :
    Tokenized front st (assigned token tokenizer st) [token] where
  front := same
  argc := rfl
  arguments := Argv.take_set room token
  redir := rfl
  filename := rfl

theorem assignToken_eq {token : Option Nat} {tokenizer : Tokenizer} (room : st.argc < maxArgv)
    (taken : strtok pointer sep ⟨st.commandline, st.saved⟩ = some (token, tokenizer)) :
    assignToken pointer st = some (token, assigned token tokenizer st) := by
  rw [assignToken, taken]
  exact if_pos room

theorem assignToken_blank (array : st.commandline = front ++ (gap ++ 0 :: rest))
    (begins : pointer.or st.saved = some front.length) (room : st.argc < maxArgv)
    (separates : ∀ byte ∈ gap, isSep byte = true) :
    ∃ after, assignToken pointer st = some (none, after) ∧
      after.commandline = st.commandline ∧ after.saved = some (front.length + gap.length) ∧
        Tokenized front st after [none] := by
  have taken : strtok pointer sep ⟨st.commandline, st.saved⟩ = some (none, _) :=
    strtok_blank array begins nul_not_mem_sep
      fun byte member => isSep_iff.mp (separates byte member)
  have same : front <+: st.commandline := by
    rw [array]
    exact List.prefix_append _ _
  exact ⟨_, assignToken_eq room taken, rfl, rfl, tokenized_assigned room same none⟩

theorem assignToken_word {stop : UInt8}
    (array : st.commandline = front ++ (gap ++ (word ++ stop :: text)))
    (begins : pointer.or st.saved = some front.length) (room : st.argc < maxArgv)
    (separates : ∀ byte ∈ gap, isSep byte = true) (nonempty : word ≠ [])
    (whole : ∀ byte ∈ word, isSep byte = false) (nulFree : 0 ∉ word)
    (ends : stop = 0 ∨ isSep stop = true) :
    ∃ after, assignToken pointer st = some (some (front.length + gap.length), after) ∧
      after.commandline = front ++ (gap ++ (word ++ 0 :: text)) ∧
      after.saved = some (front.length + gap.length + word.length + if stop = 0 then 0 else 1) ∧
        Tokenized front st after [some (front.length + gap.length)] := by
  have letters : ∀ byte ∈ word, byte ≠ 0 ∧ byte ∉ sep := by
    intro byte member
    exact ⟨fun zero => nulFree (zero ▸ member), of_decide_eq_false (whole byte member)⟩
  have taken : strtok pointer sep ⟨st.commandline, st.saved⟩ =
      some (some (front.length + gap.length), _) :=
    strtok_token array begins (fun byte member => isSep_iff.mp (separates byte member)) nonempty
      letters (ends.imp_right isSep_iff.mp)
  exact ⟨_, assignToken_eq room taken, rfl, rfl,
    tokenized_assigned room (List.prefix_append _ _) _⟩

/-- Behind the last word of the line the end of the string is left. -/
theorem assignToken_last (array : st.commandline = front ++ (gap ++ word ++ 0 :: rest))
    (begins : pointer.or st.saved = some front.length) (room : st.argc < maxArgv)
    (separates : ∀ byte ∈ gap, isSep byte = true) (nonempty : word ≠ [])
    (whole : ∀ byte ∈ word, isSep byte = false) (nulFree : 0 ∉ word) :
    ∃ after, assignToken pointer st = some (some (front.length + gap.length), after) ∧
      after.commandline = front ++ (gap ++ word) ++ ([] ++ 0 :: rest) ∧
      (none : Option Nat).or after.saved = some (front ++ (gap ++ word)).length ∧
        Tokenized front st after [some (front.length + gap.length)] := by
  rw [List.append_assoc] at array
  obtain ⟨after, ran, array', saved, tokenized⟩ :=
    assignToken_word array begins room separates nonempty whole nulFree (Or.inl rfl)
  refine ⟨after, ran, ?_, ?_, tokenized⟩
  · rw [array']
    simp
  · rw [saved]
    simp [Nat.add_assoc]

theorem assignToken_more {mark : UInt8}
    (array : st.commandline = front ++ (gap ++ (word ++ mark :: text) ++ 0 :: rest))
    (begins : pointer.or st.saved = some front.length) (room : st.argc < maxArgv)
    (separates : ∀ byte ∈ gap, isSep byte = true) (nonempty : word ≠ [])
    (whole : ∀ byte ∈ word, isSep byte = false) (nulFree : 0 ∉ word)
    (separator : isSep mark = true) :
    ∃ after, assignToken pointer st = some (some (front.length + gap.length), after) ∧
      after.commandline = front ++ (gap ++ (word ++ [0])) ++ (text ++ 0 :: rest) ∧
      (none : Option Nat).or after.saved = some (front ++ (gap ++ (word ++ [0]))).length ∧
        Tokenized front st after [some (front.length + gap.length)] := by
  rw [List.append_assoc, List.append_assoc, List.cons_append] at array
  have notNul : mark ≠ 0 := fun zero => nul_not_mem_sep (zero ▸ isSep_iff.mp separator)
  obtain ⟨after, ran, array', saved, tokenized⟩ :=
    assignToken_word array begins room separates nonempty whole nulFree (Or.inr separator)
  refine ⟨after, ran, ?_, ?_, tokenized⟩
  · rw [array']
    simp
  · rw [saved, if_neg notNul]
    simp [Nat.add_assoc]

theorem argc_of_assignToken {token : Option Nat}
    (ran : assignToken pointer st = some (token, after)) :
    st.argc < maxArgv ∧ after.argc = st.argc + 1 := by
  unfold assignToken at ran
  split at ran
  · cases ran
  · split at ran
    · cases ran
      exact ⟨by assumption, rfl⟩
    · cases ran

/-! ## The loop -/

/-- The words of the text are the strings of the new arguments, which lie inside it. -/
structure Taken (front text : Bytes) (after : Shell) (pointers : List Nat) : Prop where
  strings : pointers.map (stringAt after.commandline) = (words isSep text).map some
  inside : ∀ pointer ∈ pointers, pointer < front.length + text.length

theorem stringAt_of_prefix {array : Bytes} (nulFree : 0 ∉ word)
    (here : front ++ (gap ++ (word ++ [0])) <+: array) :
    stringAt array (front.length + gap.length) = some word := by
  obtain ⟨back, rfl⟩ := here
  have shape : front ++ (gap ++ (word ++ [0])) ++ back = front ++ gap ++ (word ++ 0 :: back) := by
    simp
  rw [shape, ← List.length_append]
  exact stringAt_append nulFree (front ++ gap) back

/-- The loop behind an assignment; the first one is in front of the loop. -/
def loopBehind (bound : Nat) : Option (Option Nat × Shell) → Option Shell
  | none => none
  | some (none, after) => some after
  | some (some _, after) => tokenLoop bound after

theorem tokenLoop_succ (bound : Nat) (st : Shell) :
    tokenLoop (bound + 1) st = loopBehind bound (assignToken none st) := by
  rw [tokenLoop]
  unfold loopBehind
  rfl

theorem nulFree_parts {mark : UInt8} (nulFree : 0 ∉ gap ++ (word ++ mark :: text)) :
    0 ∉ word ∧ 0 ∉ text := by
  simp only [List.mem_append, List.mem_cons, not_or] at nulFree
  exact ⟨nulFree.2.1, nulFree.2.2.2⟩

theorem loopBehind_words {bound : Nat} (array : st.commandline = front ++ (text ++ 0 :: rest))
    (begins : pointer.or st.saved = some front.length) (nulFree : 0 ∉ text)
    (room : st.argc + (words isSep text).length < maxArgv)
    (enough : (words isSep text).length ≤ bound) :
    ∃ after pointers, loopBehind bound (assignToken pointer st) = some after ∧
      Tokenized front st after (pointers.map some ++ [none]) ∧ Taken front text after pointers := by
  induction text using wordsInduction isSep generalizing front st pointer bound with
  | blank gap separates =>
      obtain ⟨after, ran, -, -, tokenized⟩ :=
        assignToken_blank array begins (by omega) separates
      refine ⟨after, [], by rw [ran]; rfl, tokenized, ?_, nofun⟩
      rw [words_gap separates]
      rfl
  | last gap word separates nonempty whole =>
      have one : words isSep (gap ++ word) = [word] := by
        rw [words_gap_append separates, words_word nonempty whole]
      have inWord : 0 ∉ word := fun member => nulFree (List.mem_append_right _ member)
      rw [one, List.length_singleton] at room enough
      obtain ⟨middle, ran, array', begins', tokenized⟩ :=
        assignToken_last array begins (by omega) separates nonempty whole inWord
      have argc := tokenized.argc
      rw [List.length_singleton] at argc
      obtain ⟨bound, rfl⟩ : ∃ less, bound = less + 1 := ⟨bound - 1, by omega⟩
      -- one more call is made at the end of the string
      obtain ⟨after, ran', same, -, tokenized'⟩ :=
        assignToken_blank array' begins' (by omega) nofun
      refine ⟨after, [front.length + gap.length], ?_, ?_, ?_, ?_⟩
      · rw [ran, loopBehind, tokenLoop_succ, ran']
        rfl
      · exact tokenized.trans tokenized' (List.prefix_append _ _)
      · have here : front ++ (gap ++ (word ++ [0])) <+: after.commandline := by
          rw [same, array']
          exact ⟨rest, by simp⟩
        rw [one, List.map_singleton, stringAt_of_prefix inWord here]
        rfl
      · have some_byte := List.length_pos_of_ne_nil nonempty
        intro pointer member
        rw [List.mem_singleton.mp member, List.length_append]
        omega
  | more gap word mark text separates nonempty whole separator ih =>
      have first : words isSep (gap ++ (word ++ mark :: text)) = word :: words isSep text := by
        rw [words_gap_append separates, words_word_cons nonempty whole separator]
      obtain ⟨inWord, inText⟩ := nulFree_parts nulFree
      rw [first, List.length_cons] at room enough
      obtain ⟨middle, ran, array', begins', tokenized⟩ :=
        assignToken_more array begins (by omega) separates nonempty whole inWord separator
      have argc := tokenized.argc
      rw [List.length_singleton] at argc
      obtain ⟨bound, rfl⟩ : ∃ less, bound = less + 1 := ⟨bound - 1, by omega⟩
      -- the word and its NUL are in front of all that is written from now on
      obtain ⟨after, pointers, ran', tokenized', taken⟩ :=
        ih array' begins' inText (by omega) (Nat.le_of_succ_le_succ enough)
      refine ⟨after, (front.length + gap.length) :: pointers, ?_, ?_, ?_, ?_⟩
      · rw [ran, loopBehind, tokenLoop_succ, ran']
      · exact tokenized.trans tokenized' (List.prefix_append _ _)
      · rw [List.map_cons, stringAt_of_prefix inWord tokenized'.front, taken.strings, first]
        rfl
      · have some_byte := List.length_pos_of_ne_nil nonempty
        intro pointer member
        simp only [List.length_append, List.length_cons]
        rcases List.mem_cons.mp member with rfl | later
        · omega
        · have behind := taken.inside pointer later
          simp only [List.length_append, List.length_singleton] at behind
          omega

theorem room_of_loopBehind {bound : Nat}
    (ran : loopBehind bound (assignToken pointer st) = some after) : st.argc < maxArgv := by
  cases first : assignToken pointer st with
  | none =>
      rw [first] at ran
      cases ran
  | some result => exact (argc_of_assignToken first).1

/-- With more words than slots the loop leaves the array. -/
theorem length_words_of_loopBehind {bound : Nat}
    (array : st.commandline = front ++ (text ++ 0 :: rest))
    (begins : pointer.or st.saved = some front.length) (nulFree : 0 ∉ text)
    (ran : loopBehind bound (assignToken pointer st) = some after) :
    st.argc + (words isSep text).length < maxArgv := by
  have room := room_of_loopBehind ran
  induction text using wordsInduction isSep generalizing front st pointer bound with
  | blank gap separates =>
      rw [words_gap separates]
      exact room
  | last gap word separates nonempty whole =>
      have inWord : 0 ∉ word := fun member => nulFree (List.mem_append_right _ member)
      obtain ⟨middle, first, -, -, tokenized⟩ :=
        assignToken_last array begins room separates nonempty whole inWord
      rw [first, loopBehind] at ran
      rw [words_gap_append separates, words_word nonempty whole]
      cases bound with
      | zero => cases ran
      | succ bound =>
          rw [tokenLoop_succ] at ran
          have room' := room_of_loopBehind ran
          rw [tokenized.argc] at room'
          exact room'
  | more gap word mark text separates nonempty whole separator ih =>
      obtain ⟨inWord, inText⟩ := nulFree_parts nulFree
      obtain ⟨middle, first, array', begins', tokenized⟩ :=
        assignToken_more array begins room separates nonempty whole inWord separator
      rw [first, loopBehind] at ran
      rw [words_gap_append separates, words_word_cons nonempty whole separator, List.length_cons]
      cases bound with
      | zero => cases ran
      | succ bound =>
          rw [tokenLoop_succ] at ran
          have less := ih array' begins' inText ran (room_of_loopBehind ran)
          have argc := tokenized.argc
          rw [List.length_singleton] at argc
          omega

/-! ## The line -/

theorem commandParse_words (array : st.commandline = text ++ 0 :: rest) (nulFree : 0 ∉ text)
    (nonempty : words isSep text ≠ []) (few : (words isSep text).length < maxArgv) :
    ∃ after pointers, commandParse st = some (true, after) ∧
      after.argc = pointers.length ∧ after.arguments = pointers.map some ∧
      after.argv.slots[after.argc]? = some none ∧ Taken [] text after pointers ∧
      after.redir = st.redir ∧ after.filename = st.filename := by
  have start : ({ st with argc := 0 } : Shell).commandline = [] ++ (text ++ 0 :: rest) := array
  have begins : (some 0 : Option Nat).or st.saved = some ([] : Bytes).length := rfl
  obtain ⟨after, pointers, ran, tokenized, taken⟩ := loopBehind_words start begins nulFree
    (by rw [Nat.zero_add]; exact few) (Nat.le_of_lt few)
  have count : pointers.length = (words isSep text).length := by
    simpa using congrArg List.length taken.strings
  have argc : after.argc = pointers.length + 1 := by simpa using tokenized.argc
  have slots : after.argv.slots.take (pointers.length + 1) = pointers.map some ++ [none] := by
    have all := tokenized.arguments
    rw [Shell.arguments, argc] at all
    simpa [Shell.arguments] using all
  have positive := List.length_pos_of_ne_nil nonempty
  have parsed : commandParse st = some (true, { after with argc := after.argc - 1 }) := by
    cases first : assignToken (some 0) { st with argc := 0 } with
    | none =>
        rw [first] at ran
        cases ran
    | some result =>
        obtain ⟨token, middle⟩ := result
        rw [first] at ran
        cases token with
        | none =>
            cases ran
            have one := (argc_of_assignToken first).2
            simp only at one
            omega
        | some token =>
            have behind : tokenLoop maxArgv middle = some after := ran
            have more : 0 < after.argc - 1 := by omega
            simp only [commandParse, first, behind, Option.bind_eq_bind, Option.bind_some,
              decide_eq_true more]
  have last : after.argc - 1 = pointers.length := by omega
  refine ⟨_, pointers, parsed, last, ?_, ?_, ⟨taken.strings, taken.inside⟩, tokenized.redir,
    tokenized.filename⟩
  · have front := congrArg (List.take pointers.length) slots
    rw [List.take_take, Nat.min_eq_left (Nat.le_succ _), List.take_left' (by simp)] at front
    show after.argv.slots.take (after.argc - 1) = _
    rw [last, front]
  · have behind := congrArg (·[pointers.length]?) slots
    simp only [List.getElem?_take_of_lt (Nat.lt_succ_self _)] at behind
    show after.argv.slots[after.argc - 1]? = _
    rw [last, behind, List.getElem?_append_right (by simp)]
    simp

/-- A blank line passes for a command without a name. -/
theorem commandParse_blank (array : st.commandline = text ++ 0 :: rest)
    (blank : ∀ byte ∈ text, isSep byte = true) :
    ∃ after, commandParse st = some (true, after) ∧ after.argc = 1 ∧
      after.arguments = [none] ∧ after.redir = st.redir ∧ after.filename = st.filename := by
  have start : ({ st with argc := 0 } : Shell).commandline = [] ++ (text ++ 0 :: rest) := array
  have begins : (some 0 : Option Nat).or st.saved = some ([] : Bytes).length := rfl
  obtain ⟨middle, first, array', saved, tokenized⟩ :=
    assignToken_blank start begins (Nat.zero_lt_succ 127) blank
  have start' : middle.commandline = text ++ ([] ++ 0 :: rest) := array'.trans start
  have begins' : (none : Option Nat).or middle.saved = some text.length := by simp [saved]
  have argc : middle.argc = 1 := tokenized.argc
  obtain ⟨after, second, -, -, tokenized'⟩ :=
    assignToken_blank start' begins' (by rw [argc]; decide) nofun
  have argc' : after.argc = 2 := by rw [tokenized'.argc, argc]; rfl
  have behind : tokenLoop maxArgv middle = some after := by
    show tokenLoop (127 + 1) middle = some after
    rw [tokenLoop_succ, second]
    rfl
  have slots : after.argv.slots.take 2 = [none, none] := by
    have all := (tokenized.trans tokenized' (List.nil_prefix)).arguments
    rw [Shell.arguments, argc'] at all
    exact all
  refine ⟨{ after with argc := 1 }, ?_, rfl, ?_, tokenized'.redir.trans tokenized.redir,
    tokenized'.filename.trans tokenized.filename⟩
  · simp only [commandParse, first, behind, Option.bind_eq_bind, Option.bind_some, argc']
    rfl
  · have front := congrArg (List.take 1) slots
    rw [List.take_take] at front
    exact front

/-- The strings of the arguments are the words, and they lie in front of the end of the
string. -/
theorem arguments_of_commandParse (array : st.commandline = text ++ 0 :: rest)
    (nulFree : 0 ∉ text) (few : (words isSep text).length < maxArgv) :
    ∃ result after, commandParse st = some (result, after) ∧
      (∀ word, (∃ pointer ∈ after.arguments, after.argument pointer = some word) ↔
        word ∈ words isSep text) ∧
      (∀ pos, some pos ∈ after.arguments → pos < text.length) ∧
      after.redir = st.redir ∧ after.filename = st.filename := by
  by_cases blank : words isSep text = []
  · obtain ⟨after, ran, -, arguments, kept⟩ :=
      commandParse_blank array (words_eq_nil_iff.mp blank)
    refine ⟨true, after, ran, ?_, ?_, kept⟩
    · intro word
      rw [arguments, blank]
      simp [Shell.argument]
    · intro pos member
      rw [arguments] at member
      cases List.mem_singleton.mp member
  · obtain ⟨after, pointers, ran, -, arguments, -, taken, kept⟩ :=
      commandParse_words array nulFree blank few
    refine ⟨true, after, ran, ?_, ?_, kept⟩
    · intro word
      have strings : some word ∈ pointers.map (stringAt after.commandline) ↔
          word ∈ words isSep text := by
        rw [taken.strings, List.mem_map]
        simp
      rw [← strings, arguments]
      simp only [List.mem_map, exists_exists_and_eq_and]
      rfl
    · intro pos member
      rw [arguments, List.mem_map] at member
      obtain ⟨pointer, inside, same⟩ := member
      cases same
      simpa using taken.inside pos inside

theorem length_words_of_commandParse {result : Bool × Shell}
    (array : st.commandline = text ++ 0 :: rest) (nulFree : 0 ∉ text)
    (ran : commandParse st = some result) : (words isSep text).length < maxArgv := by
  have start : ({ st with argc := 0 } : Shell).commandline = [] ++ (text ++ 0 :: rest) := array
  have begins : (some 0 : Option Nat).or st.saved = some ([] : Bytes).length := rfl
  obtain ⟨⟨token, middle⟩, first, ran⟩ := Option.bind_eq_some_iff.mp ran
  obtain ⟨after, behind, -⟩ := Option.bind_eq_some_iff.mp ran
  have ends : ∃ last, loopBehind maxArgv (assignToken (some 0) { st with argc := 0 }) =
      some last := by
    rw [first]
    cases token with
    | none => exact ⟨middle, rfl⟩
    | some token => exact ⟨after, behind⟩
  obtain ⟨last, behind'⟩ := ends
  have less := length_words_of_loopBehind start begins nulFree behind'
  rw [Nat.zero_add] at less
  exact less

/-- `CommandParse` is right exactly if there is a word. -/
theorem parsed_iff (line : Line) (st : Shell) :
    Parsed line st ↔ ∃ byte ∈ line.text, isSep byte = false := by
  have array : (line.loaded st).commandline = line.text ++ 0 :: line.rest := rfl
  by_cases blank : words isSep line.text = []
  · have separates := words_eq_nil_iff.mp blank
    obtain ⟨after, ran, -⟩ := commandParse_blank array separates
    constructor
    · rintro ⟨result, after', ran', right, -⟩
      rw [ran] at ran'
      cases ran'
      exact right.mp rfl
    · rintro ⟨byte, member, letter⟩
      rw [separates byte member] at letter
      cases letter
  · have few : (words isSep line.text).length < maxArgv := Nat.lt_succ_of_lt line.few
    have letter : ∃ byte ∈ line.text, isSep byte = false := by
      by_contra none
      apply blank
      rw [words_eq_nil_iff]
      intro byte member
      by_contra letter
      exact none ⟨byte, member, Bool.eq_false_iff.mpr letter⟩
    obtain ⟨after, pointers, ran, argc, arguments, last, taken, -⟩ :=
      commandParse_words array line.nulFree blank few
    have count : pointers.length = (words isSep line.text).length := by
      simpa using congrArg List.length taken.strings
    refine iff_of_true ⟨true, after, ran, ⟨fun _ => letter, fun _ => rfl⟩, ?_⟩ letter
    refine ⟨argc.trans count, ?_, last⟩
    rw [arguments, List.map_map]
    exact taken.strings

def Shell.fresh : Shell where
  commandline := []
  saved := none
  argv := ⟨List.replicate maxArgv none, List.length_replicate⟩
  argc := 0
  redir := .noneRedir
  filename := []

def emptyLine : Line := ⟨[], [], nofun, by decide⟩

theorem emptyLine_is_command : ¬ Parsed emptyLine .fresh := by
  have array : (emptyLine.loaded .fresh).commandline = [] ++ 0 :: [] := rfl
  obtain ⟨after, ran, -⟩ := commandParse_blank array nofun
  rintro ⟨result, after', ran', right, -⟩
  rw [ran] at ran'
  cases ran'
  obtain ⟨byte, member, -⟩ := right.mp rfl
  cases member

end LinuxSystemLearning.MyShell
