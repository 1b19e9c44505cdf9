import LinuxSystemLearning.Logging.Chain

/-!
# The server of the message queue

The loop of `main` receives a text and hands it to the handlers.  The text is one string
for all rounds: a receive that fails leaves in it what the round before put there.
-/

set_option autoImplicit false

namespace LinuxSystemLearning.Logging

open LinuxSystemLearning.Cxx LinuxSystemLearning.Interleaving

def defaultSize : Nat := 1024

/-- What a message puts in `mtext`; the rest of the array is zero. -/
structure Message where
  mtext : Bytes
  fits : mtext.length ≤ defaultSize

/-- The characters in front of the first NUL. -/
def Message.text (message : Message) : Bytes := cString message.mtext

def Message.Terminated (message : Message) : Prop :=
  message.mtext.length < defaultSize ∨ 0 ∈ message.mtext

instance (message : Message) : Decidable message.Terminated :=
  inferInstanceAs (Decidable (message.mtext.length < defaultSize ∨ 0 ∈ message.mtext))

/-- `msgrcv` fails or takes a message.  An array without a NUL is read beyond its end. -/
def recv (outcome : Option Message) (text : Bytes) : Except Fault Bytes :=
  match outcome with
  | none => .ok text
  | some message =>
      if message.Terminated then .ok message.text else .error .undefinedBehaviour

inductive Status where
  | looping
  | broken
  | overread
deriving DecidableEq, Repr

structure Server where
  text : Bytes
  world : World
  status : Status
  /-- The texts of the messages, in the order in which they were received. -/
  received : List Bytes
  /-- The texts handed to `HandlerEntry::Run`. -/
  runs : List Bytes

/-- One round of the loop: what `msgrcv` does, and what a call of `Run` would meet. -/
structure Round where
  outcome : Option Message
  call : Call

def exitText : Bytes := ascii "exit"

def handle (call : Call) (text : Bytes) (server : Server) : Server :=
  if text = exitText then { server with text := text, status := .broken }
  else
    { server with
      text := text
      world := (enableHandler true true true).run { call with text := text } server.world
      runs := server.runs ++ [text] }

def received (outcome : Option Message) (server : Server) : Server :=
  { server with received := server.received ++ (outcome.map Message.text).toList }

def serve (server : Server) (round : Round) : Option Server :=
  if server.status = .looping ∧ server.world.ended = none then
    match recv round.outcome server.text with
    | .error _ => some { received round.outcome server with status := .overread }
    | .ok text => some (handle round.call text (received round.outcome server))
  else none

def serverStart : Server where
  text := []
  world := start
  status := .looping
  received := []
  runs := []

def upToExit (texts : List Bytes) : List Bytes := texts.takeWhile (· ≠ exitText)

/-- Each message was handed on once, up to the one that says `exit`. -/
structure Exact (server : Server) : Prop where
  inside : server.status ≠ .overread
  same : server.runs = upToExit server.received

/-- A message came, and its text ends within the array. -/
def Round.Received (round : Round) : Prop := ∃ message, round.outcome = some message ∧
  message.Terminated

/-! ## One round -/

theorem upToExit_eq {texts : List Bytes} (going : exitText ∉ texts) :
    upToExit texts = texts := by
  rw [upToExit, List.takeWhile_eq_self_iff]
  intro text member
  rw [decide_eq_true_eq]
  rintro rfl
  exact going member

theorem upToExit_concat {texts : List Bytes} (going : exitText ∉ texts) (text : Bytes) :
    upToExit (texts ++ [text]) = if text = exitText then texts else texts ++ [text] := by
  have whole := upToExit_eq going
  unfold upToExit at whole ⊢
  rw [List.takeWhile_append, whole, if_pos rfl]
  split
  · rename_i last
    simp [last]
  · rename_i other
    simp [other]

theorem received_none (server : Server) : received none server = server := by
  simp [received]

theorem received_some (message : Message) (server : Server) :
    (received (some message) server).received = server.received ++ [message.text] :=
  rfl

@[simp] theorem received_status (outcome : Option Message) (server : Server) :
    (received outcome server).status = server.status :=
  rfl

@[simp] theorem received_runs (outcome : Option Message) (server : Server) :
    (received outcome server).runs = server.runs :=
  rfl

@[simp] theorem handle_received (call : Call) (text : Bytes) (server : Server) :
    (handle call text server).received = server.received := by
  unfold handle
  split
  · rfl
  · rfl

theorem handle_exit (call : Call) (server : Server) :
    (handle call exitText server).runs = server.runs ∧
      (handle call exitText server).status = .broken := by
  simp [handle]

theorem handle_other {text : Bytes} (other : text ≠ exitText) (call : Call)
    (server : Server) :
    (handle call text server).runs = server.runs ++ [text] ∧
      (handle call text server).status = server.status ∧
      (handle call text server).text = text := by
  simp [handle, other]

theorem serve_cases {server after : Server} {round : Round}
    (served : serve server round = some after) :
    server.status = .looping ∧
      ((∃ message, round.outcome = some message ∧ ¬ message.Terminated ∧
          after.status = .overread) ∨
        (∃ message, round.outcome = some message ∧ message.Terminated ∧
          after = handle round.call message.text (received (some message) server)) ∨
        (round.outcome = none ∧ after = handle round.call server.text server)) := by
  unfold serve at served
  split at served
  · rename_i going
    refine ⟨going.1, ?_⟩
    cases outcome : round.outcome with
    | none =>
        simp only [outcome, recv, received_none, Option.some.injEq] at served
        exact Or.inr (Or.inr ⟨rfl, served.symm⟩)
    | some message =>
        by_cases terminated : message.Terminated
        · simp only [outcome, recv, terminated, if_true, Option.some.injEq] at served
          exact Or.inr (Or.inl ⟨message, rfl, terminated, served.symm⟩)
        · simp only [outcome, recv, terminated, if_false, Option.some.injEq] at served
          exact Or.inl ⟨message, rfl, terminated, by rw [← served]⟩
  · cases served

/-! ## All rounds -/

/-- What holds between two rounds, whatever fails. -/
structure Going (server : Server) : Prop where
  noExit : server.status = .looping → exitText ∉ server.received
  noExitText : server.text ≠ exitText ∨ server.status ≠ .looping
  more : server.status = .looping → server.received.length ≤ server.runs.length

theorem going_start : Going serverStart where
  noExit := fun _ => List.not_mem_nil
  noExitText := Or.inl (by decide)
  more := fun _ => Nat.le_refl 0

theorem not_mem_concat {texts : List Bytes} (going : exitText ∉ texts) {text : Bytes}
    (other : text ≠ exitText) : exitText ∉ texts ++ [text] := by
  rw [List.mem_append, List.mem_singleton, not_or]
  exact ⟨going, other.symm⟩

theorem Going.text_ne {server : Server} (going : Going server)
    (looping : server.status = .looping) : server.text ≠ exitText := by
  rcases going.noExitText with other | ended
  · exact other
  · exact absurd looping ended

theorem Going.serve {server after : Server} {round : Round} (going : Going server)
    (served : Logging.serve server round = some after) : Going after := by
  obtain ⟨looping, moved⟩ := serve_cases served
  have noExit := going.noExit looping
  have more := going.more looping
  rcases moved with ⟨message, -, -, stopped⟩ | ⟨message, -, -, rfl⟩ | ⟨-, rfl⟩
  · have ended : after.status ≠ .looping := by simp [stopped]
    exact ⟨fun back => absurd back ended, Or.inr ended, fun back => absurd back ended⟩
  · by_cases last : message.text = exitText
    · rw [last]
      have ended := (handle_exit round.call (received (some message) server)).2
      refine ⟨?_, Or.inr ?_, ?_⟩
      · simp [ended]
      · simp [ended]
      · simp [ended]
    · obtain ⟨runs, status, text⟩ :=
        handle_other last round.call (received (some message) server)
      refine ⟨?_, Or.inl ?_, ?_⟩
      · intro _
        rw [handle_received, received_some]
        exact not_mem_concat noExit last
      · rw [text]
        exact last
      · intro _
        rw [runs, handle_received, received_some]
        simpa using more
  · have other := going.text_ne looping
    obtain ⟨runs, status, text⟩ := handle_other other round.call server
    refine ⟨?_, Or.inl ?_, ?_⟩
    · intro _
      rw [handle_received]
      exact noExit
    · rw [text]
      exact other
    · intro _
      rw [runs, handle_received, List.length_append]
      exact Nat.le_add_right_of_le more

theorem Exact.serve {server after : Server} {round : Round} (right : Exact server)
    (going : Going server) (good : round.Received)
    (served : Logging.serve server round = some after) : Exact after := by
  obtain ⟨looping, moved⟩ := serve_cases served
  have noExit := going.noExit looping
  have same : server.runs = server.received := right.same.trans (upToExit_eq noExit)
  obtain ⟨message, came, terminated⟩ := good
  rcases moved with ⟨other, came', bad, -⟩ | ⟨other, came', -, rfl⟩ | ⟨failed, -⟩
  · rw [came] at came'
    cases came'
    exact absurd terminated bad
  · by_cases last : other.text = exitText
    · rw [last]
      obtain ⟨runs, status⟩ := handle_exit round.call (received (some other) server)
      refine ⟨by simp [status], ?_⟩
      rw [runs, handle_received, received_some, last, upToExit_concat noExit, if_pos rfl,
        received_runs, same]
    · obtain ⟨runs, status, -⟩ :=
        handle_other last round.call (received (some other) server)
      refine ⟨by simp [status, looping], ?_⟩
      rw [runs, handle_received, received_some, upToExit_concat noExit, if_neg last,
        received_runs, same]
  · rw [came] at failed
    cases failed

/-- The handlers got a text too many, or the loop read beyond the array. -/
structure Amiss (server : Server) : Prop where
  noExit : server.status = .looping → exitText ∉ server.received
  tooMany : server.status ≠ .overread →
    (upToExit server.received).length < server.runs.length

theorem Amiss.serve {server after : Server} {round : Round} (amiss : Amiss server)
    (served : Logging.serve server round = some after) : Amiss after := by
  obtain ⟨looping, moved⟩ := serve_cases served
  have noExit := amiss.noExit looping
  have tooMany := amiss.tooMany (by simp [looping])
  rw [upToExit_eq noExit] at tooMany
  rcases moved with ⟨message, -, -, stopped⟩ | ⟨message, -, -, rfl⟩ | ⟨-, rfl⟩
  · exact ⟨by simp [stopped], by simp [stopped]⟩
  · by_cases last : message.text = exitText
    · rw [last]
      obtain ⟨runs, status⟩ := handle_exit round.call (received (some message) server)
      refine ⟨by simp [status], ?_⟩
      intro _
      rw [runs, handle_received, received_some, last, upToExit_concat noExit, if_pos rfl]
      exact tooMany
    · obtain ⟨runs, status, -⟩ :=
        handle_other last round.call (received (some message) server)
      refine ⟨?_, ?_⟩
      · intro _
        rw [handle_received, received_some]
        exact not_mem_concat noExit last
      · intro _
        rw [runs, handle_received, received_some, upToExit_concat noExit, if_neg last]
        simpa using tooMany
  · by_cases last : server.text = exitText
    · rw [last]
      obtain ⟨runs, status⟩ := handle_exit round.call server
      refine ⟨by simp [status], ?_⟩
      intro _
      rw [runs, handle_received, upToExit_eq noExit]
      exact tooMany
    · obtain ⟨runs, status, -⟩ := handle_other last round.call server
      refine ⟨?_, ?_⟩
      · intro _
        rw [handle_received]
        exact noExit
      · intro _
        rw [runs, handle_received, upToExit_eq noExit, List.length_append]
        exact Nat.lt_add_right _ tooMany

/-- A receive that fails hands on the text of the round before once more. -/
theorem Going.amiss {server after : Server} {round : Round} (going : Going server)
    (bad : ¬ round.Received) (served : Logging.serve server round = some after) :
    Amiss after := by
  obtain ⟨looping, moved⟩ := serve_cases served
  have noExit := going.noExit looping
  rcases moved with ⟨message, -, -, stopped⟩ | ⟨message, came, terminated, -⟩ | ⟨-, rfl⟩
  · exact ⟨by simp [stopped], by simp [stopped]⟩
  · exact absurd ⟨message, came, terminated⟩ bad
  · have other := going.text_ne looping
    obtain ⟨runs, status, -⟩ := handle_other other round.call server
    refine ⟨?_, ?_⟩
    · intro _
      rw [handle_received]
      exact noExit
    · intro _
      rw [runs, handle_received, upToExit_eq noExit, List.length_append]
      exact Nat.lt_succ_of_le (going.more looping)

theorem Amiss.not_exact {server : Server} (amiss : Amiss server) : ¬ Exact server := by
  intro right
  have fewer := amiss.tooMany right.inside
  rw [right.same] at fewer
  exact Nat.lt_irrefl _ fewer

/-- Each message is handed on exactly once in a run exactly if no receive fails in it. -/
theorem exact_iff_all_received {rounds : List Round} {last : Server}
    (ran : play serve serverStart rounds = some last) :
    Exact last ↔ ∀ round ∈ rounds, round.Received := by
  rw [← throughout_iff_forall_mem ran]
  constructor
  · intro right
    by_contra breach
    exact (bad_of_not_throughout Going Amiss (fun _ _ _ going served => going.serve served)
      (fun _ _ _ going bad served => going.amiss bad served)
      (fun _ _ _ amiss served => amiss.serve served) going_start ran breach).not_exact right
  · intro met
    have both : Exact last ∧ Going last := by
      refine invariant_throughout (fun server => Exact server ∧ Going server) ?_
        ⟨⟨by decide, rfl⟩, going_start⟩ ran met
      intro server round after holds good served
      exact ⟨holds.1.serve holds.2 good served, holds.2.serve served⟩
    exact both.1

def messageOf (mtext : Bytes) (fits : mtext.length ≤ defaultSize) : Round :=
  ⟨some ⟨mtext, fits⟩, runA⟩

def threeMessages : List Round :=
  [messageOf (ascii "a") (by decide), messageOf (ascii "b") (by decide),
    messageOf exitText (by decide)]

theorem exact_three_messages :
    ∃ last, play serve serverStart threeMessages = some last ∧ Exact last := by
  have ran : (play serve serverStart threeMessages).isSome := by decide
  obtain ⟨last, ran⟩ := Option.isSome_iff_exists.mp ran
  refine ⟨last, ran, (exact_iff_all_received ran).mpr ?_⟩
  intro round member
  simp only [threeMessages, List.mem_cons, List.not_mem_nil, or_false] at member
  rcases member with rfl | rfl | rfl
  · exact ⟨_, rfl, by decide⟩
  · exact ⟨_, rfl, by decide⟩
  · exact ⟨_, rfl, by decide⟩

/-- The first receive fails, and the handlers are given an empty text. -/
theorem failed_receive_runs_empty_text :
    ∃ last, play serve serverStart [⟨none, runA⟩] = some last ∧ ¬ Exact last := by
  refine ⟨_, rfl, ?_⟩
  intro right
  exact absurd right.same (by decide)

end LinuxSystemLearning.Logging
