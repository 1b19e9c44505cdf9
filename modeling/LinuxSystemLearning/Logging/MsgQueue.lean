import LinuxSystemLearning.Logging.Server

/-!
# The message queue

`Send` copies the text into the array of the message whatever its length, and the length is
not sent along: `Recv` takes what is in front of the first NUL.
-/

set_option autoImplicit false

namespace LinuxSystemLearning.Logging

open LinuxSystemLearning.Cxx

/-! ## The code -/

structure MsgBuf where
  mtype : Int
  mtext : Bytes
  size : mtext.length = defaultSize

abbrev Queue := List MsgBuf

/-- `memset`, the type, and `memcpy(msg.mtext, text.c_str(), text.size())`; `none` if the copy
leaves the array. -/
def filled (type : Int) (text : Bytes) : Option MsgBuf :=
  if room : text.length ≤ defaultSize then
    some
      { mtype := type
        mtext := text ++ List.replicate (defaultSize - text.length) 0
        size := by
          rw [List.length_append, List.length_replicate]
          omega }
  else none

/-- The kernel has room for a message or not; it takes none whose type is not positive. -/
def msgsnd (room : Bool) (msg : MsgBuf) (queue : Queue) : Queue :=
  if room ∧ 0 < msg.mtype then queue ++ [msg] else queue

def send (type : Int) (text : Bytes) (room : Bool) (queue : Queue) : Except Fault Queue :=
  match filled type text with
  | none => .error .undefinedBehaviour
  | some msg => .ok (msgsnd room msg queue)

def msgrcv (type : Int) (queue : Queue) : Option MsgBuf := queue.find? (·.mtype = type)

def MsgBuf.message (msg : MsgBuf) : Message := ⟨msg.mtext, Nat.le_of_eq msg.size⟩

/-- `Recv` blocks as long as there is no message of the type. -/
def recvFrom (type : Int) (queue : Queue) (text : Bytes) : Option (Except Fault Bytes) :=
  (msgrcv type queue).map fun msg => recv (some msg.message) text

/-! ## Round trips -/

/-- The text fits into the array together with a NUL, and has none itself. -/
def Representable (text : Bytes) : Prop := text.length < defaultSize ∧ 0 ∉ text

instance (text : Bytes) : Decidable (Representable text) :=
  inferInstanceAs (Decidable (text.length < defaultSize ∧ 0 ∉ text))

/-- Where `Recv` comes to the message it gets the text. -/
def Delivered (type : Int) (text : Bytes) (msg : MsgBuf) : Prop :=
  ∀ front back : Queue, (∀ earlier ∈ front, earlier.mtype ≠ type) → ∀ out,
    recvFrom type (front ++ msg :: back) out = some (.ok text)

/-- `Send` stores a message that delivers the text, or none. -/
def RoundTrip (type : Int) (text : Bytes) : Prop :=
  ∀ room queue, ∃ after, send type text room queue = .ok after ∧
    (after = queue ∨ ∃ msg, after = queue ++ [msg] ∧ Delivered type text msg)

structure MsgType where
  value : Int
  positive : 0 < value

variable {type : Int} {text : Bytes} {msg : MsgBuf}

theorem filled_eq (type : Int) (room : text.length ≤ defaultSize) :
    ∃ msg, filled type text = some msg ∧ msg.mtype = type ∧
      msg.mtext = text ++ List.replicate (defaultSize - text.length) 0 :=
  ⟨_, dif_pos room, rfl, rfl⟩

theorem msgrcv_first {front back : Queue} (same : msg.mtype = type)
    (others : ∀ earlier ∈ front, earlier.mtype ≠ type) :
    msgrcv type (front ++ msg :: back) = some msg := by
  have none : front.find? (·.mtype = type) = none := by
    rw [List.find?_eq_none]
    intro earlier member
    simpa using others earlier member
  rw [msgrcv, List.find?_append, none, Option.none_or,
    List.find?_cons_of_pos (by simpa using same)]

/-- Behind a text that is short enough there is a NUL. -/
theorem recv_representable (representable : Representable text)
    (mtext : msg.mtext = text ++ List.replicate (defaultSize - text.length) 0) (out : Bytes) :
    recv (some msg.message) out = .ok text := by
  obtain ⟨short, nulFree⟩ := representable
  obtain ⟨more, length⟩ : ∃ more, defaultSize - text.length = more + 1 :=
    ⟨defaultSize - text.length - 1, by omega⟩
  rw [length, List.replicate_succ] at mtext
  have terminated : msg.message.Terminated := by
    refine Or.inr ?_
    show 0 ∈ msg.mtext
    rw [mtext]
    simp
  have ends : msg.message.text = text := by
    show cString msg.mtext = text
    rw [mtext, cString_append nulFree]
  rw [recv, if_pos terminated, ends]

theorem representable_of_recv {out : Bytes}
    (mtext : msg.mtext = text ++ List.replicate (defaultSize - text.length) 0)
    (received : recv (some msg.message) out = .ok text) : Representable text := by
  unfold recv at received
  dsimp only at received
  split at received
  · rename_i terminated
    have same : cString msg.mtext = text := Except.ok.inj received
    have nulFree : 0 ∉ text := same ▸ nulFree_cString msg.mtext
    refine ⟨?_, nulFree⟩
    by_contra long
    have none : defaultSize - text.length = 0 := by omega
    rw [none, List.replicate_zero, List.append_nil] at mtext
    rcases terminated with short | inside
    · exact absurd msg.size (Nat.ne_of_lt short)
    · exact nulFree (mtext ▸ inside)
  · cases received

theorem recvFrom_of_delivered (delivered : Delivered type text msg) (same : msg.mtype = type)
    (out : Bytes) : recv (some msg.message) out = .ok text := by
  have taken := delivered [] [] nofun out
  have first : msgrcv type ([] ++ msg :: []) = some msg := msgrcv_first same nofun
  rw [recvFrom, first, Option.map_some] at taken
  exact Option.some.inj taken

theorem stored_of_send {after : Queue} (positive : 0 < type)
    (sent : send type text true [] = .ok after) :
    ∃ msg, after = [msg] ∧ msg.mtype = type ∧
      msg.mtext = text ++ List.replicate (defaultSize - text.length) 0 := by
  by_cases room : text.length ≤ defaultSize
  · obtain ⟨msg, copied, mtype, mtext⟩ := filled_eq type room
    rw [send, copied] at sent
    have stored := Except.ok.inj sent
    rw [msgsnd, if_pos ⟨rfl, mtype ▸ positive⟩] at stored
    exact ⟨msg, stored.symm, mtype, mtext⟩
  · rw [send, filled, dif_neg room] at sent
    cases sent

theorem representable_of_roundTrip (positive : 0 < type) (trip : RoundTrip type text) :
    Representable text := by
  obtain ⟨after, sent, outcome⟩ := trip true []
  obtain ⟨msg, rfl, mtype, mtext⟩ := stored_of_send positive sent
  rcases outcome with empty | ⟨other, same, delivered⟩
  · cases empty
  · cases same
    exact representable_of_recv mtext (recvFrom_of_delivered delivered mtype [])

/-- A text gets through, or is rejected, exactly if it can be represented. -/
theorem roundTrip_iff (type : MsgType) (text : Bytes) :
    RoundTrip type.value text ↔ Representable text := by
  constructor
  · exact representable_of_roundTrip type.positive
  · intro representable room queue
    obtain ⟨msg, copied, mtype, mtext⟩ := filled_eq type.value (Nat.le_of_lt representable.1)
    refine ⟨msgsnd room msg queue, by rw [send, copied], ?_⟩
    unfold msgsnd
    split
    · refine Or.inr ⟨msg, rfl, ?_⟩
      intro front back others out
      rw [recvFrom, msgrcv_first mtype others, Option.map_some,
        recv_representable representable mtext]
    · exact Or.inl rfl

/-- The receiver gets a text of one byte. -/
def embedded : Bytes := [97, 0, 98]

theorem embedded_is_cut : ¬ RoundTrip 1 embedded := by
  intro trip
  have representable := representable_of_roundTrip (by decide) trip
  exact representable.2 (by decide)

end LinuxSystemLearning.Logging
