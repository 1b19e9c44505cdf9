import LinuxSystemLearning.Multiplex.Servers
import LinuxSystemLearning.Reactor.Kernel

/-!
# What the servers print

`Recver` of `SelectServer`, of `PollServer` and of `EpollServer` is one function but for
the way a client is given up.  It writes the end of the string over the last byte it has
received, as if that were always a newline.
-/

set_option autoImplicit false

namespace LinuxSystemLearning.Shown

open LinuxSystemLearning.Cxx
open LinuxSystemLearning.SlotTable (defaultfd PollFd)
open Reactor (Piece)

universe u

/-! ## Taking out of a list -/

section Removed

variable {α : Type u} {removable : α → Prop}

/-- The second list is the first one without some of the elements that may be removed. -/
inductive Removed (removable : α → Prop) : List α → List α → Prop
  | nil : Removed removable [] []
  | keep {list list' : List α} (element : α) (rest : Removed removable list list') :
      Removed removable (element :: list) (element :: list')
  | remove {list list' : List α} {element : α} (allowed : removable element)
      (rest : Removed removable list list') : Removed removable (element :: list) list'

theorem Removed.refl (list : List α) : Removed removable list list := by
  induction list with
  | nil => exact .nil
  | cons element list ih => exact .keep element ih

theorem Removed.append {front front' back back' : List α}
    (first : Removed removable front front') (second : Removed removable back back') :
    Removed removable (front ++ back) (front' ++ back') := by
  induction first with
  | nil => exact second
  | keep element rest ih => exact .keep element ih
  | remove allowed rest ih => exact .remove allowed ih

theorem Removed.countP {list list' : List α} [DecidablePred removable]
    (removed : Removed removable list list') :
    list'.countP (¬ removable ·) = list.countP (¬ removable ·) := by
  induction removed with
  | nil => rfl
  | keep element rest ih => rw [List.countP_cons, List.countP_cons, ih]
  | remove allowed rest ih =>
      rw [ih, List.countP_cons_of_neg]
      simp [allowed]

end Removed

/-! ## The code -/

inductive Answer where
  | data (piece : Piece)
  | quit
  | error

def bufferSize : Nat := 1024

/-- A call of `Recver` for a client; the buffer is not initialised. -/
structure Call where
  client : Nat
  sockfd : Int
  pos : Nat
  buffer : Bytes
  answer : Answer
  buffer_size : buffer.length = bufferSize

def received (piece : Piece) (buffer : Bytes) : Bytes :=
  piece.bytes ++ buffer.drop piece.bytes.length

/-- The string in the buffer behind `buffer[n - 1] = 0`. -/
def shown (piece : Piece) (buffer : Bytes) : Bytes :=
  cString ((received piece buffer).set (piece.bytes.length - 1) 0)

section Recver

variable {Server : Type}

/-- The text behind `client say@`, if it is printed, and the server. -/
def recver (giveUp : Server → Server) (call : Call) (server : Server) : Option Bytes × Server :=
  match call.answer with
  | .data piece => (some (shown piece call.buffer), server)
  | .quit => (none, giveUp server)
  | .error => (none, giveUp server)

end Recver

/-- `opened` are the descriptors of the process. -/
structure SelectServer where
  fdArr : List Int
  opened : List Int

def SelectServer.recver (call : Call) : SelectServer → Option Bytes × SelectServer :=
  Shown.recver (fun server =>
    ⟨server.fdArr.set call.pos defaultfd, server.opened.erase call.sockfd⟩) call

structure PollServer where
  fds : List PollFd
  opened : List Int

def PollServer.recver (call : Call) : PollServer → Option Bytes × PollServer :=
  Shown.recver (fun server =>
    ⟨server.fds.set call.pos ⟨defaultfd, 0, 0⟩, server.opened.erase call.sockfd⟩) call

/-- `interest` are the descriptors in the epoll instance. -/
structure EpollServer where
  interest : List Int
  opened : List Int

def EpollServer.recver (call : Call) : EpollServer → Option Bytes × EpollServer :=
  Shown.recver (fun server =>
    ⟨server.interest.erase call.sockfd, server.opened.erase call.sockfd⟩) call

inductive Kind where
  | select
  | poll
  | epoll

def Kind.Server : Kind → Type
  | .select => SelectServer
  | .poll => PollServer
  | .epoll => EpollServer

def Kind.recver : (kind : Kind) → Call → kind.Server → Option Bytes × kind.Server
  | .select => SelectServer.recver
  | .poll => PollServer.recver
  | .epoll => EpollServer.recver

/-- The texts the calls print, each with its client. -/
def printed (kind : Kind) : List Call → kind.Server → List (Nat × Bytes)
  | [], _ => []
  | call :: calls, server =>
      let (text, after) := kind.recver call server
      (text.map (call.client, ·)).toList ++ printed kind calls after

/-! ## A client and its text -/

def Answer.piece : Answer → Option Piece
  | .data piece => some piece
  | _ => none

def pieces (client : Nat) (calls : List Call) : List Piece :=
  (calls.filter (·.client = client)).filterMap (·.answer.piece)

def stream (client : Nat) (calls : List Call) : Bytes :=
  ((pieces client calls).map Piece.bytes).flatten

def text (client : Nat) (lines : List (Nat × Bytes)) : Bytes :=
  ((lines.filter (·.1 = client)).map Prod.snd).flatten

/-- Only newlines are missing. -/
def AllShown (kind : Kind) (server : kind.Server) (calls : List Call) (client : Nat) : Prop :=
  Removed (· = 10) (stream client calls) (text client (printed kind calls server))

/-- The piece is cut at the end of a line. -/
def EndsLine (piece : Piece) : Prop := piece.bytes.getLast? = some 10

instance (piece : Piece) : Decidable (EndsLine piece) :=
  inferInstanceAs (Decidable (piece.bytes.getLast? = some 10))

/-! ## One piece -/

theorem bytes_eq (piece : Piece) :
    piece.bytes = piece.bytes.dropLast ++ [piece.bytes.getLast piece.nonempty] :=
  (List.dropLast_append_getLast piece.nonempty).symm

theorem endsLine_iff {piece : Piece} :
    EndsLine piece ↔ piece.bytes.getLast piece.nonempty = 10 := by
  rw [EndsLine, List.getLast?_eq_some_getLast piece.nonempty, Option.some.injEq]

/-- The last byte is lost, whatever it is. -/
theorem shown_eq {piece : Piece} (whole : 0 ∉ piece.bytes) (buffer : Bytes) :
    shown piece buffer = piece.bytes.dropLast := by
  have front : 0 ∉ piece.bytes.dropLast := fun member => whole (List.mem_of_mem_dropLast member)
  have length : piece.bytes.length - 1 = piece.bytes.dropLast.length :=
    List.length_dropLast.symm
  have cut : (received piece buffer).set (piece.bytes.length - 1) 0 =
      piece.bytes.dropLast ++ 0 :: buffer.drop piece.bytes.length := by
    rw [received, length]
    nth_rewrite 1 [bytes_eq piece]
    rw [List.append_assoc, List.set_append_right _ _ (Nat.le_refl _), Nat.sub_self]
    rfl
  have pass : ∀ byte ∈ piece.bytes.dropLast, (decide (byte ≠ 0)) = true := by
    intro byte member
    exact decide_eq_true fun zero => front (zero ▸ member)
  rw [shown, cut, cString, List.takeWhile_append_of_pos pass, List.takeWhile_cons_of_neg,
    List.append_nil]
  decide

/-- What is not a newline: in the text, lost, and in the stream. -/
theorem countP_flatten (pieces : List Piece) :
    ((pieces.map (·.bytes.dropLast)).flatten.countP fun byte => ¬ byte = 10) +
        pieces.countP (fun piece => ¬ EndsLine piece) =
      (pieces.map Piece.bytes).flatten.countP fun byte => ¬ byte = 10 := by
  induction pieces with
  | nil => rfl
  | cons piece pieces ih =>
      have parts := congrArg (List.countP fun byte : UInt8 => ¬ byte = 10) (bytes_eq piece)
      have last : decide (¬ EndsLine piece) =
          decide (¬ piece.bytes.getLast piece.nonempty = 10) := by
        rw [decide_eq_decide, endsLine_iff]
      rw [List.countP_append, List.countP_singleton, ← last] at parts
      simp only [List.map_cons, List.flatten_cons, List.countP_append, List.countP_cons]
      omega

theorem removed_iff (pieces : List Piece) :
    Removed (· = 10) (pieces.map Piece.bytes).flatten
        (pieces.map (·.bytes.dropLast)).flatten ↔ ∀ piece ∈ pieces, EndsLine piece := by
  constructor
  · intro removed
    have count := countP_flatten pieces
    rw [removed.countP] at count
    have nothing : pieces.countP (fun piece => ¬ EndsLine piece) = 0 := by omega
    intro piece member
    by_contra middle
    exact List.countP_eq_zero.mp nothing piece member (decide_eq_true middle)
  · intro lines
    induction pieces with
    | nil => exact .nil
    | cons piece pieces ih =>
        have last : piece.bytes = piece.bytes.dropLast ++ [10] := by
          nth_rewrite 1 [bytes_eq piece]
          rw [endsLine_iff.mp (lines piece List.mem_cons_self)]
        have first : Removed (· = 10) piece.bytes piece.bytes.dropLast := by
          have front : Removed (· = 10) piece.bytes.dropLast piece.bytes.dropLast := .refl _
          have newline : Removed (· = (10 : UInt8)) [10] [] := .remove rfl .nil
          have whole := front.append newline
          rw [← last, List.append_nil] at whole
          exact whole
        exact first.append (ih fun other member => lines other (List.mem_cons_of_mem _ member))

/-! ## All calls -/

theorem recver_fst (kind : Kind) (call : Call) (server : kind.Server) :
    (kind.recver call server).1 = call.answer.piece.map (shown · call.buffer) := by
  have common : ∀ {Server : Type} (giveUp : Server → Server) (server : Server),
      (recver giveUp call server).1 = call.answer.piece.map (shown · call.buffer) := by
    intro Server giveUp server
    unfold recver
    cases call.answer with
    | data piece => rfl
    | quit => rfl
    | error => rfl
  cases kind with
  | select => exact common _ server
  | poll => exact common _ server
  | epoll => exact common _ server

theorem pieces_cons (client : Nat) (call : Call) (calls : List Call) :
    pieces client (call :: calls) =
      (if call.client = client then call.answer.piece.toList else []) ++ pieces client calls := by
  by_cases mine : call.client = client
  · cases answer : call.answer.piece with
    | none => simp [pieces, mine, answer]
    | some piece => simp [pieces, mine, answer]
  · simp [pieces, mine]

/-- The text of a client is put together from its own calls, whatever comes between. -/
theorem text_printed {kind : Kind} {calls : List Call} {client : Nat}
    (whole : 0 ∉ stream client calls) (server : kind.Server) :
    text client (printed kind calls server) =
      ((pieces client calls).map (·.bytes.dropLast)).flatten := by
  induction calls generalizing server with
  | nil => rfl
  | cons call calls ih =>
      rw [stream, pieces_cons, List.map_append, List.flatten_append, List.mem_append,
        not_or] at whole
      have rest := ih whole.2 (kind.recver call server).2
      have line := recver_fst kind call server
      rw [pieces_cons, List.map_append, List.flatten_append, ← rest, printed]
      dsimp only
      rw [line]
      unfold text
      rw [List.filter_append, List.map_append, List.flatten_append]
      congr 1
      by_cases mine : call.client = client
      · cases answer : call.answer.piece with
        | none => simp [mine]
        | some piece =>
            have nulFree : 0 ∉ piece.bytes := by simpa [mine, answer] using whole.1
            simp [mine, shown_eq nulFree]
      · cases call.answer.piece with
        | none => simp [mine]
        | some piece => simp [mine]

/-- Nothing but newlines is missing exactly if every piece is cut at the end of a line. -/
theorem allShown_iff (kind : Kind) (server : kind.Server) {calls : List Call} {client : Nat}
    (whole : 0 ∉ stream client calls) :
    AllShown kind server calls client ↔ ∀ piece ∈ pieces client calls, EndsLine piece := by
  rw [AllShown, text_printed whole, stream, removed_iff]

def callWith (client : Nat) (answer : Answer) : Call :=
  ⟨client, client, client, List.replicate bufferSize 0, answer, List.length_replicate⟩

/-- Two clients, one of which sends two lines at once. -/
def lineCalls : List Call :=
  [callWith 4 (.data ⟨ascii "a\nb\n", by decide, by decide⟩),
    callWith 5 (.data ⟨ascii "x", by decide, by decide⟩),
    callWith 4 (.data ⟨ascii "c\n", by decide, by decide⟩), callWith 5 .error, callWith 4 .quit]

theorem lineCalls_shown :
    AllShown .epoll ⟨[4, 5], [4, 5]⟩ lineCalls 4 ∧ AllShown .poll ⟨[], []⟩ lineCalls 4 :=
  ⟨(allShown_iff .epoll _ (by decide)).mpr (by decide),
    (allShown_iff .poll _ (by decide)).mpr (by decide)⟩

def halfCalls : List Call := [callWith 4 (.data ⟨ascii "ab", by decide, by decide⟩)]

theorem halfCalls_cut : ¬ AllShown .select ⟨[3, 4], [3, 4]⟩ halfCalls 4 := by
  intro all
  have count := all.countP
  revert count
  decide

end LinuxSystemLearning.Shown
