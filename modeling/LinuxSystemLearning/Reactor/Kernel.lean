import LinuxSystemLearning.Cxx.Text
import Mathlib.Logic.Function.Basic

/-!
# The kernel as the reactor sees it

Descriptors, the epoll interest list and the system calls of the reactor server.
What a call answers is up to a `Kernel`, a function of everything that happened
so far, so a statement about every kernel is one about every sequence of
outcomes.  `trace` records the calls; the object that made a call stands in it
as well, which the kernel does not look at.
-/

set_option autoImplicit false

namespace LinuxSystemLearning.Reactor

open LinuxSystemLearning.Cxx

abbrev Fd := Int

/-- A connection object, told apart from the others by when it was made. -/
abbrev ObjId := Nat

abbrev Mask := BitVec 32

def epollIn : Mask := 0x001
def epollOut : Mask := 0x004
def epollErr : Mask := 0x008
def epollHup : Mask := 0x010
def epollEt : Mask := 0x80000000

def Mask.has (mask bits : Mask) : Bool := mask &&& bits != 0

def eintr : Nat := 4
def ebadf : Nat := 9
def eagain : Nat := 11
def ewouldblock : Nat := 11
def epipe : Nat := 32
def econnreset : Nat := 104

/-- The errors after which a connection is of no use. -/
def Fatal (errno : Nat) : Prop :=
  ¬ (errno = eagain ∨ errno = ewouldblock) ∧ errno ≠ eintr

instance (errno : Nat) : Decidable (Fatal errno) :=
  inferInstanceAs (Decidable (_ ∧ _))

/-- What one `recv` into the 1024 byte array can return. -/
structure Piece where
  bytes : Bytes
  nonempty : bytes ≠ []
  fits : bytes.length ≤ 1023
  deriving DecidableEq

inductive RecvResult where
  | data (piece : Piece)
  | eof
  | fail (errno : Nat)
  deriving DecidableEq

/-- Linux sends at most 0x7ffff000 bytes in one call, so the count fits the `int`
it is stored in. -/
inductive SendResult where
  | sent (count : Nat) (fits : count < 2 ^ 31)
  | fail (errno : Nat)
  deriving DecidableEq

def SendResult.count : SendResult → Nat
  | .sent count _ => count
  | .fail _ => 0

inductive AcceptResult where
  | accepted (fd : Nat)
  | fail (errno : Nat)
  deriving DecidableEq

inductive CtlOp where
  | add (events : Mask)
  | mod (events : Mask)
  | del
  deriving DecidableEq

inductive Event where
  | epollWait (ready : List (Fd × Mask))
  | epollCtl (op : CtlOp) (fd : Fd) (ok : Bool)
  | accept (fd : Fd) (result : AcceptResult)
  | close (fd : Fd)
  | recv (id : ObjId) (fd : Fd) (result : RecvResult)
  | send (id : ObjId) (fd : Fd) (data : Bytes) (result : SendResult)
  | recver (id : ObjId) (fd : Fd)
  | sender (id : ObjId) (fd : Fd)
  | handler (id : ObjId) (inbuffer response : Bytes)
  | connExists (fd : Fd)
  | delConnection (fd : Fd)
  | enableReadWrite (fd : Fd) (readable writeable : Bool)
  deriving DecidableEq

/-- `opened` are the descriptors open for the listener and what it accepted. -/
structure World where
  opened : Fd → Bool
  interest : Fd → Option Mask
  trace : List Event

structure Kernel where
  recv : World → Fd → RecvResult
  send : World → Fd → Bytes → SendResult
  accept : World → Fd → AcceptResult
  epollCtl : World → CtlOp → Fd → Bool
  epollWait : World → List (Fd × Mask)

namespace World

def log (event : Event) (world : World) : World :=
  { world with trace := world.trace ++ [event] }

/-- What a successful `epoll_ctl` does to the interest of its descriptor. -/
def interestAfter : CtlOp → Option Mask
  | .add events => some events
  | .mod events => some events
  | .del => none

def epollCtl (k : Kernel) (op : CtlOp) (fd : Fd) (world : World) : World :=
  let ok := k.epollCtl world op fd
  { world with
    interest :=
      if ok then Function.update world.interest fd (interestAfter op)
      else world.interest
    trace := world.trace ++ [.epollCtl op fd ok] }

/-- Closing the last descriptor of a socket also takes it off the interest list. -/
def close (fd : Fd) (world : World) : World :=
  { opened := Function.update world.opened fd false
    interest := Function.update world.interest fd none
    trace := world.trace ++ [.close fd] }

def accept (k : Kernel) (fd : Fd) (world : World) : AcceptResult × World :=
  let result := k.accept world fd
  let world := world.log (.accept fd result)
  match result with
  | .accepted newfd =>
      (result, { world with opened := Function.update world.opened newfd true })
  | .fail _ => (result, world)

end World

/-! ## `Epoller` -/

namespace Epoller

def addEvent (k : Kernel) (sockfd : Fd) (events : Mask) : World → World :=
  World.epollCtl k (.add events) sockfd

def delEvent (k : Kernel) (sockfd : Fd) : World → World :=
  World.epollCtl k .del sockfd

def modEvent (k : Kernel) (sockfd : Fd) (events : Mask) : World → World :=
  World.epollCtl k (.mod events) sockfd

end Epoller

/-- `recvs_size`, the room in the array of ready events. -/
def recvsSize : Nat := 128

/-- `WaitEvents`; an error or a timeout leaves the array empty. -/
def Epoller.waitEvents (k : Kernel) (world : World) : List (Fd × Mask) × World :=
  let ready := (k.epollWait world).take recvsSize
  (ready, world.log (.epollWait ready))

/-! ## What the calls leave alone -/

namespace World

variable (k : Kernel) (world : World)

@[simp] theorem log_opened (event : Event) :
    (world.log event).opened = world.opened := rfl

@[simp] theorem log_interest (event : Event) :
    (world.log event).interest = world.interest := rfl

@[simp] theorem log_trace (event : Event) :
    (world.log event).trace = world.trace ++ [event] := rfl

@[simp] theorem epollCtl_opened (op : CtlOp) (fd : Fd) :
    (world.epollCtl k op fd).opened = world.opened := rfl

@[simp] theorem epollCtl_trace (op : CtlOp) (fd : Fd) :
    (world.epollCtl k op fd).trace =
      world.trace ++ [.epollCtl op fd (k.epollCtl world op fd)] := rfl

theorem epollCtl_interest_of_ok {op : CtlOp} {fd : Fd}
    (ok : k.epollCtl world op fd = true) :
    (world.epollCtl k op fd).interest =
      Function.update world.interest fd (interestAfter op) := by
  simp [epollCtl, ok]

@[simp] theorem close_opened (fd : Fd) :
    (world.close fd).opened = Function.update world.opened fd false := rfl

@[simp] theorem close_interest (fd : Fd) :
    (world.close fd).interest = Function.update world.interest fd none := rfl

@[simp] theorem close_trace (fd : Fd) :
    (world.close fd).trace = world.trace ++ [.close fd] := rfl

end World

/-! ## A scripted kernel -/

def World.calls (kind : Event → Bool) (world : World) : Nat :=
  world.trace.countP kind

/-- A kernel that takes its answers off lists, one after the other, and says
`EAGAIN` when they are used up.  Calls on a descriptor that is not open fail, an
open one is not accepted again, and `epoll_ctl` succeeds. -/
def Kernel.scripted (ready : List (List (Fd × Mask))) (accepts : List Nat)
    (recvs : List RecvResult) (sends : List SendResult) : Kernel where
  recv world fd :=
    if world.opened fd then
      recvs.getD (world.calls fun | .recv _ _ _ => true | _ => false) (.fail eagain)
    else .fail ebadf
  send world fd _ :=
    if world.opened fd then
      sends.getD (world.calls fun | .send _ _ _ _ => true | _ => false) (.fail eagain)
    else .fail ebadf
  accept world _ :=
    match accepts[world.calls fun | .accept _ _ => true | _ => false]? with
    | none => .fail eagain
    | some fd => if world.opened fd then .fail eagain else .accepted fd
  epollCtl _ _ _ := true
  epollWait world :=
    ready.getD (world.calls fun | .epollWait _ => true | _ => false) []

end LinuxSystemLearning.Reactor
