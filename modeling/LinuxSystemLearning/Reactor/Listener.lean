import LinuxSystemLearning.Reactor.Channel

/-!
# `Listener`

`TcpSocket::Accept` and the loop that accepts every pending connection and adds
it to the reactor as a `Channel`.
-/

set_option autoImplicit false

namespace LinuxSystemLearning.Reactor

open LinuxSystemLearning.Loop

def acceptDone : Int := -1
def acceptContinue : Int := -2
def acceptErr : Int := -3

def TcpSocket.accept (k : Kernel) (sockfd : Fd) (world : World) : Int × World :=
  let (result, world) := world.accept k sockfd
  match result with
  | .accepted fd => (fd, world)
  | .fail errno =>
      if errno = eagain ∨ errno = ewouldblock then (acceptDone, world)
      else if errno = eintr then (acceptContinue, world)
      else (acceptErr, world)

namespace Listener

variable (k : Kernel)

/-- The channel for an accepted descriptor, before it is added. -/
def channelFor (listener : Connection) (sockfd : Fd) : Connection :=
  { Channel.new sockfd with
    events := epollIn ||| epollEt
    handler := listener.handler }

/-- The loop is left with `none` where `GetOwner()` is null. -/
def recvStep (id : ObjId) (st : State) : Step State (Option State) :=
  let (sockfd, world) := TcpSocket.accept k (st.heap id).sockfd st.world
  let st := { st with world := world }
  if sockfd = acceptErr then .stop (some st)
  else if sockfd = acceptContinue then .next st
  else if sockfd = acceptDone then .stop (some st)
  else
    let (conn, st) := st.make (channelFor (st.heap id) sockfd)
    match (st.heap id).owner with
    | .nullptr => .stop none
    | .reactor => .next (addConnection k conn st)

def recver (fuel : Nat) (id : ObjId) (st : State) : Option State := do
  ← Loop.run (recvStep k id) fuel st

end Listener

end LinuxSystemLearning.Reactor
