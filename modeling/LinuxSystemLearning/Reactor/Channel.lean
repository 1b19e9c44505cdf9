import LinuxSystemLearning.Library.Loop
import LinuxSystemLearning.Reactor.Connection

/-!
# `Channel`

`Recver` and `Sender` of a connection.  Their loops may go round for ever, so
they are run with a bound on the iterations; `none` is a call that has not
returned by then, calls a handler that does not return, or goes through a null
owner.
-/

set_option autoImplicit false

namespace LinuxSystemLearning.Reactor

open LinuxSystemLearning.Cxx
open LinuxSystemLearning.Loop

namespace Channel

variable (k : Kernel)

def excepter (id : ObjId) (st : State) : Option State :=
  match (st.heap id).owner with
  | .nullptr => none
  | .reactor => some (delConnection k (st.heap id).sockfd st)

inductive RecvEnd where
  | drained (st : State)
  | closed (st : State)
  | crashed

def recvStep (id : ObjId) (st : State) : Step State RecvEnd :=
  let sockfd := (st.heap id).sockfd
  let result := k.recv st.world sockfd
  let st := st.log (.recv id sockfd result)
  match result with
  | .data piece =>
      .next (st.modify id fun conn =>
        { conn with inbuffer := conn.inbuffer ++ cString piece.bytes })
  | .eof =>
      match excepter k id st with
      | none => .stop .crashed
      | some st => .stop (.closed st)
  | .fail errno =>
      if errno = eagain ∨ errno = ewouldblock then .stop (.drained st)
      else if errno = eintr then .next st
      else
        match excepter k id st with
        | none => .stop .crashed
        -- there is no `return` here: the loop goes on with the closed descriptor
        | some st => .next st

/-- `_outbuffer += _handler(_inbuffer)`, or the input is dropped. -/
def callHandler (id : ObjId) (st : State) : Option State :=
  let conn := st.heap id
  if conn.inbuffer.isEmpty then some st
  else
    match conn.handler with
    | none => some (st.modify id fun conn => { conn with inbuffer := [] })
    | some handler =>
        match handler st.world.trace conn.inbuffer with
        | none => none
        | some (response, inbuffer) =>
            some ((st.log (.handler id conn.inbuffer response)).modify id
              fun conn => { conn with
                inbuffer := inbuffer
                outbuffer := conn.outbuffer ++ response })

def sendStep (id : ObjId) (st : State) : Step State State :=
  let conn := st.heap id
  let result := k.send st.world conn.sockfd conn.outbuffer
  let st := st.log (.send id conn.sockfd conn.outbuffer result)
  match result with
  | .sent count _ =>
      if 0 < count then
        let outbuffer := conn.outbuffer.drop count
        let st := st.modify id fun conn => { conn with outbuffer := outbuffer }
        if outbuffer.isEmpty then .stop st else .next st
      else .stop st
  | .fail errno =>
      if errno = eagain ∨ errno = ewouldblock then .stop st
      else if errno = eintr then .next st
      -- any other error: none of the branches leaves the loop
      else .next st

def sender (fuel : Nat) (id : ObjId) (st : State) : Option State := do
  let st ← Loop.run (sendStep k id) fuel st
  match (st.heap id).owner with
  | .nullptr => none
  | .reactor =>
      let pending := !(st.heap id).outbuffer.isEmpty
      some (enableReadWrite k (st.heap id).sockfd true pending st)

def recver (fuel : Nat) (id : ObjId) (st : State) : Option State := do
  match ← Loop.run (recvStep k id) fuel st with
  | .crashed => none
  | .closed st => some st
  | .drained st =>
      let st ← callHandler id st
      if (st.heap id).outbuffer.isEmpty then some st
      else sender k fuel id st

end Channel

end LinuxSystemLearning.Reactor
