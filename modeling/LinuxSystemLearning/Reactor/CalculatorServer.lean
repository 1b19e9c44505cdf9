import LinuxSystemLearning.Calculator.Client
import LinuxSystemLearning.Calculator.JsonText
import LinuxSystemLearning.Library.Arriving
import LinuxSystemLearning.Reactor.OutputConservation

/-!
# The calculator behind the reactor

`main` registers the calculator's handler on the listener, which hands it on to
every channel it accepts.  Each channel in the table then is a run of the model
of one connection: its calls are the `Recver` calls the dispatcher made for it,
whatever the other connections did in between, and what `send` accepted followed
by `_outbuffer` is what that run put out.
-/

set_option autoImplicit false

namespace LinuxSystemLearning.Reactor

open LinuxSystemLearning.Cxx
open LinuxSystemLearning.Incremental
open LinuxSystemLearning.Loop
open Calculator
open Calculator.Protocol

/-- `main`'s handler with a bound on its iterations; there is no answer where it
throws or is still running then. -/
def calculator (serve : Bytes → Except Fault Bytes) (rounds : Nat) : Handler :=
  fun _ inbuffer =>
    match Loop.run (handlerStep serve) rounds (.enter inbuffer) with
    | some (.returned last) => some (last.responseStr, last.inbuffer)
    | some (.threw _ _) => none
    | none => none

theorem calculator_returned {serve : Bytes → Except Fault Bytes} {rounds : Nat}
    {trace : List Event} {inbuffer response rest : Bytes}
    (answered : calculator serve rounds trace inbuffer = some (response, rest)) :
    ∃ last, Ends (handlerStep serve) (.enter inbuffer) (.returned last) ∧
      last.responseStr = response ∧ last.inbuffer = rest := by
  unfold calculator at answered
  split at answered
  · rename_i last ran
    cases answered
    exact ⟨last, ends_of_run _ _ _ _ ran, rfl, rfl⟩
  · cases answered
  · cases answered

variable {k : Kernel} {id : ObjId} {serve : Bytes → Except Fault Bytes}
  {rounds : Nat}

/-! ## The calls -/

/-- `seen` is the run of the calls made on the channel so far. -/
structure Views (serve : Bytes → Except Fault Bytes) (st : State) (id : ObjId)
    (calls : List (List Bytes)) (seen : Seen) : Prop where
  run : Run (Recver serve) calls seen
  alive : seen.alive = true
  pieces : calls.flatten = receivedPieces id st.world.trace
  buffer : seen.buffer = (st.heap id).inbuffer
  output : seen.output = handlerOutputs id st.world.trace

def Served (serve : Bytes → Except Fault Bytes) (st : State) (id : ObjId) : Prop :=
  ∃ calls seen, Views serve st id calls seen

theorem Served.of_same {st after : State} (served : Served serve st id)
    (inbuffer : (after.heap id).inbuffer = (st.heap id).inbuffer)
    (pieces : (wire id after).pieces = (wire id st).pieces)
    (outputs : (wire id after).outputs = (wire id st).outputs) :
    Served serve after id := by
  obtain ⟨calls, seen, views⟩ := served
  exact ⟨calls, seen, views.run, views.alive, views.pieces.trans pieces.symm,
    views.buffer.trans inbuffer.symm, views.output.trans outputs.symm⟩

/-- Reading until `EAGAIN` and calling the handler is one more call of the run. -/
theorem Served.recver {fuel : Nat} {st read handled : State}
    (served : Served serve st id)
    (handler : (st.heap id).handler = some (calculator serve rounds))
    (ran : Loop.run (Channel.recvStep k id) fuel st = some (.drained read))
    (called : Channel.callHandler id read = some handled) :
    Served serve handled id := by
  obtain ⟨calls, seen, views⟩ := served
  obtain ⟨got, heard, object⟩ := Channel.reading_adds ran
  have inbuffer : (read.heap id).inbuffer = seen.buffer ++ received got := by
    rw [object, views.buffer]
    rfl
  have pieces : (wire id read).pieces = (calls ++ [got]).flatten := by
    rw [heard, List.flatten_append, views.pieces]
    simp [wire]
  have outputs : (wire id read).outputs = seen.output := by
    rw [heard, views.output]
    rfl
  refine ⟨calls ++ [got], ?_⟩
  rcases Channel.callHandler_cases called with
    ⟨empty, rfl⟩ | ⟨missing, -⟩ | ⟨answers, response, rest, registered, something,
      answered, rfl⟩
  · -- nothing has arrived, and the handler is not called
    have nothing : Recver serve seen got
        { seen with received := seen.received ++ received got } :=
      .nothing (inbuffer ▸ empty)
    refine ⟨_, .call views.run views.alive nothing, views.alive, pieces.symm, ?_,
      outputs.symm⟩
    rw [empty, ← (List.append_eq_nil_iff.mp (inbuffer ▸ empty)).1]
  · rw [object, handler] at missing
    cases missing
  · rw [object, handler] at registered
    cases registered
    obtain ⟨last, ends, rfl, rfl⟩ := calculator_returned answered
    rw [inbuffer] at ends something
    have call : Recver serve seen got
        ⟨seen.received ++ received got, last.inbuffer, seen.items ++ last.packages,
          seen.output ++ last.responseStr, true⟩ :=
      .handler something (.returned ends)
    have same : (wire id (handleDone id last.responseStr last.inbuffer read)).pieces =
        (wire id read).pieces := by
      rw [wire_handleDone]
    have answer : (wire id (handleDone id last.responseStr last.inbuffer read)).outputs =
        (wire id read).outputs ++ last.responseStr := by
      rw [wire_handleDone]
    refine ⟨_, .call views.run views.alive call, rfl, pieces.symm.trans same.symm, ?_, ?_⟩
    · simp [handleDone]
    · rw [← outputs]
      exact answer.symm

theorem Channel.sendStep_keeps {st after : State}
    (stepped : Channel.sendStep k id st = .next after ∨
      Channel.sendStep k id st = .stop after) :
    (after.heap id).inbuffer = (st.heap id).inbuffer ∧
      (wire id after).pieces = (wire id st).pieces ∧
      (wire id after).outputs = (wire id st).outputs := by
  rw [Channel.sendStep_done stepped, wire_sendDone]
  exact ⟨by simp [sendDone], rfl, rfl⟩

theorem Served.sender {fuel : Nat} {st after : State} (served : Served serve st id)
    (returned : Channel.sender k fuel id st = some after) :
    Served serve after id := by
  obtain ⟨last, ran, rfl⟩ := Channel.sender_cases returned
  obtain ⟨before, served, stopped⟩ := (ends_of_run _ _ _ _ ran).invariant
    (fun now => Served serve now id) (by
    intro before next served again
    obtain ⟨inbuffer, pieces, outputs⟩ := Channel.sendStep_keeps (.inl again)
    exact served.of_same inbuffer pieces outputs) served
  obtain ⟨inbuffer, pieces, outputs⟩ := Channel.sendStep_keeps (.inr stopped)
  refine (served.of_same inbuffer pieces outputs).of_same ?_ ?_ ?_
  · exact enableReadWrite_keeps k Connection.inbuffer (fun _ _ => rfl) _ _ _ _
  · rw [wire_enableReadWrite]
  · rw [wire_enableReadWrite]

/-! ## Every run -/

section

variable {json : JsonCpp}

end

end LinuxSystemLearning.Reactor
