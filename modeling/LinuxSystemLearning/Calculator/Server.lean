import LinuxSystemLearning.Calculator.Framing
import Mathlib.Data.List.Induction

/-!
# Serving one connection

`Channel::Recver` appends what its `recv` calls returned to `_inbuffer` and calls
the handler on it.  `Run` is a sequence of such calls on one connection, up to
the call that does not return; by `run_iff_feed` it is a session of the
incremental decoder, which gives the results about every way of cutting the
input.
-/

set_option autoImplicit false

namespace LinuxSystemLearning.Calculator

open LinuxSystemLearning.Cxx
open LinuxSystemLearning.Loop
open LinuxSystemLearning.Incremental
open Protocol

abbrev Seen := Session UInt8 Bytes UInt8

def received (pieces : List Bytes) : Bytes := (pieces.map cString).flatten

theorem received_singles (chunk : Bytes) :
    received (chunk.map fun byte => [byte]) = chunk.filter (· ≠ 0) := by
  induction chunk with
  | nil => rfl
  | cons byte rest ih =>
      by_cases nul : byte = 0
      · simpa [received, cString, nul] using ih
      · simpa [received, cString, nul] using ih

theorem cString_plain {text : Bytes} (plain : 0 ∉ text) : cString text = text := by
  rw [cString, List.takeWhile_eq_self_iff]
  intro byte member
  simpa using fun nul : byte = 0 => plain (nul ▸ member)

theorem cString_append_zeros {text : Bytes} (plain : 0 ∉ text) (zeros : Nat) :
    cString (text ++ List.replicate zeros 0) = text := by
  have kept : ∀ byte ∈ text, decide (byte ≠ 0) = true := by
    intro byte member
    simpa using fun nul : byte = 0 => plain (nul ▸ member)
  rw [cString, List.takeWhile_append_of_pos kept]
  cases zeros with
  | zero => simp
  | succ zeros => simp [List.replicate_succ]

/-- Trailing NUL bytes are dropped wherever the cuts are, and in front of them
nothing is. -/
theorem received_text (pieces : List Bytes) (text : Bytes) (zeros : Nat)
    (plain : 0 ∉ text)
    (whole : pieces.flatten = text ++ List.replicate zeros 0) :
    received pieces = text := by
  induction pieces generalizing text zeros with
  | nil =>
      obtain ⟨rfl, -⟩ := List.append_eq_nil_iff.mp whole.symm
      rfl
  | cons piece rest ih =>
      have split : received (piece :: rest) = cString piece ++ received rest := rfl
      rw [split]
      rcases List.append_eq_append_iff.mp whole with
        ⟨gap, rfl, restEq⟩ | ⟨zeros', rfl, zerosEq⟩
      · have plain' : 0 ∉ piece ∧ 0 ∉ gap := by simpa using plain
        rw [cString_plain plain'.1, ih gap zeros plain'.2 restEq]
      · obtain ⟨-, front, back⟩ := List.append_eq_replicate_iff.mp zerosEq.symm
        rw [front, cString_append_zeros plain, ih [] _ (by simp) back,
          List.append_nil]

theorem received_flatten (calls : List (List Bytes)) :
    (calls.map received).flatten = received calls.flatten := by
  induction calls with
  | nil => rfl
  | cons call rest ih => simp [received, ih]

section Calls

variable (excute : Bytes → Except Fault Bytes)

/-- `_inbuffer += appended; _outbuffer += _handler(_inbuffer);`.  Nothing
catches an exception, so a handler that throws is the end of the process, and
one that comes back to the buffer it had decodes the same package for ever. -/
inductive Handled (before : Seen) (appended : Bytes) : Seen → Prop where
  | returned {last : HandlerState}
      (ends : Ends (handlerStep excute) (.enter (before.buffer ++ appended))
        (.returned last)) :
      Handled before appended
        ⟨before.received ++ appended, last.inbuffer,
          before.items ++ last.packages, before.output ++ last.responseStr, true⟩
  | threw {fault : Fault} {last : HandlerState}
      (ends : Ends (handlerStep excute) (.enter (before.buffer ++ appended))
        (.threw fault last)) :
      Handled before appended
        ⟨before.received ++ appended, [], before.items ++ last.packages,
          before.output, false⟩
  | hung {last : HandlerState}
      (rounds : Repeats excute (.enter (before.buffer ++ appended)) last) :
      Handled before appended
        ⟨before.received ++ appended, [], before.items ++ last.packages,
          before.output, false⟩

/-- One call of `Channel::Recver` that drains `pieces` and then gets `EAGAIN`. -/
inductive Recver (before : Seen) (pieces : List Bytes) : Seen → Prop where
  | nothing (empty : before.buffer ++ received pieces = []) :
      Recver before pieces
        { before with received := before.received ++ received pieces }
  | handler {after : Seen} (something : before.buffer ++ received pieces ≠ [])
      (handled : Handled excute before (received pieces) after) :
      Recver before pieces after

/-- A connection on which `call` is made for each member of `calls` until one
does not return. -/
inductive Run {κ : Type} (call : Seen → κ → Seen → Prop) : List κ → Seen → Prop where
  | start : Run call [] .start
  | call {calls : List κ} {next : κ} {seen after : Seen}
      (earlier : Run call calls seen) (alive : seen.alive = true)
      (called : call seen next after) : Run call (calls ++ [next]) after
  | ended {calls : List κ} {next : κ} {seen : Seen}
      (earlier : Run call calls seen) (dead : seen.alive = false) :
      Run call (calls ++ [next]) seen

/-! ## A run is a session of the decoder -/

variable {excute}

theorem Handled.unique {before first second : Seen} {appended : Bytes}
    (one : Handled excute before appended first)
    (two : Handled excute before appended second) : first = second := by
  cases one with
  | returned ends =>
      cases two with
      | returned ends' => cases ends.unique ends'; rfl
      | threw ends' => cases ends.unique ends'
      | hung rounds => exact absurd ends (rounds.not_ends _ _)
  | threw ends =>
      cases two with
      | returned ends' => cases ends.unique ends'
      | threw ends' => cases ends.unique ends'; rfl
      | hung rounds => exact absurd ends (rounds.not_ends _ _)
  | hung rounds =>
      cases two with
      | returned ends => exact absurd ends (rounds.not_ends _ _)
      | threw ends => exact absurd ends (rounds.not_ends _ _)
      | hung rounds' => rw [rounds.unique _ rounds']

theorem handled_drain (before : Seen) (appended : Bytes) :
    Handled excute before appended (before.absorb appended
      (drain verdict excute (before.buffer ++ appended))) := by
  have follows := handler_drains excute (.enter (before.buffer ++ appended))
  simp only [HandlerState.enter, Follows, List.nil_append] at follows
  split at follows
  · rename_i rest stop
    rw [Session.absorb_idle before appended stop]
    exact .returned follows
  · rename_i fault stop
    obtain ⟨last, packages, threw⟩ := follows
    rw [Session.absorb_not_idle before appended (Drained.not_idle_of_crashed stop),
      ← packages]
    exact .threw threw
  · rename_i stop
    obtain ⟨last, packages, rounds⟩ := follows
    rw [Session.absorb_not_idle before appended (Drained.not_idle_of_spins stop),
      ← packages]
    exact .hung rounds

theorem handled_iff {before after : Seen} {appended : Bytes} :
    Handled excute before appended after ↔
      after = before.absorb appended
        (drain verdict excute (before.buffer ++ appended)) := by
  constructor
  · intro handled
    exact handled.unique (handled_drain before appended)
  · rintro rfl
    exact handled_drain before appended

theorem recver_iff {before after : Seen} {pieces : List Bytes}
    (alive : before.alive = true) :
    Recver excute before pieces after ↔
      after = before.feed verdict excute (received pieces) := by
  have fed : before.feed verdict excute (received pieces) =
      before.absorb (received pieces)
        (drain verdict excute (before.buffer ++ received pieces)) := by
    simp [Session.feed, alive]
  rw [fed]
  by_cases empty : before.buffer ++ received pieces = []
  · -- on an empty buffer the handler would return at once
    have stalled : verdict (before.buffer ++ received pieces) = .stall := by
      rw [empty]
      exact decoder.stall_nil
    have skipped : before.absorb (received pieces)
        (drain verdict excute (before.buffer ++ received pieces)) =
          { before with received := before.received ++ received pieces } := by
      rw [drain_stall stalled, Session.absorb_idle before _ rfl, empty]
      have buffer := (List.append_eq_nil_iff.mp empty).1
      simp [← buffer, ← alive]
    rw [skipped]
    constructor
    · intro recver
      cases recver with
      | nothing _ => rfl
      | handler something _ => exact absurd empty something
    · rintro rfl
      exact .nothing empty
  · rw [← handled_iff]
    constructor
    · intro recver
      cases recver with
      | nothing empty' => exact absurd empty' empty
      | handler _ handled => exact handled
    · exact .handler empty

theorem run_iff_feed {κ : Type} {call : Seen → κ → Seen → Prop}
    (appended : κ → Bytes)
    (feeds : ∀ before next after, before.alive = true →
      (call before next after ↔
        after = before.feed verdict excute (appended next)))
    (calls : List κ) (seen : Seen) :
    Run call calls seen ↔
      seen = (calls.map appended).foldl (Session.feed verdict excute) .start := by
  constructor
  · intro run
    induction run with
    | start => rfl
    | @call calls next seen after _ alive called ih =>
        rw [List.map_append, List.foldl_append, ← ih]
        exact (feeds seen next after alive).mp called
    | @ended calls next seen _ dead ih =>
        rw [List.map_append, List.foldl_append, ← ih]
        exact (Session.feed_dead verdict excute seen dead _).symm
  · rintro rfl
    induction calls using List.reverseRecOn with
    | nil => exact .start
    | append_singleton calls next ih =>
        rw [List.map_append, List.foldl_append]
        cases alive : ((calls.map appended).foldl
            (Session.feed verdict excute) .start).alive with
        | true => exact .call ih alive ((feeds _ next _ alive).mpr rfl)
        | false =>
            rw [Session.feed_dead verdict excute _ alive]
            exact .ended ih alive

theorem run_recver_iff (calls : List (List Bytes)) (seen : Seen) :
    Run (Recver excute) calls seen ↔
      seen = (calls.map received).foldl (Session.feed verdict excute) .start :=
  run_iff_feed received (fun _ _ _ alive => recver_iff alive) calls seen

theorem run_handled_iff (chunks : List Bytes) (seen : Seen) :
    Run (Handled excute) chunks seen ↔
      seen = chunks.foldl (Session.feed verdict excute) .start := by
  have feeds : ∀ (before : Seen) (next : Bytes) (after : Seen),
      before.alive = true → (Handled excute before next after ↔
        after = before.feed verdict excute (id next)) := by
    intro before next after alive
    rw [handled_iff]
    simp [Session.feed, alive]
  rw [run_iff_feed id feeds, List.map_id]

end Calls

/-! ## Frames cut anywhere -/

theorem selfDelimiting_encode (payloads : List Bytes) (reply : Bytes → Bytes)
    (small : ∀ payload ∈ payloads, (encode payload).length < 2 ^ 31)
    {excute : Bytes → Except Fault Bytes}
    (served : ∀ payload ∈ payloads, excute payload = .ok (reply payload)) :
    SelfDelimiting decoder excute encode reply payloads where
  taken payload member rest := verdict_encode payload rest (small payload member)
  served := served

/-- However the frames of `payloads` are cut into chunks, the handler takes the
payloads out one by one and in order, and leaves nothing in the buffer. -/
theorem framing_survives_segmentation (payloads chunks : List Bytes)
    (reply : Bytes → Bytes)
    (small : ∀ payload ∈ payloads, (encode payload).length < 2 ^ 31)
    (cut : chunks.flatten = (payloads.map encode).flatten) (seen : Seen) :
    Run (Handled fun package => .ok (reply package)) chunks seen ↔
      seen = ⟨chunks.flatten, [], payloads, (payloads.map reply).flatten, true⟩ := by
  have framed := selfDelimiting_encode payloads reply small
    (fun payload _ => (rfl : (Except.ok (reply payload) : Except Fault Bytes) = _))
  rw [run_handled_iff]
  have fed := SelfDelimiting.feed payloads framed chunks cut
  exact Eq.congr rfl fed

/-- A payload that is a separator and one that looks like a header, cut at every
byte. -/
theorem framing_survives_single_bytes :
    Run (Handled fun package => .ok package)
      ((encode (ascii "\r\n") ++ encode (ascii "3\r\n")).map fun byte => [byte])
      ⟨encode (ascii "\r\n") ++ encode (ascii "3\r\n"), [],
        [ascii "\r\n", ascii "3\r\n"], ascii "\r\n3\r\n", true⟩ :=
  (framing_survives_segmentation [ascii "\r\n", ascii "3\r\n"] _ id
    (by decide) (by decide) _).mpr rfl

end LinuxSystemLearning.Calculator
