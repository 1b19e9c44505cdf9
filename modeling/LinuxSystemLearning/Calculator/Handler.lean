import LinuxSystemLearning.Calculator.JsonText
import LinuxSystemLearning.Library.Loop

/-!
# The handler loop of the reactor server

`main` registers a lambda that decodes and executes packages until `Decode`
returns false.  `handlerStep` is the body of its `while (true)`.  The loop need
not end: a header can announce a length for which `Decode` returns true and
removes nothing.  `Terminates` and `terminates_iff` say for which buffers it
does end, and `handler_drains` what it then returns.
-/

set_option autoImplicit false

namespace LinuxSystemLearning.Calculator

open LinuxSystemLearning.Cxx
open LinuxSystemLearning.Loop
open LinuxSystemLearning.Incremental
open Protocol

/-- The lambda's locals at the loop head; `packages` are the packages `Decode`
has handed out so far. -/
structure HandlerState where
  inbuffer : Bytes
  responseStr : Bytes
  packages : List Bytes

inductive HandlerEnd where
  | returned (last : HandlerState)
  | threw (fault : Fault) (last : HandlerState)

def HandlerState.enter (inbuffer : Bytes) : HandlerState := ⟨inbuffer, [], []⟩

def handlerStep (excute : Bytes → Except Fault Bytes) (st : HandlerState) :
    Step HandlerState HandlerEnd :=
  match decode st.inbuffer [] with
  | .error fault => .stop (.threw fault st)
  | .ok decoded =>
      if decoded.ret then
        let packages := st.packages ++ [decoded.package]
        match excute decoded.package with
        | .error fault =>
            .stop (.threw fault ⟨decoded.buffer, st.responseStr, packages⟩)
        | .ok response =>
            .next ⟨decoded.buffer, st.responseStr ++ response, packages⟩
      else
        .stop (.returned { st with inbuffer := decoded.buffer })

/-! ## `Decode` as an incremental decoder -/

def verdict (buffer : Bytes) : Verdict UInt8 Bytes Fault :=
  match decode buffer [] with
  | .error fault => .crash fault
  | .ok decoded =>
      if decoded.ret then .take decoded.package decoded.buffer else .stall

theorem verdict_without_sep {buffer : Bytes} (missing : find sep buffer = none) :
    verdict buffer = .stall := by
  simp [verdict, decode_without_sep missing]

theorem verdict_of_stoi_error {buffer : Bytes} {pos : Nat} {fault : Fault}
    (found : find sep buffer = some pos)
    (failed : stoi (buffer.take pos) = .error fault) :
    verdict buffer = .crash fault := by
  simp [verdict, decode_of_stoi_error found failed]

theorem verdict_incomplete {buffer text : Bytes} {len : Int}
    (header : Header buffer text len)
    (incomplete : Incomplete buffer (targetLen text len)) :
    verdict buffer = .stall := by
  simp [verdict, decode_incomplete header incomplete]

theorem verdict_complete {buffer text : Bytes} {len : Int}
    (header : Header buffer text len)
    (complete : ¬ Incomplete buffer (targetLen text len)) :
    verdict buffer =
      .take (substr buffer (text.length + sep.length) len)
        (buffer.drop (targetLen text len).toNat) := by
  simp [verdict, decode_complete header complete]

theorem verdict_stall_of_append {front back : Bytes}
    (stalled : verdict (front ++ back) = .stall) : verdict front = .stall := by
  rcases header_cases front with missing | ⟨pos, fault, found, failed⟩ |
    ⟨text, len, header⟩
  · exact verdict_without_sep missing
  · have bound := find_bound found
    rw [← List.take_append_of_le_length (by omega)] at failed
    rw [verdict_of_stoi_error (find_append sep_ne_nil found back) failed] at stalled
    cases stalled
  · apply verdict_incomplete header
    by_contra complete
    have complete' : ¬ Incomplete (front ++ back) (targetLen text len) := by
      unfold Incomplete at complete ⊢
      rw [List.length_append]
      omega
    rw [verdict_complete (header.append back) complete'] at stalled
    cases stalled

theorem verdict_crash_append {front : Bytes} {fault : Fault} (back : Bytes)
    (crashed : verdict front = .crash fault) :
    verdict (front ++ back) = .crash fault := by
  rcases header_cases front with missing | ⟨pos, fault', found, failed⟩ |
    ⟨text, len, header⟩
  · rw [verdict_without_sep missing] at crashed
    cases crashed
  · have bound := find_bound found
    rw [verdict_of_stoi_error found failed] at crashed
    cases crashed
    rw [← List.take_append_of_le_length (by omega)] at failed
    exact verdict_of_stoi_error (find_append sep_ne_nil found back) failed
  · by_cases incomplete : Incomplete front (targetLen text len)
    · rw [verdict_incomplete header incomplete] at crashed
      cases crashed
    · rw [verdict_complete header incomplete] at crashed
      cases crashed

/-- What a buffer `Decode` returns true for looks like. -/
theorem verdict_take {buffer rest package : Bytes}
    (taken : verdict buffer = .take package rest) :
    ∃ text len, Header buffer text len ∧
      ¬ Incomplete buffer (targetLen text len) ∧
      package = substr buffer (text.length + sep.length) len ∧
      rest = buffer.drop (targetLen text len).toNat := by
  rcases header_cases buffer with missing | ⟨pos, fault, found, failed⟩ |
    ⟨text, len, header⟩
  · rw [verdict_without_sep missing] at taken
    cases taken
  · rw [verdict_of_stoi_error found failed] at taken
    cases taken
  · by_cases incomplete : Incomplete buffer (targetLen text len)
    · rw [verdict_incomplete header incomplete] at taken
      cases taken
    · rw [verdict_complete header incomplete] at taken
      cases taken
      exact ⟨text, len, header, incomplete, rfl, rfl⟩

theorem decode_of_stall {buffer : Bytes} (stalled : verdict buffer = .stall)
    (package : Bytes) : decode buffer package = .ok ⟨false, buffer, package⟩ := by
  rcases header_cases buffer with missing | ⟨pos, fault, found, failed⟩ |
    ⟨text, len, header⟩
  · exact decode_without_sep missing package
  · rw [verdict_of_stoi_error found failed] at stalled
    cases stalled
  · by_cases incomplete : Incomplete buffer (targetLen text len)
    · exact decode_incomplete header incomplete package
    · rw [verdict_complete header incomplete] at stalled
      cases stalled

theorem decode_of_crash {buffer : Bytes} {fault : Fault}
    (crashed : verdict buffer = .crash fault) (package : Bytes) :
    decode buffer package = .error fault := by
  rcases header_cases buffer with missing | ⟨pos, fault', found, failed⟩ |
    ⟨text, len, header⟩
  · rw [verdict_without_sep missing] at crashed
    cases crashed
  · rw [verdict_of_stoi_error found failed] at crashed
    cases crashed
    exact decode_of_stoi_error found failed package
  · by_cases incomplete : Incomplete buffer (targetLen text len)
    · rw [verdict_incomplete header incomplete] at crashed
      cases crashed
    · rw [verdict_complete header incomplete] at crashed
      cases crashed

theorem decode_of_take {buffer rest item : Bytes}
    (taken : verdict buffer = .take item rest) (package : Bytes) :
    decode buffer package = .ok ⟨true, rest, item⟩ := by
  obtain ⟨text, len, header, complete, rfl, rfl⟩ := verdict_take taken
  exact decode_complete header complete package

theorem verdict_take_append {front rest package : Bytes} (back : Bytes)
    (taken : verdict front = .take package rest) :
    ∃ package', verdict (front ++ back) = .take package' (rest ++ back) := by
  obtain ⟨text, len, header, complete, -, rfl⟩ := verdict_take taken
  have inside : (targetLen text len).toNat ≤ front.length := by
    unfold Incomplete at complete
    omega
  have complete' : ¬ Incomplete (front ++ back) (targetLen text len) := by
    unfold Incomplete at complete ⊢
    rw [List.length_append]
    omega
  rw [verdict_complete (header.append back) complete',
    List.drop_append_of_le_length inside]
  exact ⟨_, rfl⟩

/-- The shortest decodable buffer ends with its frame or with its separator, and
neither leaves a separator behind but at the very end. -/
theorem verdict_tight {buffer rest package : Bytes}
    (taken : verdict buffer = .take package rest)
    (late : ∀ front back, front ++ back = buffer → back ≠ [] →
      verdict front = .stall)
    (front back : Bytes) (cut : front ++ back = rest) (more : back ≠ []) :
    verdict front = .stall := by
  obtain ⟨text, len, header, complete, -, rfl⟩ := verdict_take taken
  have bound := find_bound header.found
  have nonneg : 0 ≤ targetLen text len ∧
      (targetLen text len).toNat ≤ buffer.length := by
    unfold Incomplete at complete
    omega
  -- no byte beyond both the separator and the frame has arrived
  have short : buffer.length ≤
      max (text.length + 2) (targetLen text len).toNat := by
    by_contra longer
    let size := max (text.length + 2) (targetLen text len).toNat
    have split : buffer.take size ++ buffer.drop size = buffer :=
      List.take_append_drop _ _
    have early : Header (buffer.take size) text len := by
      apply Header.of_append (split.symm ▸ header)
      rw [List.length_take]
      omega
    have stalled := late _ _ split (by
      intro none_left
      rw [List.drop_eq_nil_iff] at none_left
      omega)
    rw [verdict_complete early (by
      unfold Incomplete
      rw [List.length_take]
      omega)] at stalled
    cases stalled
  apply verdict_without_sep
  cases found : find sep front with
  | none => rfl
  | some pos =>
      exfalso
      have moreLength := List.length_pos_of_ne_nil more
      have cutLength := congrArg List.length cut
      rw [List.length_append, List.length_drop] at cutLength
      have posBound := find_bound found
      have here := (find_eq_some (find_append sep_ne_nil found back)).1
      rw [cut, List.drop_drop] at here
      obtain ⟨first, le, found'⟩ := exists_find_le here
      rw [header.found] at found'
      cases found'
      omega

def decoder : Decoder UInt8 Bytes Fault where
  decode := verdict
  stall_nil := verdict_without_sep rfl
  stall_of_append := verdict_stall_of_append
  crash_append := verdict_crash_append
  take_append := verdict_take_append
  tight := verdict_tight

/-! ## The loop, iteration by iteration -/

variable (excute : Bytes → Except Fault Bytes)

theorem handlerStep_stall {st : HandlerState}
    (stalled : verdict st.inbuffer = .stall) :
    handlerStep excute st = .stop (.returned st) := by
  simp [handlerStep, decode_of_stall stalled]

theorem handlerStep_crash {st : HandlerState} {fault : Fault}
    (crashed : verdict st.inbuffer = .crash fault) :
    handlerStep excute st = .stop (.threw fault st) := by
  simp [handlerStep, decode_of_crash crashed]

theorem handlerStep_take {st : HandlerState} {package rest : Bytes}
    (taken : verdict st.inbuffer = .take package rest) :
    handlerStep excute st =
      match excute package with
      | .error fault =>
          .stop (.threw fault ⟨rest, st.responseStr, st.packages ++ [package]⟩)
      | .ok response =>
          .next ⟨rest, st.responseStr ++ response,
            st.packages ++ [package]⟩ := by
  simp [handlerStep, decode_of_take taken]

/-- A frame that does not shorten the buffer leaves it as it is. -/
theorem verdict_spin {buffer rest package : Bytes}
    (taken : verdict buffer = .take package rest)
    (same : ¬ rest.length < buffer.length) : rest = buffer := by
  obtain ⟨text, len, header, -, -, rfl⟩ := verdict_take taken
  have bound := find_bound header.found
  rw [List.length_drop] at same
  have zero : (targetLen text len).toNat = 0 := by omega
  rw [zero, List.drop_zero]

/-- The loop entered in `st` comes to an iteration that leaves the buffer as it
was; `last` is the state behind the first such iteration. -/
inductive Repeats : HandlerState → HandlerState → Prop where
  | here {st last : HandlerState} (again : handlerStep excute st = .next last)
      (same : last.inbuffer = st.inbuffer) : Repeats st last
  | next {st after last : HandlerState}
      (again : handlerStep excute st = .next after)
      (other : after.inbuffer ≠ st.inbuffer) (rest : Repeats after last) :
      Repeats st last

/-- An iteration that leaves the buffer as it was is followed by itself. -/
theorem Repeats.not_ends {st last : HandlerState}
    (repeats : Repeats excute st last) (result : HandlerEnd) :
    ¬ Ends (handlerStep excute) st result := by
  induction repeats with
  | @here st last again same =>
      refine not_ends_of_invariant
        (fun state : HandlerState => state.inbuffer = st.inbuffer) ?_ rfl result
      intro state here
      -- the step depends on the buffer only
      unfold handlerStep at again ⊢
      rw [here]
      cases run : decode st.inbuffer [] with
      | error fault => simp [run] at again
      | ok decoded =>
          simp only [run] at again ⊢
          split at again
          · rename_i accepted
            simp only [accepted, if_true]
            split at again
            · cases again
            · cases again
              exact ⟨_, rfl, same⟩
          · cases again
  | next again _ _ ih =>
      intro ends
      cases ends with
      | stop left => simp [again] at left
      | next again' rest =>
          rw [again] at again'
          cases again'
          exact ih rest

theorem Repeats.unique {st last last' : HandlerState}
    (one : Repeats excute st last) (two : Repeats excute st last') :
    last = last' := by
  induction one with
  | here again same =>
      cases two with
      | here again' _ =>
          rw [again] at again'
          cases again'
          rfl
      | next again' other _ =>
          rw [again] at again'
          cases again'
          exact absurd same other
  | next again other _ ih =>
      cases two with
      | here again' same =>
          rw [again] at again'
          cases again'
          exact absurd same other
      | next again' _ rest =>
          rw [again] at again'
          cases again'
          exact ih rest

/-- The loop entered in `st` goes on as `drained` says: it returns, throws, or
never comes to an end. -/
def Follows (st : HandlerState)
    (drained : Drained UInt8 Bytes UInt8 Fault) : Prop :=
  match drained.stop with
  | .idle rest =>
      Ends (handlerStep excute) st (.returned ⟨rest,
        st.responseStr ++ drained.output, st.packages ++ drained.items⟩)
  | .crashed fault =>
      ∃ last, last.packages = st.packages ++ drained.items ∧
        Ends (handlerStep excute) st (.threw fault last)
  | .spins =>
      ∃ last, last.packages = st.packages ++ drained.items ∧
        Repeats excute st last

theorem handler_drains (st : HandlerState) :
    Follows excute st (drain verdict excute st.inbuffer) := by
  induction size : st.inbuffer.length using Nat.strongRecOn
    generalizing st with
  | ind size ih =>
      cases seen : verdict st.inbuffer with
      | stall =>
          rw [drain_stall seen]
          simp only [Follows, List.append_nil]
          exact .stop (handlerStep_stall excute seen)
      | crash fault =>
          rw [drain_crash seen]
          simp only [Follows, List.append_nil]
          exact ⟨st, rfl, .stop (handlerStep_crash excute seen)⟩
      | take package rest =>
          have step := handlerStep_take excute seen
          cases served : excute package with
          | error fault =>
              rw [drain_error seen served]
              simp only [served] at step
              exact ⟨_, rfl, .stop step⟩
          | ok response =>
              simp only [served] at step
              by_cases shorter : rest.length < st.inbuffer.length
              · rw [drain_take seen served shorter]
                have tail := ih rest.length (size ▸ shorter)
                  ⟨rest, st.responseStr ++ response,
                    st.packages ++ [package]⟩ rfl
                simp only [Follows, Drained.prepend] at tail ⊢
                split at tail
                · simpa using Ends.next step tail
                · obtain ⟨last, packages, ends⟩ := tail
                  exact ⟨last, by simpa using packages, .next step ends⟩
                · obtain ⟨last, packages, rounds⟩ := tail
                  have other : rest ≠ st.inbuffer := by
                    intro same
                    rw [same] at shorter
                    exact Nat.lt_irrefl _ shorter
                  exact ⟨last, by simpa using packages, .next step other rounds⟩
              · rw [drain_spin seen served shorter]
                have same := verdict_spin seen shorter
                subst same
                exact ⟨_, rfl, .here step rfl⟩

/-! ## When the loop ends -/

/-- The buffers the loop calls `Decode` on: the one it is entered with, and what
is left of such a buffer when a complete frame at its front was executed. -/
inductive Stands (inbuffer : Bytes) : Bytes → Prop where
  | entry : Stands inbuffer inbuffer
  | frame {buffer text response : Bytes} {len : Int}
      (before : Stands inbuffer buffer) (header : Header buffer text len)
      (complete : ¬ Incomplete buffer (targetLen text len))
      (served : excute (substr buffer (text.length + sep.length) len) =
        .ok response) :
      Stands inbuffer (buffer.drop (targetLen text len).toNat)

/-- The header at the front announces a frame of no bytes at all: its own size,
the length it announces and the two separators add up to a multiple of the
`int` range. -/
def ZeroFrame (buffer : Bytes) : Prop :=
  ∃ text len, Header buffer text len ∧
    (2 ^ 32 : Int) ∣ text.length + len + 4

structure Terminates (inbuffer : Bytes) : Prop where
  shortens : ∀ st, Visits (handlerStep excute) (.enter inbuffer) st →
    ∀ package decoded, decode st.inbuffer package = .ok decoded →
      decoded.ret = true → decoded.buffer.length < st.inbuffer.length
  ends : ∃ result, Ends (handlerStep excute) (.enter inbuffer) result

theorem targetLen_eq_zero (text : Bytes) (len : Int) :
    targetLen text len = 0 ↔ (2 ^ 32 : Int) ∣ text.length + len + 4 := by
  have sum : (text.length : Int) + len + 2 * (sep.length : Nat) =
      text.length + len + 4 := by simp [sep]
  rw [targetLen, sum, toInt, ← Int.dvd_iff_bmod_eq_zero, Int.natCast_pow]
  rfl

theorem zeroFrame_iff {buffer text : Bytes} {len : Int}
    (header : Header buffer text len) :
    ZeroFrame buffer ↔ targetLen text len = 0 := by
  rw [targetLen_eq_zero]
  constructor
  · intro zero
    obtain ⟨text', len', header', multiple⟩ := zero
    obtain ⟨rfl, rfl⟩ := header.unique header'
    exact multiple
  · intro multiple
    exact ⟨text, len, header, multiple⟩

/-- A call of `Decode` that returns true shortens the buffer unless the frame
has no bytes. -/
theorem shorter_iff {buffer text : Bytes} {len : Int}
    (header : Header buffer text len)
    (complete : ¬ Incomplete buffer (targetLen text len)) :
    (buffer.drop (targetLen text len).toNat).length < buffer.length ↔
      ¬ ZeroFrame buffer := by
  have bound := find_bound header.found
  rw [zeroFrame_iff header, List.length_drop]
  unfold Incomplete at complete
  omega

theorem ZeroFrame.complete {buffer text : Bytes} {len : Int}
    (zero : ZeroFrame buffer) (header : Header buffer text len) :
    ¬ Incomplete buffer (targetLen text len) := by
  rw [zeroFrame_iff header] at zero
  rw [zero]
  unfold Incomplete
  omega

/-- A true result of `Decode` shortens the buffer, if no frame of no bytes stands
there. -/
theorem decode_shortens {buffer package : Bytes} {decoded : Decoded}
    (run : decode buffer package = .ok decoded) (accepted : decoded.ret = true)
    (nonzero : ¬ ZeroFrame buffer) : decoded.buffer.length < buffer.length := by
  rcases decode_cases run with unchanged | ⟨text, len, header, complete, taken⟩
  · rw [unchanged] at accepted
    cases accepted
  · rw [taken]
    exact (shorter_iff header complete).mpr nonzero

theorem stands_of_visits {inbuffer : Bytes} {st : HandlerState}
    (visits : Visits (handlerStep excute) (.enter inbuffer) st) :
    Stands excute inbuffer st.inbuffer := by
  induction visits with
  | entry => exact .entry
  | @next st after _ again ih =>
      cases seen : verdict st.inbuffer with
      | stall => simp [handlerStep_stall excute seen] at again
      | crash fault => simp [handlerStep_crash excute seen] at again
      | take package rest =>
          obtain ⟨text, len, header, complete, rfl, rfl⟩ := verdict_take seen
          rw [handlerStep_take excute seen] at again
          split at again
          · cases again
          · rename_i response served
            cases again
            exact .frame ih header complete served

theorem visits_of_stands {inbuffer buffer : Bytes}
    (stands : Stands excute inbuffer buffer) :
    ∃ st, Visits (handlerStep excute) (.enter inbuffer) st ∧
      st.inbuffer = buffer := by
  induction stands with
  | entry => exact ⟨_, .entry, rfl⟩
  | frame _ header complete served ih =>
      obtain ⟨st, visits, rfl⟩ := ih
      have step := handlerStep_take excute (verdict_complete header complete)
      simp only [served] at step
      exact ⟨_, .next visits step, rfl⟩

/-- An iteration that goes on comes from a true result of `Decode`. -/
theorem handlerStep_next {st after : HandlerState}
    (again : handlerStep excute st = .next after) :
    ∃ decoded, decode st.inbuffer [] = .ok decoded ∧ decoded.ret = true ∧
      after.inbuffer = decoded.buffer := by
  unfold handlerStep at again
  cases run : decode st.inbuffer [] with
  | error fault => simp [run] at again
  | ok decoded =>
      cases accepted : decoded.ret with
      | false => simp [run, accepted] at again
      | true =>
          simp only [run, accepted, if_true] at again
          split at again
          · cases again
          · cases again
            exact ⟨decoded, rfl, accepted, rfl⟩

theorem terminates_iff (inbuffer : Bytes) :
    Terminates excute inbuffer ↔
      ∀ buffer, Stands excute inbuffer buffer → ¬ ZeroFrame buffer := by
  constructor
  · intro terminates buffer stands zero
    obtain ⟨st, visits, rfl⟩ := visits_of_stands excute stands
    obtain ⟨text, len, header, -⟩ := id zero
    have complete := zero.complete header
    have shorter := terminates.shortens st visits [] _
      (decode_complete header complete []) rfl
    exact (shorter_iff header complete).mp shorter zero
  · intro nonzero
    have shortens : ∀ st, Visits (handlerStep excute) (.enter inbuffer) st →
        ∀ package decoded, decode st.inbuffer package = .ok decoded →
          decoded.ret = true →
            decoded.buffer.length < st.inbuffer.length := by
      intro st visits package decoded run accepted
      have stands := stands_of_visits excute visits
      exact decode_shortens run accepted (nonzero _ stands)
    refine ⟨shortens, ?_⟩
    -- the length of the buffer is the measure
    apply ends_of_measure (Visits (handlerStep excute) (.enter inbuffer))
      (fun st => st.inbuffer.length) _ _ .entry
    intro st after visits again
    obtain ⟨decoded, run, accepted, same⟩ := handlerStep_next excute again
    refine ⟨.next visits again, ?_⟩
    rw [same]
    exact shortens st visits [] decoded run accepted

theorem minus_six_spins :
    (drain verdict (Protocol.excute JsonText.jsonText Cal.execute)
      (ascii "-6\r\n")).stop = .spins := by
  have seen : verdict (ascii "-6\r\n") = .take [] (ascii "-6\r\n") := rfl
  have served : Protocol.excute JsonText.jsonText Cal.execute [] = .ok [] := rfl
  rw [drain_spin seen served (Nat.lt_irrefl _)]

/-- The header `-6`: two bytes, the length `-6` and the separators make a frame
of no bytes, so the loop executes the empty package for ever. -/
theorem hangs_on_minus_six :
    ¬ Terminates (Protocol.excute JsonText.jsonText Cal.execute)
        (ascii "-6\r\n") ∧
      ∀ result, ¬ Ends
        (handlerStep (Protocol.excute JsonText.jsonText Cal.execute))
        (.enter (ascii "-6\r\n")) result := by
  have follows := handler_drains
    (Protocol.excute JsonText.jsonText Cal.execute) (.enter (ascii "-6\r\n"))
  simp only [HandlerState.enter, Follows, minus_six_spins] at follows
  obtain ⟨last, -, rounds⟩ := follows
  have never := rounds.not_ends
  refine ⟨?_, never⟩
  intro terminates
  obtain ⟨result, ends⟩ := terminates.ends
  exact never result ends

end LinuxSystemLearning.Calculator
