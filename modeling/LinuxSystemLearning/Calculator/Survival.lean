import LinuxSystemLearning.Calculator.Server

/-!
# What brings the server down

Nothing between `Channel::Recver` and `Reactor::Loop` catches an exception, so
one input on which `std::stoi`, jsoncpp or the arithmetic of `Execute` fails ends
the process.  `returns_normally_iff` says for which inputs none of them does.
-/

set_option autoImplicit false

namespace LinuxSystemLearning.Calculator

open LinuxSystemLearning.Cxx
open LinuxSystemLearning.Loop
open LinuxSystemLearning.Incremental
open Protocol

variable (json : JsonCpp)

/-- `Excute` returns: jsoncpp rejects the text, or all three members of what it
parsed are there as `int`s and `Execute` is defined on them. -/
def Answerable (package : Bytes) : Prop :=
  ∀ root, json.parse package = some root →
    ∃ x y oper, (json.member root "x" >>= json.asInt) = .ok x ∧
      (json.member root "y" >>= json.asInt) = .ok y ∧
      (json.member root "oper" >>= json.asInt) = .ok oper ∧
      (Request.mk x y oper.toInt8).Defined

/-- A buffer the loop can go on from: the text before the first separator is a
number for `stoi`, and when the bytes it announces are there they are not none
and can be answered. -/
def Tame (buffer : Bytes) : Prop :=
  ∀ pos, find sep buffer = some pos →
    ∃ len, stoi (buffer.take pos) = .ok len ∧
      (¬ Incomplete buffer (toInt (pos + len + 4)) →
        ¬ (2 ^ 32 : Int) ∣ pos + len + 4 ∧
          Answerable json (substr buffer (pos + sep.length) len))

def ReturnsNormally (calls : List (List Bytes)) : Prop :=
  ∃ seen, Run (Recver (excute json Cal.execute)) calls seen ∧ seen.alive = true

/-! ## One package -/

theorem deserialize_eq_some_iff {package : Bytes} {root : json.Value}
    (parsed : json.parse package = some root) (result : Option Request) :
    Request.deserialize json package = .ok result ↔
      ∃ x y oper, (json.member root "x" >>= json.asInt) = .ok x ∧
        (json.member root "y" >>= json.asInt) = .ok y ∧
        (json.member root "oper" >>= json.asInt) = .ok oper ∧
        result = some ⟨x, y, oper.toInt8⟩ := by
  simp only [Request.deserialize, parsed, bind_eq_ok, pure, Except.pure,
    Except.ok.injEq]
  constructor
  · rintro ⟨_, xMember, x, xInt, _, yMember, y, yInt, _, operMember, oper,
      operInt, rfl⟩
    exact ⟨x, y, oper, ⟨_, xMember, xInt⟩, ⟨_, yMember, yInt⟩,
      ⟨_, operMember, operInt⟩, rfl⟩
  · rintro ⟨x, y, oper, ⟨_, xMember, xInt⟩, ⟨_, yMember, yInt⟩,
      ⟨_, operMember, operInt⟩, rfl⟩
    exact ⟨_, xMember, x, xInt, _, yMember, y, yInt, _, operMember, oper,
      operInt, rfl⟩

theorem excute_isOk_iff (package : Bytes) :
    (∃ response, excute json Cal.execute package = .ok response) ↔
      Answerable json package := by
  cases parsed : json.parse package with
  | none =>
      have rejected : Request.deserialize json package = .ok none := by
        simp [Request.deserialize, parsed]
      constructor
      · intro _ root parsed'
        rw [parsed] at parsed'
        cases parsed'
      · intro _
        exact ⟨[], by simp [excute, rejected, bind, Except.bind, pure, Except.pure]⟩
  | some root =>
      constructor
      · rintro ⟨response, returned⟩ root' parsed'
        rw [parsed] at parsed'
        cases parsed'
        obtain ⟨result, deserialized, returned⟩ := bind_eq_ok.mp returned
        obtain ⟨x, y, oper, xInt, yInt, operInt, rfl⟩ :=
          (deserialize_eq_some_iff json parsed result).mp deserialized
        obtain ⟨resp, executed, -⟩ := bind_eq_ok.mp returned
        exact ⟨x, y, oper, xInt, yInt, operInt,
          (execute_isOk_iff _).mp ⟨resp, executed⟩⟩
      · intro answerable
        obtain ⟨x, y, oper, xInt, yInt, operInt, defined⟩ := answerable root parsed
        obtain ⟨resp, executed⟩ := (execute_isOk_iff _).mpr defined
        have deserialized := (deserialize_eq_some_iff json parsed _).mpr
          ⟨x, y, oper, xInt, yInt, operInt, rfl⟩
        exact ⟨_, bind_eq_ok.mpr ⟨_, deserialized,
          bind_eq_ok.mpr ⟨resp, executed, rfl⟩⟩⟩

/-! ## One call -/

theorem stands_iff_meets (serve : Bytes → Except Fault Bytes)
    (inbuffer buffer : Bytes) :
    Stands serve inbuffer buffer ↔ Meets verdict serve inbuffer buffer := by
  constructor
  · intro stands
    induction stands with
    | entry => exact .first
    | frame _ header complete served ih =>
        exact .served ih (verdict_complete header complete) served
  · intro meets
    induction meets with
    | first => exact .entry
    | served _ taken served ih =>
        obtain ⟨text, len, header, complete, rfl, rfl⟩ := verdict_take taken
        exact .frame ih header complete served

theorem tame_iff_of_header {buffer text : Bytes} {len : Int}
    (header : Header buffer text len) :
    Tame json buffer ↔
      (¬ Incomplete buffer (targetLen text len) → ¬ ZeroFrame buffer ∧
        Answerable json (substr buffer (text.length + sep.length) len)) := by
  rw [zeroFrame_iff header, targetLen_eq_zero, targetLen_eq]
  constructor
  · intro tame
    obtain ⟨len', parsed, safe⟩ := tame text.length header.found
    rw [← header.text_eq, header.parsed] at parsed
    cases parsed
    exact safe
  · intro safe pos found
    rw [header.found] at found
    cases found
    exact ⟨len, by rw [← header.text_eq]; exact header.parsed, safe⟩

theorem calm_iff_of_header {buffer text : Bytes} {len : Int}
    (header : Header buffer text len) :
    Calm verdict (excute json Cal.execute) buffer ↔
      (¬ Incomplete buffer (targetLen text len) → ¬ ZeroFrame buffer ∧
        Answerable json (substr buffer (text.length + sep.length) len)) := by
  by_cases incomplete : Incomplete buffer (targetLen text len)
  · apply iff_of_true (.inl (verdict_incomplete header incomplete))
    intro complete
    exact absurd incomplete complete
  have taken := verdict_complete header incomplete
  have shorter := shorter_iff header incomplete
  constructor
  · rintro (stalled | ⟨item, rest, out, taken', served, less⟩) _
    · rw [taken] at stalled
      cases stalled
    · rw [taken] at taken'
      cases taken'
      exact ⟨shorter.mp less, (excute_isOk_iff json _).mp ⟨out, served⟩⟩
  · intro safe
    obtain ⟨nonzero, answerable⟩ := safe incomplete
    obtain ⟨out, served⟩ := (excute_isOk_iff json _).mpr answerable
    exact .inr ⟨_, _, out, taken, served, shorter.mpr nonzero⟩

theorem calm_iff_tame (buffer : Bytes) :
    Calm verdict (excute json Cal.execute) buffer ↔ Tame json buffer := by
  rcases header_cases buffer with missing | ⟨pos, fault, found, failed⟩ |
    ⟨text, len, header⟩
  · apply iff_of_true (.inl (verdict_without_sep missing))
    intro pos found
    rw [missing] at found
    cases found
  · have crashed := verdict_of_stoi_error found failed
    apply iff_of_false
    · rintro (stalled | ⟨item, rest, out, taken, -⟩)
      · rw [crashed] at stalled
        cases stalled
      · rw [crashed] at taken
        cases taken
    · intro tame
      obtain ⟨len, parsed, -⟩ := tame pos found
      rw [failed] at parsed
      cases parsed
  · rw [calm_iff_of_header json header, tame_iff_of_header json header]

/-! ## All calls -/

/-- A call returns if and only if no buffer the loop meets in it is one it
cannot go on from. -/
theorem feed_alive_iff {seen : Seen} (alive : seen.alive = true)
    (pieces : List Bytes) :
    (seen.feed verdict (excute json Cal.execute) (received pieces)).alive = true ↔
      ∀ buffer, Stands (excute json Cal.execute)
        (seen.buffer ++ received pieces) buffer → Tame json buffer := by
  have fed : seen.feed verdict (excute json Cal.execute) (received pieces) =
      seen.absorb (received pieces) (drain verdict (excute json Cal.execute)
        (seen.buffer ++ received pieces)) := by
    simp [Session.feed, alive]
  rw [fed, Session.absorb_alive, drain_idle_iff]
  constructor
  · intro calm buffer stands
    have meets := (stands_iff_meets _ _ _).mp stands
    exact (calm_iff_tame json buffer).mp (calm buffer meets)
  · intro tame buffer meets
    have stands := (stands_iff_meets _ _ _).mpr meets
    exact (calm_iff_tame json buffer).mpr (tame buffer stands)

theorem returns_normally_append_iff (calls : List (List Bytes))
    (call : List Bytes) :
    ReturnsNormally json (calls ++ [call]) ↔
      ReturnsNormally json calls ∧
        ∀ seen, Run (Recver (excute json Cal.execute)) calls seen →
          seen.alive = true →
          ∀ buffer, Stands (excute json Cal.execute)
            (seen.buffer ++ received call) buffer → Tame json buffer := by
  simp only [ReturnsNormally, run_recver_iff, List.map_append, List.foldl_append,
    exists_eq_left, forall_eq]
  generalize (calls.map received).foldl
    (Session.feed verdict (excute json Cal.execute)) .start = seen
  simp only [List.map_cons, List.map_nil, List.foldl_cons, List.foldl_nil]
  cases alive : seen.alive with
  | true =>
      rw [feed_alive_iff json alive call]
      constructor
      · intro tame
        exact ⟨rfl, fun _ => tame⟩
      · intro both
        exact both.2 rfl
  | false =>
      have stays := Session.feed_dead verdict (excute json Cal.execute) seen alive
        [received call]
      simp only [List.foldl_cons, List.foldl_nil] at stays
      rw [stays, alive]
      constructor
      · intro impossible
        cases impossible
      · intro both
        exact both.1

theorem returns_normally_iff (calls : List (List Bytes)) :
    ReturnsNormally json calls ↔
      ∀ earlier call later seen, calls = earlier ++ call :: later →
        Run (Recver (excute json Cal.execute)) earlier seen →
        seen.alive = true →
        ∀ buffer, Stands (excute json Cal.execute)
          (seen.buffer ++ received call) buffer → Tame json buffer := by
  induction calls using List.reverseRecOn with
  | nil =>
      constructor
      · intro _ earlier call later seen split
        simp at split
      · exact fun _ => ⟨.start, .start, rfl⟩
  | append_singleton calls last ih =>
      rw [returns_normally_append_iff, ih]
      constructor
      · rintro ⟨before, atLast⟩ earlier call later seen split
        rcases List.eq_nil_or_concat later with rfl | ⟨later', last', rfl⟩
        · obtain ⟨rfl, rfl⟩ := List.append_singleton_inj.mp split
          exact atLast seen
        · rw [List.concat_eq_append, ← List.cons_append, ← List.append_assoc] at split
          obtain ⟨rfl, rfl⟩ := List.append_singleton_inj.mp split
          exact before earlier call later' seen rfl
      · intro all
        refine ⟨?_, ?_⟩
        · intro earlier call later seen split
          exact all earlier call (later ++ [last]) seen (by simp [split])
        · exact fun seen => all calls last [] seen rfl

/-- The header `abc` is not a number: the first call already throws. -/
theorem dies_of_abc :
    ¬ ReturnsNormally JsonText.jsonText [[ascii "abc\r\n"]] ∧
      decode (ascii "abc\r\n") [] = .error .invalidArgument := by
  have thrown : decode (ascii "abc\r\n") [] = .error .invalidArgument := by
    decide
  refine ⟨?_, thrown⟩
  intro survived
  obtain ⟨seen, run, alive⟩ := survived
  rw [run_recver_iff] at run
  have arrived : received [ascii "abc\r\n"] = ascii "abc\r\n" := by decide
  have crashed : verdict (ascii "abc\r\n") = .crash .invalidArgument := by
    rw [verdict, thrown]
  subst run
  rw [List.map_cons, List.map_nil, List.foldl_cons, List.foldl_nil, arrived] at alive
  have dead := (Session.absorb_alive .start (ascii "abc\r\n") _).mp alive
  rw [Session.start, List.nil_append, drain_crash crashed] at dead
  exact Drained.not_idle_of_crashed rfl dead

end LinuxSystemLearning.Calculator
