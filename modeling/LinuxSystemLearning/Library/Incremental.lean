import Mathlib.Data.List.Basic
import Mathlib.Data.List.Infix

/-!
# Incremental decoders fed in chunks

A receiver appends every chunk it is given to a buffer and then decodes the
buffer until the decoder wants more input.  This file answers when the way the
input is cut into chunks can be told from the outside.

A decoder looks at the whole buffer and either stalls, crashes, or takes an
item off the front.  `drain` is the decoding loop, a decoder that takes an item
without shortening the buffer included.  `Settled` says of an input that no cut
in it matters, and `settled_iff_agree` proves that it says exactly this.
-/

set_option autoImplicit false

namespace LinuxSystemLearning.Incremental

universe u v w x

variable {α : Type u} {β : Type v} {γ : Type w} {ε : Type x}

inductive Verdict (α : Type u) (β : Type v) (ε : Type x) where
  | stall
  | crash (error : ε)
  | take (item : β) (rest : List α)

/-- More input never takes a decision back: a crash stays the same crash, and an
item stays an item that ends at the same place, though not the same item. -/
structure Decoder (α : Type u) (β : Type v) (ε : Type x) where
  decode : List α → Verdict α β ε
  stall_nil : decode [] = .stall
  stall_of_append : ∀ {front back : List α},
    decode (front ++ back) = .stall → decode front = .stall
  crash_append : ∀ {front : List α} {error : ε} (back : List α),
    decode front = .crash error → decode (front ++ back) = .crash error
  take_append : ∀ {front rest : List α} {item : β} (back : List α),
    decode front = .take item rest →
      ∃ item', decode (front ++ back) = .take item' (rest ++ back)
  /-- What a shortest decodable buffer leaves behind is not decodable early. -/
  tight : ∀ {buffer rest : List α} {item : β},
    decode buffer = .take item rest →
    (∀ front back, front ++ back = buffer → back ≠ [] →
      decode front = .stall) →
    ∀ front back, front ++ back = rest → back ≠ [] → decode front = .stall

inductive Stop (α : Type u) (ε : Type x) where
  | idle (rest : List α)
  | crashed (error : ε)
  | spins

structure Drained (α : Type u) (β : Type v) (γ : Type w) (ε : Type x) where
  items : List β
  output : List γ
  stop : Stop α ε

def Drained.prepend (item : β) (out : List γ) (tail : Drained α β γ ε) :
    Drained α β γ ε :=
  ⟨item :: tail.items, out ++ tail.output, tail.stop⟩

def Drained.andThen (head tail : Drained α β γ ε) : Drained α β γ ε :=
  ⟨head.items ++ tail.items, head.output ++ tail.output, tail.stop⟩

def Drained.Idle (drained : Drained α β γ ε) : Prop :=
  ∃ rest, drained.stop = .idle rest

theorem Drained.not_idle_of_crashed {drained : Drained α β γ ε} {error : ε}
    (stop : drained.stop = .crashed error) : ¬ drained.Idle := by
  intro idle
  obtain ⟨rest, idle⟩ := idle
  rw [stop] at idle
  cases idle

theorem Drained.not_idle_of_spins {drained : Drained α β γ ε}
    (stop : drained.stop = .spins) : ¬ drained.Idle := by
  intro idle
  obtain ⟨rest, idle⟩ := idle
  rw [stop] at idle
  cases idle

/-- Decode and serve until the decoder stalls, somebody crashes, or the same
buffer comes back, in which case the loop goes round for ever. -/
def drain (decode : List α → Verdict α β ε)
    (serve : β → Except ε (List γ)) (buffer : List α) : Drained α β γ ε :=
  match decode buffer with
  | .stall => ⟨[], [], .idle buffer⟩
  | .crash error => ⟨[], [], .crashed error⟩
  | .take item rest =>
      match serve item with
      | .error error => ⟨[item], [], .crashed error⟩
      | .ok out =>
          if rest.length < buffer.length then
            (drain decode serve rest).prepend item out
          else
            ⟨[item], out, .spins⟩
termination_by buffer.length

section Drain

variable {decode : List α → Verdict α β ε} {serve : β → Except ε (List γ)}
  {buffer rest : List α} {item : β} {out : List γ} {error : ε}

theorem drain_stall (stalled : decode buffer = .stall) :
    drain decode serve buffer = ⟨[], [], .idle buffer⟩ := by
  rw [drain, stalled]

theorem drain_crash (crashed : decode buffer = .crash error) :
    drain decode serve buffer = ⟨[], [], .crashed error⟩ := by
  rw [drain, crashed]

theorem drain_error (taken : decode buffer = .take item rest)
    (served : serve item = .error error) :
    drain decode serve buffer = ⟨[item], [], .crashed error⟩ := by
  rw [drain, taken]
  simp only [served]

theorem drain_take (taken : decode buffer = .take item rest)
    (served : serve item = .ok out) (shorter : rest.length < buffer.length) :
    drain decode serve buffer =
      (drain decode serve rest).prepend item out := by
  rw [drain, taken]
  simp only [served, if_pos shorter]

theorem drain_spin (taken : decode buffer = .take item rest)
    (served : serve item = .ok out) (same : ¬ rest.length < buffer.length) :
    drain decode serve buffer = ⟨[item], out, .spins⟩ := by
  rw [drain, taken]
  simp only [served, if_neg same]

/-- The first item handed out is the one the decoder takes, whatever happens
to it then. -/
theorem drain_items_of_take (taken : decode buffer = .take item rest) :
    ∃ items, (drain decode serve buffer).items = item :: items := by
  cases served : serve item with
  | error e => exact ⟨[], by rw [drain_error taken served]⟩
  | ok out =>
      by_cases shorter : rest.length < buffer.length
      · exact ⟨_, by rw [drain_take taken served shorter]; rfl⟩
      · exact ⟨[], by rw [drain_spin taken served shorter]⟩

theorem stalled_of_drain_idle (idle : (drain decode serve buffer).stop = .idle rest) :
    decode rest = .stall := by
  induction size : buffer.length using Nat.strongRecOn generalizing buffer with
  | ind size ih =>
      cases verdict : decode buffer with
      | stall =>
          rw [drain_stall verdict] at idle
          cases idle
          exact verdict
      | crash e => rw [drain_crash verdict] at idle; cases idle
      | take item' rest' =>
          cases served : serve item' with
          | error e => rw [drain_error verdict served] at idle; cases idle
          | ok out' =>
              by_cases shorter : rest'.length < buffer.length
              · rw [drain_take verdict served shorter] at idle
                exact ih rest'.length (size ▸ shorter) idle rfl
              · rw [drain_spin verdict served shorter] at idle
                cases idle

/-- The buffers the decoder is asked about: the first, and what is left of one
whose item was served. -/
inductive Meets (decode : List α → Verdict α β ε)
    (serve : β → Except ε (List γ)) (first : List α) : List α → Prop where
  | first : Meets decode serve first first
  | served {buffer rest : List α} {item : β} {out : List γ}
      (before : Meets decode serve first buffer)
      (taken : decode buffer = .take item rest) (served : serve item = .ok out) :
      Meets decode serve first rest

/-- Asked about `buffer`, the decoder stalls or makes progress. -/
def Calm (decode : List α → Verdict α β ε) (serve : β → Except ε (List γ))
    (buffer : List α) : Prop :=
  decode buffer = .stall ∨
    ∃ item rest out, decode buffer = .take item rest ∧ serve item = .ok out ∧
      rest.length < buffer.length

theorem Meets.cases_first {first last : List α}
    (meets : Meets decode serve first last) :
    last = first ∨ ∃ item rest out, decode first = .take item rest ∧
      serve item = .ok out ∧ Meets decode serve rest last := by
  induction meets with
  | first => exact .inl rfl
  | @served buffer rest' item' out' _ taken served ih =>
      right
      rcases ih with rfl | ⟨item, rest, out, taken', served', meets⟩
      · exact ⟨item', rest', out', taken, served, .first⟩
      · exact ⟨item, rest, out, taken', served', .served meets taken served⟩

theorem Meets.behind {last : List α} (taken : decode buffer = .take item rest)
    (served : serve item = .ok out) (meets : Meets decode serve rest last) :
    Meets decode serve buffer last := by
  induction meets with
  | first => exact .served .first taken served
  | served _ taken' served' ih => exact .served ih taken' served'

/-- Where it is not calm, the loop crashes or goes round for ever. -/
theorem not_idle_of_not_calm (troubled : ¬ Calm decode serve buffer) :
    ¬ (drain decode serve buffer).Idle := by
  intro idle
  apply troubled
  cases verdict : decode buffer with
  | stall => exact .inl verdict
  | crash error =>
      rw [drain_crash verdict] at idle
      exact absurd idle (Drained.not_idle_of_crashed rfl)
  | take item rest =>
      cases served : serve item with
      | error error =>
          rw [drain_error verdict served] at idle
          exact absurd idle (Drained.not_idle_of_crashed rfl)
      | ok out =>
          by_cases shorter : rest.length < buffer.length
          · exact .inr ⟨item, rest, out, verdict, served, shorter⟩
          · rw [drain_spin verdict served shorter] at idle
            exact absurd idle (Drained.not_idle_of_spins rfl)

/-- The decoding loop is left without a crash if and only if it is calm at every
buffer it meets. -/
theorem drain_idle_iff :
    (drain decode serve buffer).Idle ↔
      ∀ met, Meets decode serve buffer met → Calm decode serve met := by
  induction size : buffer.length using Nat.strongRecOn generalizing buffer with
  | ind size ih =>
      by_cases calm : Calm decode serve buffer
      · rcases calm with stalled | ⟨item, rest, out, taken, served, shorter⟩
        · rw [drain_stall stalled]
          refine ⟨fun _ met meets => ?_, fun _ => ⟨buffer, rfl⟩⟩
          rcases meets.cases_first with rfl | ⟨item, rest, out, taken, -⟩
          · exact .inl stalled
          · rw [stalled] at taken
            cases taken
        · rw [drain_take taken served shorter]
          have tail := ih rest.length (size ▸ shorter) rfl
          constructor
          · intro idle met meets
            rcases meets.cases_first with rfl |
              ⟨item', rest', out', taken', served', meets⟩
            · exact .inr ⟨item, rest, out, taken, served, shorter⟩
            · rw [taken] at taken'
              cases taken'
              exact tail.mp idle met meets
          · intro all
            apply tail.mpr
            intro met meets
            exact all met (meets.behind taken served)
      · apply iff_of_false (not_idle_of_not_calm calm)
        intro all
        exact calm (all buffer .first)

end Drain

/-! ## Sessions -/

/-- A receiver between two chunks.  A receiver that is not `alive` crashed or
hangs; what its last call had produced by then was never returned. -/
structure Session (α : Type u) (β : Type v) (γ : Type w) where
  received : List α
  buffer : List α
  items : List β
  output : List γ
  alive : Bool

def Session.start : Session α β γ := ⟨[], [], [], [], true⟩

/-- What the outside sees: the bytes taken in, the items handed out and the
output returned. -/
def Session.log (session : Session α β γ) : List α × List β × List γ :=
  (session.received, session.items, session.output)

def Session.absorb (session : Session α β γ) (chunk : List α)
    (drained : Drained α β γ ε) : Session α β γ :=
  match drained.stop with
  | .idle rest =>
      ⟨session.received ++ chunk, rest, session.items ++ drained.items,
        session.output ++ drained.output, true⟩
  | _ =>
      ⟨session.received ++ chunk, [], session.items ++ drained.items,
        session.output, false⟩

def Session.feed (decode : List α → Verdict α β ε)
    (serve : β → Except ε (List γ)) (session : Session α β γ)
    (chunk : List α) : Session α β γ :=
  if session.alive then
    session.absorb chunk (drain decode serve (session.buffer ++ chunk))
  else
    session

theorem Session.absorb_idle (session : Session α β γ) (chunk : List α)
    {drained : Drained α β γ ε} {rest : List α}
    (idle : drained.stop = .idle rest) :
    session.absorb chunk drained =
      ⟨session.received ++ chunk, rest, session.items ++ drained.items,
        session.output ++ drained.output, true⟩ := by
  simp only [Session.absorb, idle]

theorem Session.absorb_not_idle (session : Session α β γ) (chunk : List α)
    {drained : Drained α β γ ε} (dead : ¬ drained.Idle) :
    session.absorb chunk drained =
      ⟨session.received ++ chunk, [], session.items ++ drained.items,
        session.output, false⟩ := by
  unfold Session.absorb
  split
  · rename_i rest idle
    exact absurd ⟨rest, idle⟩ dead
  · rfl

theorem Session.absorb_received (session : Session α β γ) (chunk : List α)
    (drained : Drained α β γ ε) :
    (session.absorb chunk drained).received = session.received ++ chunk := by
  unfold Session.absorb
  split <;> rfl

theorem Session.absorb_items (session : Session α β γ) (chunk : List α)
    (drained : Drained α β γ ε) :
    (session.absorb chunk drained).items = session.items ++ drained.items := by
  unfold Session.absorb
  split <;> rfl

theorem Session.absorb_alive (session : Session α β γ) (chunk : List α)
    (drained : Drained α β γ ε) :
    (session.absorb chunk drained).alive = true ↔ drained.Idle := by
  by_cases idle : drained.Idle
  · obtain ⟨rest, stop⟩ := idle
    rw [Session.absorb_idle session chunk stop]
    exact ⟨fun _ => ⟨rest, stop⟩, fun _ => rfl⟩
  · rw [Session.absorb_not_idle session chunk idle]
    simp [idle]

theorem Session.items_prefix_feed (decode : List α → Verdict α β ε)
    (serve : β → Except ε (List γ)) (session : Session α β γ)
    (chunk : List α) :
    session.items <+: (session.feed decode serve chunk).items := by
  unfold Session.feed
  split
  · rw [Session.absorb_items]
    exact List.prefix_append _ _
  · exact List.prefix_rfl

theorem Session.output_prefix_feed (decode : List α → Verdict α β ε)
    (serve : β → Except ε (List γ)) (session : Session α β γ)
    (chunk : List α) :
    session.output <+: (session.feed decode serve chunk).output := by
  unfold Session.feed Session.absorb
  split
  · split
    · exact List.prefix_append _ _
    · exact List.prefix_rfl
  · exact List.prefix_rfl

theorem Session.absorb_absorb (session : Session α β γ)
    (chunk more : List α) {head tail : Drained α β γ ε} {rest : List α}
    (idle : head.stop = .idle rest) (kept : ¬ tail.Idle → head.output = []) :
    (session.absorb chunk head).absorb more tail =
      session.absorb (chunk ++ more) (head.andThen tail) := by
  rw [Session.absorb_idle session chunk idle]
  by_cases alive : tail.Idle
  · obtain ⟨last, done⟩ := alive
    have both : (head.andThen tail).stop = .idle last := done
    rw [Session.absorb_idle _ _ done, Session.absorb_idle _ _ both]
    simp [Drained.andThen]
  · have both : ¬ (head.andThen tail).Idle := alive
    rw [Session.absorb_not_idle _ _ alive, Session.absorb_not_idle _ _ both]
    simp [Drained.andThen, kept alive]

theorem Session.feed_dead (decode : List α → Verdict α β ε)
    (serve : β → Except ε (List γ)) (session : Session α β γ)
    (dead : session.alive = false) (chunks : List (List α)) :
    chunks.foldl (Session.feed decode serve) session = session := by
  induction chunks with
  | nil => rfl
  | cons chunk rest ih =>
      simpa [Session.feed, dead] using ih

theorem Session.feed_nil {decode : List α → Verdict α β ε}
    (serve : β → Except ε (List γ)) (session : Session α β γ)
    (stalled : session.alive = true → decode session.buffer = .stall) :
    session.feed decode serve [] = session := by
  cases alive : session.alive with
  | true =>
      have nothing := (drain_stall (stalled alive) :
        drain decode serve session.buffer = ⟨[], [], .idle session.buffer⟩)
      simp only [Session.feed, alive, if_true, List.append_nil, nothing]
      rw [Session.absorb_idle session [] rfl]
      simp [← alive]
  | false => simp [Session.feed, alive]

/-- A receiver that is alive has nothing left to decode. -/
theorem Session.stalled_of_feed {decode : List α → Verdict α β ε}
    (serve : β → Except ε (List γ)) (session : Session α β γ)
    (stalled : session.alive = true → decode session.buffer = .stall)
    (chunks : List (List α)) :
    (chunks.foldl (Session.feed decode serve) session).alive = true →
      decode (chunks.foldl (Session.feed decode serve) session).buffer =
        .stall := by
  induction chunks generalizing session with
  | nil => exact stalled
  | cons chunk rest ih =>
      rw [List.foldl_cons]
      apply ih
      intro alive
      unfold Session.feed at alive ⊢
      split at alive
      · rename_i before
        rw [if_pos before]
        obtain ⟨left, idle⟩ := (Session.absorb_alive _ _ _).mp alive
        rw [Session.absorb_idle _ _ idle]
        exact stalled_of_drain_idle idle
      · rename_i dead
        exact absurd alive dead

/-! ## Inputs in which no cut matters -/

variable (decoder : Decoder α β ε) (serve : β → Except ε (List γ))

def StallsBefore (buffer : List α) : Prop :=
  ∀ front back, front ++ back = buffer → back ≠ [] →
    decoder.decode front = .stall

/-- `sent` is what earlier calls may already have returned.  Either nothing is
decided before the last byte, and then a crash must not lose `sent`; or the item
at the front is the same at whichever byte it is first taken, and is served. -/
inductive Settled : List γ → List α → Prop where
  | whole {sent : List γ} {buffer : List α}
      (late : StallsBefore decoder buffer)
      (safe : sent ≠ [] → (drain decoder.decode serve buffer).Idle) :
      Settled sent buffer
  | frame {sent out : List γ} {buffer rest : List α} {item : β}
      (taken : decoder.decode buffer = .take item rest)
      (served : serve item = .ok out)
      (shorter : rest.length < buffer.length)
      (fixed : ∀ front back, front ++ back = buffer →
        decoder.decode front = .stall ∨
          ∃ rest', decoder.decode front = .take item rest')
      (tail : Settled (sent ++ out) rest) :
      Settled sent buffer

variable {decoder serve}

theorem stallsBefore_of_stall {buffer : List α}
    (stalled : decoder.decode buffer = .stall) :
    StallsBefore decoder buffer := by
  intro front back cut _
  exact decoder.stall_of_append (cut ▸ stalled)

/-- Cutting a frame off a prefix leaves the rest of the frame's rest. -/
theorem take_prefix {front back rest rest' : List α} {item item' : β}
    (whole : decoder.decode (front ++ back) = .take item rest)
    (early : decoder.decode front = .take item' rest') :
    rest = rest' ++ back := by
  obtain ⟨item'', again⟩ := decoder.take_append back early
  rw [whole] at again
  cases again
  rfl

theorem Settled.idle_of_sent {sent : List γ} {buffer : List α}
    (settled : Settled decoder serve sent buffer) (pending : sent ≠ []) :
    (drain decoder.decode serve buffer).Idle := by
  induction settled with
  | whole _ safe => exact safe pending
  | frame taken served shorter _ _ ih =>
      rw [drain_take taken served shorter]
      exact ih (by simp [pending])

theorem Settled.idle_of_cut {sent : List γ} {buffer : List α}
    (settled : Settled decoder serve sent buffer) :
    ∀ front back, front ++ back = buffer → back ≠ [] →
      (drain decoder.decode serve front).Idle := by
  induction settled with
  | whole late _ =>
      intro front back cut more
      rw [drain_stall (late front back cut more)]
      exact ⟨front, rfl⟩
  | @frame sent out buffer rest item taken served shorter fixed _ ih =>
      intro front back cut more
      rcases fixed front back cut with stalled | ⟨rest', early⟩
      · rw [drain_stall stalled]
        exact ⟨front, rfl⟩
      · have left : rest = rest' ++ back := take_prefix (cut ▸ taken) early
        have shorter' : rest'.length < front.length := by
          rw [left, ← cut] at shorter
          simpa using shorter
        rw [drain_take early served shorter']
        exact ih rest' back left.symm more

/-- Draining a prefix first leaves a settled input and loses nothing. -/
theorem Settled.drain_cut {sent : List γ} {buffer : List α}
    (settled : Settled decoder serve sent buffer) :
    ∀ front back rest, front ++ back = buffer →
      (drain decoder.decode serve front).stop = .idle rest →
      Settled decoder serve
          (sent ++ (drain decoder.decode serve front).output)
          (rest ++ back) ∧
        drain decoder.decode serve buffer =
          (drain decoder.decode serve front).andThen
            (drain decoder.decode serve (rest ++ back)) := by
  induction settled with
  | @whole sent buffer late safe =>
      intro front back rest cut idle
      by_cases more : back = []
      · subst more
        simp only [List.append_nil] at cut ⊢
        subst cut
        have stalled := stalled_of_drain_idle idle
        refine ⟨.whole (stallsBefore_of_stall stalled) ?_, ?_⟩
        · intro _
          rw [drain_stall stalled]
          exact ⟨rest, rfl⟩
        · rw [drain_stall stalled]
          simp [Drained.andThen, ← idle]
      · have stalled := late front back cut more
        rw [drain_stall stalled] at idle ⊢
        cases idle
        rw [cut]
        exact ⟨by simpa using Settled.whole late safe, by simp [Drained.andThen]⟩
  | @frame sent out buffer left item taken served shorter fixed tail ih =>
      intro front back rest cut idle
      rcases fixed front back cut with stalled | ⟨left', early⟩
      · rw [drain_stall stalled] at idle ⊢
        cases idle
        rw [cut]
        exact ⟨by simpa using Settled.frame taken served shorter fixed tail,
          by simp [Drained.andThen]⟩
      · have split : left = left' ++ back := take_prefix (cut ▸ taken) early
        have shorter' : left'.length < front.length := by
          rw [split, ← cut] at shorter
          simpa using shorter
        rw [drain_take early served shorter'] at idle ⊢
        obtain ⟨settled, same⟩ := ih left' back rest split.symm idle
        refine ⟨by simpa [Drained.prepend] using settled, ?_⟩
        rw [drain_take taken served shorter, same]
        simp [Drained.prepend, Drained.andThen]

/-- However a settled input arrives, the receiver ends as if it had come in one
piece. -/
theorem Settled.feed_eq (chunks : List (List α)) (session : Session α β γ)
    (alive : session.alive = true)
    (stalled : decoder.decode session.buffer = .stall)
    (settled : Settled decoder serve session.output
      (session.buffer ++ chunks.flatten)) :
    chunks.foldl (Session.feed decoder.decode serve) session =
      session.absorb chunks.flatten
        (drain decoder.decode serve (session.buffer ++ chunks.flatten)) := by
  induction chunks generalizing session with
  | nil =>
      simp only [List.flatten_nil, List.append_nil, List.foldl_nil]
      rw [drain_stall stalled, Session.absorb_idle session [] rfl]
      simp [← alive]
  | cons chunk rest ih =>
      rw [List.flatten_cons, ← List.append_assoc] at settled ⊢
      rw [List.foldl_cons]
      have fed : Session.feed decoder.decode serve session chunk =
          session.absorb chunk
            (drain decoder.decode serve (session.buffer ++ chunk)) := by
        simp [Session.feed, alive]
      rw [fed]
      by_cases idle : (drain decoder.decode serve
          (session.buffer ++ chunk)).Idle
      · obtain ⟨left, idle⟩ := idle
        obtain ⟨settled', whole⟩ :=
          settled.drain_cut (session.buffer ++ chunk) rest.flatten left rfl idle
        have stopped := Session.absorb_idle session chunk idle
        have buffered : (session.absorb chunk (drain decoder.decode serve
            (session.buffer ++ chunk))).buffer = left := by rw [stopped]
        rw [whole, ih _ (by rw [stopped]), buffered]
        · apply Session.absorb_absorb session chunk rest.flatten idle
          -- a crash is only allowed while nothing has been returned
          intro dead
          by_contra pending
          exact dead (settled'.idle_of_sent (by simp [pending]))
        · rw [buffered]
          exact stalled_of_drain_idle idle
        · rw [stopped]
          exact settled'
      · have none_left : rest.flatten = [] := by
          by_contra more
          exact idle (settled.idle_of_cut _ rest.flatten rfl more)
        rw [none_left, List.append_nil, List.append_nil,
          Session.absorb_not_idle _ _ idle]
        exact Session.feed_dead decoder.decode serve _ rfl rest

/-! ## Inputs made of frames -/

variable (decoder serve) in
/-- Whatever follows it, the text `encode item` of each item is taken off the
front as that item and served with `reply item`. -/
structure SelfDelimiting (encode : β → List α) (reply : β → List γ)
    (items : List β) : Prop where
  taken : ∀ item ∈ items, ∀ rest,
    decoder.decode (encode item ++ rest) = .take item rest
  served : ∀ item ∈ items, serve item = .ok (reply item)

section SelfDelimiting

variable {encode : β → List α} {reply : β → List γ}

theorem SelfDelimiting.tail {item : β} {items : List β}
    (framed : SelfDelimiting decoder serve encode reply (item :: items)) :
    SelfDelimiting decoder serve encode reply items where
  taken other member := framed.taken other (List.mem_cons_of_mem item member)
  served other member := framed.served other (List.mem_cons_of_mem item member)

theorem SelfDelimiting.shorter {item : β} {items : List β}
    (framed : SelfDelimiting decoder serve encode reply (item :: items))
    (rest : List α) : rest.length < (encode item ++ rest).length := by
  have nonempty : encode item ≠ [] := by
    intro empty
    have taken := framed.taken item List.mem_cons_self []
    rw [empty, List.append_nil, decoder.stall_nil] at taken
    cases taken
  have positive := List.length_pos_of_ne_nil nonempty
  rw [List.length_append]
  omega

/-- Frames, and behind them what no decision is made about, are drained to that. -/
theorem SelfDelimiting.drained_append (items : List β)
    (framed : SelfDelimiting decoder serve encode reply items) {left : List α}
    (stalled : decoder.decode left = .stall) :
    drain decoder.decode serve ((items.map encode).flatten ++ left) =
      ⟨items, (items.map reply).flatten, .idle left⟩ := by
  induction items with
  | nil => exact drain_stall stalled
  | cons item items ih =>
      rw [List.map_cons, List.flatten_cons, List.append_assoc,
        drain_take (framed.taken item List.mem_cons_self _)
          (framed.served item List.mem_cons_self) (framed.shorter _),
        ih framed.tail]
      rfl

theorem SelfDelimiting.stalled_of_begun {items : List β}
    (framed : SelfDelimiting decoder serve encode reply items) {item : β}
    (member : item ∈ items) {left : List α} (begun : left <+: encode item)
    (notWhole : left ≠ encode item) : decoder.decode left = .stall := by
  obtain ⟨gap, frame⟩ := begun
  have whole := framed.taken item member []
  rw [List.append_nil, ← frame] at whole
  cases early : decoder.decode left with
  | stall => rfl
  | crash error =>
      have crashed := decoder.crash_append gap early
      rw [whole] at crashed
      cases crashed
  | take item' rest' =>
      have nothing := take_prefix whole early
      have ended := (List.append_eq_nil_iff.mp nothing.symm).2
      rw [ended, List.append_nil] at frame
      exact absurd frame notWhole

/-- No cut in an input made of frames matters: before the end of the first
frame nothing is taken, and behind it always the same item. -/
theorem SelfDelimiting.settled_append (items : List β)
    (framed : SelfDelimiting decoder serve encode reply items) (sent : List γ)
    {left : List α} (stalled : decoder.decode left = .stall) :
    Settled decoder serve sent ((items.map encode).flatten ++ left) := by
  induction items generalizing sent with
  | nil =>
      apply Settled.whole (stallsBefore_of_stall stalled)
      intro _
      exact ⟨left, congrArg Drained.stop (drain_stall stalled)⟩
  | cons item items ih =>
      rw [List.map_cons, List.flatten_cons, List.append_assoc]
      refine .frame (framed.taken item List.mem_cons_self _)
        (framed.served item List.mem_cons_self) (framed.shorter _) ?_
        (ih framed.tail _)
      intro front back cut
      rcases List.append_eq_append_iff.mp cut with
        ⟨gap, frame, -⟩ | ⟨extra, rfl, -⟩
      · by_cases notWhole : front = encode item
        · have whole := framed.taken item List.mem_cons_self []
          rw [List.append_nil, ← notWhole] at whole
          exact .inr ⟨[], whole⟩
        · exact .inl (framed.stalled_of_begun List.mem_cons_self ⟨gap, frame.symm⟩ notWhole)
      · exact .inr ⟨extra, framed.taken item List.mem_cons_self extra⟩

/-- However a list of frames with a piece behind it is cut, each frame is taken once, in
order, and the piece is left over. -/
theorem SelfDelimiting.feed_append (items : List β)
    (framed : SelfDelimiting decoder serve encode reply items) {left : List α}
    (stalled : decoder.decode left = .stall) (chunks : List (List α))
    (cut : chunks.flatten = (items.map encode).flatten ++ left) :
    chunks.foldl (Session.feed decoder.decode serve) .start =
      ⟨chunks.flatten, left, items, (items.map reply).flatten, true⟩ := by
  have settled := SelfDelimiting.settled_append items framed [] stalled
  rw [← cut] at settled
  have fed := Settled.feed_eq chunks .start rfl decoder.stall_nil settled
  rw [fed]
  simp only [Session.start, List.nil_append]
  rw [cut, SelfDelimiting.drained_append items framed stalled]
  exact Session.absorb_idle _ _ rfl

/-- However a list of frames is cut, each is taken once, in order, and nothing
is left over. -/
theorem SelfDelimiting.feed (items : List β)
    (framed : SelfDelimiting decoder serve encode reply items)
    (chunks : List (List α)) (cut : chunks.flatten = (items.map encode).flatten) :
    chunks.foldl (Session.feed decoder.decode serve) .start =
      ⟨chunks.flatten, [], items, (items.map reply).flatten, true⟩ :=
  framed.feed_append items decoder.stall_nil chunks (cut.trans (List.append_nil _).symm)

end SelfDelimiting

/-! ## Inputs in which some cut matters -/

variable (decoder serve)

/-- A cut the outside can tell from no cut: the receiver dies at it, hands out
another item, or has returned output that an uncut crash loses. -/
inductive Disagrees (sent : List γ) (buffer : List α) : Prop where
  | dies (front back : List α) (cut : front ++ back = buffer) (more : back ≠ [])
      (dead : ¬ (drain decoder.decode serve front).Idle)
  | items (front back : List α) (cut : front ++ back = buffer)
      (other : ¬ (drain decoder.decode serve front).items <+:
        (drain decoder.decode serve buffer).items)
  | lost (dead : ¬ (drain decoder.decode serve buffer).Idle)
      (returned : sent ≠ [] ∨ ∃ front back, front ++ back = buffer ∧ back ≠ [] ∧
        (drain decoder.decode serve front).output ≠ [])

variable {decoder serve}

theorem exists_shortest {front back buffer : List α}
    (cut : front ++ back = buffer) (decided : decoder.decode front ≠ .stall) :
    ∃ first last, first ++ last = front ∧ decoder.decode first ≠ .stall ∧
      StallsBefore decoder first := by
  induction size : front.length using Nat.strongRecOn
    generalizing front back with
  | ind bound ih =>
      by_cases late : StallsBefore decoder front
      · exact ⟨front, [], by simp, decided, late⟩
      · simp only [StallsBefore, not_forall] at late
        obtain ⟨shorter, left, inner, more, decided'⟩ := late
        have smaller : shorter.length < bound := by
          rw [← size, ← inner, List.length_append]
          have := List.length_pos_of_ne_nil more
          omega
        obtain ⟨first, last, cut', first_decided, first_late⟩ :=
          ih shorter.length smaller
            (by rw [← List.append_assoc, inner, cut]) decided' rfl
        exact ⟨first, last ++ left, by rw [← List.append_assoc, cut', inner],
          first_decided, first_late⟩

/-- A cut behind the first frame is a cut of the whole input, unless it falls
into bytes that arrived together with that frame. -/
theorem drain_prepend_of_cut {first last buffer rest left : List α}
    {item : β} {out : List γ} (cut : first ++ last = buffer)
    (taken : decoder.decode buffer = .take item rest)
    (early : decoder.decode first = .take item left)
    (late : StallsBefore decoder first)
    (served : serve item = .ok out) (shorter : rest.length < buffer.length)
    (fixed : ∀ front back, front ++ back = buffer →
      decoder.decode front = .stall ∨
        ∃ rest', decoder.decode front = .take item rest')
    (front back : List α) (inner : front ++ back = rest) :
    decoder.decode front = .stall ∨
      ∃ whole, whole ++ back = buffer ∧
        drain decoder.decode serve whole =
          (drain decoder.decode serve front).prepend item out := by
  have split : rest = left ++ last := take_prefix (cut ▸ taken) early
  have shorter' : left.length < first.length := by
    rw [split, ← cut] at shorter
    simpa using shorter
  rcases List.append_eq_append_iff.mp (inner.trans split) with
    ⟨gap, leftEq, backEq⟩ | ⟨extra, frontEq, lastEq⟩
  · by_cases none_left : gap = []
    · subst none_left
      simp only [List.append_nil, List.nil_append] at leftEq backEq
      subst leftEq backEq
      exact .inr ⟨first, cut, drain_take early served shorter'⟩
    · exact .inl (decoder.tight early late front gap leftEq.symm none_left)
  · refine .inr ⟨first ++ extra, by rw [← cut, lastEq, List.append_assoc], ?_⟩
    have taken' : decoder.decode (first ++ extra) = .take item front := by
      obtain ⟨item', again⟩ := decoder.take_append extra early
      rcases fixed (first ++ extra) back
          (by rw [← cut, lastEq, List.append_assoc]) with stalled | ⟨rest', same⟩
      · rw [again] at stalled
        cases stalled
      · rw [again] at same
        cases same
        rw [again, frontEq]
    apply drain_take taken' served
    rw [frontEq]
    simpa using shorter'

theorem Disagrees.of_other_item {sent : List γ} {front back buffer rest : List α}
    {item : β} (taken : decoder.decode buffer = .take item rest)
    (cut : front ++ back = buffer) (decided : decoder.decode front ≠ .stall)
    (other : ∀ rest', decoder.decode front ≠ .take item rest') :
    Disagrees decoder serve sent buffer := by
  cases verdict : decoder.decode front with
  | stall => exact absurd verdict decided
  | crash error =>
      have crashed := decoder.crash_append back verdict
      rw [cut, taken] at crashed
      cases crashed
  | take item' rest' =>
      apply Disagrees.items front back cut
      obtain ⟨items, itemsEq⟩ := drain_items_of_take verdict
      obtain ⟨items', itemsEq'⟩ := drain_items_of_take taken
      rw [itemsEq, itemsEq']
      intro first
      rw [List.cons_prefix_cons] at first
      exact other rest' (first.1 ▸ verdict)

/-- What disagrees behind the first frame disagrees in the whole input. -/
theorem Disagrees.prepend {sent out : List γ}
    {first last buffer rest left : List α} {item : β}
    (cut : first ++ last = buffer) (more : last ≠ [])
    (taken : decoder.decode buffer = .take item rest)
    (early : decoder.decode first = .take item left)
    (late : StallsBefore decoder first) (served : serve item = .ok out)
    (shorter : rest.length < buffer.length)
    (shorter' : left.length < first.length)
    (fixed : ∀ front back, front ++ back = buffer →
      decoder.decode front = .stall ∨
        ∃ rest', decoder.decode front = .take item rest')
    (tail : Disagrees decoder serve (sent ++ out) rest) :
    Disagrees decoder serve sent buffer := by
  have lift := drain_prepend_of_cut cut taken early late served shorter fixed
  cases tail with
  | dies front back inner more' dead =>
      rcases lift front back inner with stalled | ⟨whole, cut', drained⟩
      · exact absurd ⟨front, by rw [drain_stall stalled]⟩ dead
      · apply Disagrees.dies whole back cut' more'
        rw [drained]
        exact dead
  | items front back inner other =>
      rcases lift front back inner with stalled | ⟨whole, cut', drained⟩
      · rw [drain_stall stalled] at other
        exact absurd List.nil_prefix other
      · apply Disagrees.items whole back cut'
        rw [drained, drain_take taken served shorter]
        simpa [Drained.prepend] using other
  | lost dead returned =>
      have dead' : ¬ (drain decoder.decode serve buffer).Idle := by
        rw [drain_take taken served shorter]
        exact dead
      apply Disagrees.lost dead'
      by_cases earlier : sent = []
      · right
        rcases returned with pending | ⟨front, back, inner, more', produced⟩
        · refine ⟨first, last, cut, more, ?_⟩
          rw [drain_take early served shorter']
          simp only [earlier, List.nil_append] at pending
          simp [Drained.prepend, pending]
        · rcases lift front back inner with stalled | ⟨whole, cut', drained⟩
          · rw [drain_stall stalled] at produced
            exact absurd rfl produced
          · refine ⟨whole, back, cut', more', ?_⟩
            rw [drained]
            simp [Drained.prepend, produced]
      · exact .inl earlier

theorem disagrees_of_not_settled (sent : List γ) (buffer : List α)
    (unsettled : ¬ Settled decoder serve sent buffer) :
    Disagrees decoder serve sent buffer := by
  induction size : buffer.length using Nat.strongRecOn
    generalizing sent buffer with
  | ind size ih =>
      by_cases late : StallsBefore decoder buffer
      · -- nothing is decided early, so the crash loses what was returned
        have unsafe_end : ¬ (sent ≠ [] → (drain decoder.decode serve buffer).Idle) :=
          fun safe => unsettled (.whole late safe)
        simp only [Classical.not_imp] at unsafe_end
        exact .lost unsafe_end.2 (.inl unsafe_end.1)
      simp only [StallsBefore, not_forall] at late
      obtain ⟨front, back, cut, more, decided⟩ := late
      obtain ⟨first, last, inner, first_decided, first_late⟩ :=
        exists_shortest cut decided
      have cut' : first ++ (last ++ back) = buffer := by
        rw [← List.append_assoc, inner, cut]
      have more' : last ++ back ≠ [] := by simp [more]
      by_cases calm : Calm decoder.decode serve first
      · rcases calm with stalled | ⟨item, left, out, early, served, shorter⟩
        · exact absurd stalled first_decided
        obtain ⟨item', taken⟩ := decoder.take_append (last ++ back) early
        rw [cut'] at taken
        -- either every prefix takes `item'`, or one of them disagrees
        by_cases fixed : ∀ front back, front ++ back = buffer →
            decoder.decode front = .stall ∨
              ∃ rest', decoder.decode front = .take item' rest'
        · have same : item = item' := by
            rcases fixed first _ cut' with stalled | ⟨rest', again⟩
            · exact absurd stalled first_decided
            · rw [early] at again
              cases again
              rfl
          subst same
          have shorter' : (left ++ (last ++ back)).length < buffer.length := by
            rw [← cut']
            simpa using shorter
          have unsettled' : ¬ Settled decoder serve (sent ++ out)
              (left ++ (last ++ back)) := by
            intro tail
            exact unsettled (.frame taken served shorter' fixed tail)
          exact Disagrees.prepend cut' more' taken early first_late served shorter'
            shorter fixed (ih _ (size ▸ shorter') _ _ unsettled' rfl)
        · simp only [not_forall, not_or, not_exists] at fixed
          obtain ⟨front', back', cut'', decided', other⟩ := fixed
          exact Disagrees.of_other_item taken cut'' decided' other
      · exact .dies first _ cut' more' (not_idle_of_not_calm calm)

/-- A settled input is one in which no two ways of cutting it can be told
apart. -/
theorem settled_iff_agree (buffer : List α) :
    Settled decoder serve [] buffer ↔
      ∀ cuts cuts' : List (List α), cuts.flatten = buffer →
        cuts'.flatten = buffer →
        (cuts.foldl (Session.feed decoder.decode serve) .start).log =
          (cuts'.foldl (Session.feed decoder.decode serve) .start).log := by
  constructor
  · intro settled cuts cuts' whole whole'
    rw [Settled.feed_eq cuts .start rfl decoder.stall_nil (by simpa [Session.start, whole]),
      Settled.feed_eq cuts' .start rfl decoder.stall_nil (by simpa [Session.start, whole']),
      whole, whole']
  · intro agree
    by_contra unsettled
    have once : ∀ chunk : List α, Session.feed decoder.decode serve .start chunk =
        Session.start.absorb chunk (drain decoder.decode serve chunk) :=
      fun _ => rfl
    have uncut : ∀ front back : List α, front ++ back = buffer → back ≠ [] →
        (drain decoder.decode serve front).Idle := by
      intro front back cut more
      by_contra dead
      have same := congrArg Prod.fst
        (agree [front, back] [buffer] (by simpa using cut) (by simp))
      simp only [List.foldl_cons, List.foldl_nil, once, Session.log,
        Session.absorb_received] at same
      have stays := Session.feed_dead decoder.decode serve
        (Session.start.absorb front (drain decoder.decode serve front))
        (by rw [Session.absorb_not_idle _ _ dead]) [back]
      simp only [List.foldl_cons, List.foldl_nil] at stays
      rw [stays, Session.absorb_received, ← cut] at same
      exact more (by simpa using same)
    cases disagrees_of_not_settled [] buffer unsettled with
    | dies front back cut more dead => exact dead (uncut front back cut more)
    | items front back cut other =>
        have same := congrArg (fun log => log.2.1)
          (agree [front, back] [buffer] (by simpa using cut) (by simp))
        simp only [List.foldl_cons, List.foldl_nil, once, Session.log,
          Session.absorb_items .start buffer] at same
        have pre := Session.items_prefix_feed decoder.decode serve
          (Session.start.absorb front (drain decoder.decode serve front)) back
        rw [same, Session.absorb_items] at pre
        exact other (by simpa [Session.start] using pre)
    | lost dead returned =>
        obtain ⟨front, back, cut, more, produced⟩ :=
          returned.resolve_left (by simp)
        obtain ⟨rest, idle⟩ := uncut front back cut more
        have same := congrArg (fun log => log.2.2)
          (agree [front, back] [buffer] (by simpa using cut) (by simp))
        simp only [List.foldl_cons, List.foldl_nil, once, Session.log,
          Session.absorb_not_idle _ _ dead] at same
        have pre := Session.output_prefix_feed decoder.decode serve
          (Session.start.absorb front (drain decoder.decode serve front)) back
        rw [same, Session.absorb_idle _ _ idle] at pre
        simp only [Session.start, List.nil_append, List.prefix_nil] at pre
        exact produced pre

end LinuxSystemLearning.Incremental
