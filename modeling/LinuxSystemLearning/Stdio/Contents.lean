import LinuxSystemLearning.Stdio.MyStdio

/-!
# What comes to the file

A flush empties the buffer whatever `write` took, so that the rest is gone for good.  The
mode "a" truncates the file as the mode "w" does.
-/

set_option autoImplicit false

namespace LinuxSystemLearning.MyStdio

open LinuxSystemLearning.Cxx
open LinuxSystemLearning.Files
open LinuxSystemLearning.History
open LinuxSystemLearning.Interleaving

/-! ## Nothing is lost -/

/-- What the kernel took, and behind it what is in the buffer, is all that was written. -/
def Conserved (st : Stream) (events : List Event) : Prop :=
  st.accepted ++ st.file.outbuffer.bytes.take st.file.bufferlen.toNat = written events

/-- If the call comes to a `write`, the kernel takes all that is handed to it. -/
def Event.Whole (disk : OpenFile UInt8) (pending : Bytes) (event : Event) : Prop :=
  ∀ bytes ∈ event.call.flushes pending, disk.taken event.verdict bytes = some bytes.length

/-- Calls on a file for which the buffer is large enough. -/
structure Usage where
  opened : Opened
  events : List Event
  within : Each (fun front event => event.call.Within (unflushed front)) events

def Lossless (usage : Usage) : Prop :=
  Each (fun front event => ∃ after, play step usage.opened.stream (front ++ [event]) = some after ∧
    Conserved after (front ++ [event])) usage.events

variable {opened : Opened} {front history : List Event} {event : Event} {st after last : Stream}
variable {pending text : Bytes}

theorem Ran.conserved_iff (ran : Ran opened history last) :
    Conserved last history ↔ last.accepted ++ unflushed history = written history := by
  rw [Conserved, ran.buffered.len, Int.toNat_natCast, ran.buffered.take]

theorem taken_le {disk : OpenFile UInt8} {verdict : Verdict} {bytes : Bytes} :
    (disk.taken verdict bytes).getD 0 ≤ bytes.length := by
  unfold OpenFile.taken
  cases verdict with
  | fails => exact Nat.zero_le _
  | takes limit =>
      dsimp only
      split
      · exact Nat.min_le_right _ _
      · exact Nat.zero_le _

theorem Call.flushes_ne_nil {call : Call} {bytes : Bytes}
    (handed : call.flushes pending = some bytes) : bytes ≠ [] := by
  cases call with
  | fwrite str =>
      simp only [Call.flushes] at handed
      split at handed
      · rename_i ends
        cases handed
        intro empty
        rw [empty] at ends
        cases ends
      · cases handed
  | fflush =>
      simp only [Call.flushes] at handed
      split at handed
      · cases handed
      · rename_i nonempty
        cases handed
        exact nonempty

theorem Stepped.conserved_iff (stepped : Stepped st event pending after)
    (before : st.accepted ++ pending = text) :
    after.accepted ++ event.call.leaves pending = text ++ event.call.data ↔
      event.Whole st.disk pending := by
  have parts := event.call.flushes_append_leaves pending
  rw [stepped.accepted, ← before, List.append_assoc, List.append_assoc, ← parts,
    List.append_cancel_left_eq, List.append_cancel_right_eq]
  unfold Event.Whole
  cases handed : event.call.flushes pending with
  | none => simp
  | some bytes =>
      have positive := List.length_pos_of_ne_nil (Call.flushes_ne_nil handed)
      simp only [Option.getD_some, Option.mem_def, Option.some.injEq, forall_eq']
      constructor
      · intro same
        have length := congrArg List.length same
        rw [List.length_take] at length
        cases taken : st.disk.taken event.verdict bytes with
        | none =>
            rw [taken, Option.getD_none] at length
            omega
        | some count =>
            have bound : (st.disk.taken event.verdict bytes).getD 0 ≤ bytes.length := taken_le
            rw [taken, Option.getD_some] at length bound
            congr 1
            omega
      · intro taken
        rw [taken, Option.getD_some, List.take_length]

theorem taken_eq {disk disk' : OpenFile UInt8} (same : disk.writable = disk'.writable)
    (verdict : Verdict) (bytes : Bytes) : disk.taken verdict bytes = disk'.taken verdict bytes := by
  unfold OpenFile.taken
  rw [same]

theorem writable_write (disk : OpenFile UInt8) (verdict : Verdict) (bytes : Bytes) :
    (disk.write verdict bytes).2.writable = disk.writable := by
  unfold OpenFile.write
  split
  · rfl
  · rfl

theorem Stepped.writable (stepped : Stepped st event pending after) :
    after.disk.writable = st.disk.writable := by
  rw [stepped.disk]
  split
  · rfl
  · exact writable_write _ _ _

theorem Event.whole_iff {disk disk' : OpenFile UInt8} (same : disk.writable = disk'.writable) :
    event.Whole disk pending ↔ event.Whole disk' pending := by
  unfold Event.Whole
  simp only [taken_eq same]

structure Keeping (opened : Opened) (events : List Event) (last : Stream) : Prop where
  ran : Ran opened events last
  writable : last.disk.writable = opened.stream.disk.writable
  conserved : last.accepted ++ unflushed events = written events

theorem accepted_opened (opened : Opened) : opened.stream.accepted = [] := by
  obtain ⟨flag, disk, fd, -, -, -, stream⟩ := opened.stream_eq
  rw [stream]

theorem keeping_nil (opened : Opened) : Keeping opened [] opened.stream where
  ran := ran_nil opened
  writable := rfl
  conserved := by
    rw [accepted_opened]
    rfl

/-- The call has its result, and nothing is lost exactly if the kernel takes all. -/
theorem Keeping.concat {middle : Stream} (keeping : Keeping opened front middle)
    (nonempty : event.call.Nonempty (unflushed front))
    (within : event.call.Within (unflushed front)) :
    ∃ last, Ran opened (front ++ [event]) last ∧
      last.disk.writable = opened.stream.disk.writable ∧
      (last.accepted ++ unflushed (front ++ [event]) = written (front ++ [event]) ↔
        event.Whole opened.stream.disk (unflushed front)) := by
  obtain ⟨last, ran, stepped⟩ := keeping.ran.concat nonempty within
  have same := stepped.conserved_iff keeping.conserved
  rw [Event.whole_iff keeping.writable] at same
  refine ⟨last, ran, stepped.writable.trans keeping.writable, ?_⟩
  rw [unflushed_concat, written_concat]
  exact same

def Event.Good (opened : Opened) (front : List Event) (event : Event) : Prop :=
  (event.call.Nonempty (unflushed front) ∧ event.Whole opened.stream.disk (unflushed front)) ∧
    event.call.Within (unflushed front)

theorem Keeping.concat_good {middle : Stream} (keeping : Keeping opened front middle)
    (good : event.Good opened front) : ∃ last, Keeping opened (front ++ [event]) last := by
  obtain ⟨last, ran, writable, same⟩ := keeping.concat good.1.1 good.2
  exact ⟨last, ran, writable, same.mpr good.1.2⟩

/-- Nothing is lost exactly if the kernel takes all that a flush hands to it, and no write
leaves the buffer empty. -/
theorem lossless_iff (usage : Usage) :
    Lossless usage ↔ Each (fun front event => event.call.Nonempty (unflushed front) ∧
      event.Whole usage.opened.stream.disk (unflushed front)) usage.events := by
  have within := usage.within
  have both : Each (fun front event => event.Good usage.opened front) usage.events ↔
      Each (fun front event => event.call.Nonempty (unflushed front) ∧
        event.Whole usage.opened.stream.disk (unflushed front)) usage.events :=
    each_and.trans (and_iff_left within)
  have bounded : Lossless usage ↔ Each (fun front event =>
      (∃ after, play step usage.opened.stream (front ++ [event]) = some after ∧
        Conserved after (front ++ [event])) ∧ event.call.Within (unflushed front)) usage.events :=
    (each_and.trans (and_iff_left within)).symm
  rw [bounded, ← both]
  refine each_iff (fun events => ∃ last, Keeping usage.opened events last)
    ⟨_, keeping_nil usage.opened⟩ ?_ ?_ usage.events
  · intro front event before good
    obtain ⟨middle, keeping⟩ := before
    exact keeping.concat_good good
  · intro front event before
    obtain ⟨middle, keeping⟩ := before
    constructor
    · rintro ⟨⟨after, whole, conserved⟩, fits⟩
      obtain ⟨nonempty, -⟩ := keeping.ran.fitting whole
      obtain ⟨last, ran, -, same⟩ := keeping.concat nonempty fits
      cases whole.symm.trans ran.ran
      exact ⟨⟨nonempty, same.mp (ran.conserved_iff.mp conserved)⟩, fits⟩
    · intro good
      obtain ⟨last, keeping'⟩ := keeping.concat_good good
      exact ⟨⟨last, keeping'.ran.ran, keeping'.ran.conserved_iff.mpr keeping'.conserved⟩, good.2⟩

def oneLine : Event := ⟨.fwrite (ascii "a\n"), .takes 0⟩

theorem oneLine_within : oneLine.call.Within [] := show 2 ≤ 1024 by decide

/-- One line, and a disk that is full. -/
def fullDisk : Usage where
  opened := newFile
  events := [oneLine]
  within := each_concat.mpr ⟨each_nil, oneLine_within⟩

theorem fullDisk_loses : ¬ Lossless fullDisk := by
  intro lossless
  obtain ⟨after, ran, conserved⟩ := lossless [] oneLine [] rfl
  have some_byte : oneLine.call.Nonempty (unflushed []) := List.cons_ne_nil _ _
  obtain ⟨last, ran', -, same⟩ := (keeping_nil newFile).concat some_byte oneLine_within
  cases ran.symm.trans ran'.ran
  have taken := same.mp (ran'.conserved_iff.mp conserved) (ascii "a\n") rfl
  cases taken

/-! ## The file behind `MyFclose` -/

def accepting : Verdict := .takes maxBuffer

def taking (calls : List Call) : List Event := calls.map fun call => ⟨call, accepting⟩

/-- A file opened for writing or appending, and calls for which the buffer is large enough. -/
structure Session where
  opened : Opened
  writing : opened.mode = ascii "w" ∨ opened.mode = ascii "a"
  calls : List Call
  within : Each (fun front event => event.call.Within (unflushed front)) (taking calls)

def Session.events (session : Session) : List Event := taking session.calls

def Session.old (session : Session) : Bytes := session.opened.system.content.getD []

def Session.expected (session : Session) : Bytes :=
  (if session.opened.mode = ascii "a" then session.old else []) ++ written session.events

def ContentsRight (session : Session) : Prop :=
  ∃ last after, play step session.opened.stream session.events = some last ∧
    myFclose accepting last = some after ∧ after.disk.content = session.expected

structure Truncated (opened : Opened) : Prop where
  content : opened.stream.disk.content = []
  writable : opened.stream.disk.writable = true
  atEnd : opened.stream.disk.AtEnd
  fileno : opened.system.fd = some opened.stream.file.fileno.toNat
  descriptor : 0 ≤ opened.stream.file.fileno

theorem Session.truncated (session : Session) : Truncated session.opened := by
  have flags : openFlags session.opened.mode = some ⟨true, true, true, false⟩ := by
    rcases session.writing with mode | mode <;>
    · rw [mode]
      decide
  obtain ⟨flag, disk, fd, chosen, found, free, stream⟩ := session.opened.stream_eq
  cases flags.symm.trans chosen
  have creat : (⟨true, true, true, false⟩ : OpenFlags).creat = true := rfl
  obtain ⟨disk', found', content, writable⟩ := openFile_eq creat session.opened.system.content
  cases found.symm.trans found'
  constructor
  · rw [stream]
    exact content
  · rw [stream]
    exact writable
  · rw [stream]
    exact openFile_atEnd (Or.inl rfl) found
  · rw [stream]
    exact free
  · rw [stream]
    exact Int.natCast_nonneg fd

structure OnDisk (opened : Opened) (last : Stream) : Prop where
  content : last.disk.content = last.accepted
  atEnd : last.disk.AtEnd
  fileno : last.file.fileno = opened.stream.file.fileno

theorem write_content {disk : OpenFile UInt8} (atEnd : disk.AtEnd) (verdict : Verdict)
    (bytes : Bytes) : (disk.write verdict bytes).2.content =
      disk.content ++ bytes.take ((disk.taken verdict bytes).getD 0) := by
  unfold OpenFile.write
  cases disk.taken verdict bytes with
  | none => simp
  | some count => exact OpenFile.content_put atEnd _

theorem OnDisk.stepped {middle : Stream} (onDisk : OnDisk opened middle)
    (stepped : Stepped middle event pending last) : OnDisk opened last where
  content := by
    have disk := stepped.disk
    rw [stepped.accepted, disk, ← onDisk.content]
    split
    · rw [List.append_nil]
    · exact write_content onDisk.atEnd _ _
  atEnd := by
    rw [stepped.disk]
    split
    · exact onDisk.atEnd
    · exact OpenFile.atEnd_write onDisk.atEnd _ _
  fileno := stepped.fileno.trans onDisk.fileno

theorem fitting_of_play (ran : play step opened.stream history = some last) :
    Fitting history := by
  induction history using List.reverseRecOn generalizing last with
  | nil => exact each_nil
  | append_singleton front event ih =>
      obtain ⟨middle, first, -⟩ := play_append.mp ran
      obtain ⟨middle', ran'⟩ : ∃ middle, Ran opened front middle := exists_ran (ih first)
      exact each_concat.mpr ⟨ih first, ran'.fitting ran⟩

theorem Call.flushes_length {call : Call} {bytes : Bytes} (within : call.Within pending)
    (handed : call.flushes pending = some bytes) : bytes.length ≤ maxBuffer := by
  have whole := call.flushes_append_leaves pending
  have length : ((call.flushes pending).getD [] ++ call.leaves pending).length ≤ maxBuffer := by
    rw [whole]
    exact within
  rw [handed, Option.getD_some, List.length_append] at length
  omega

theorem Event.whole_accepting {disk : OpenFile UInt8} (writable : disk.writable = true)
    (accepts : event.verdict = accepting) (within : event.call.Within pending) :
    event.Whole disk pending := by
  intro bytes handed
  have fits := Call.flushes_length within handed
  rw [accepts]
  show (if disk.writable then some (min maxBuffer bytes.length) else none) = _
  rw [if_pos writable, Nat.min_eq_right fits]

/-- All that was written is in the file or in the buffer. -/
structure Stored (session : Session) (last : Stream) : Prop where
  ran : Ran session.opened session.events last
  onDisk : OnDisk session.opened last
  writable : last.disk.writable = true
  all : last.disk.content ++ unflushed session.events = written session.events

theorem Session.exists_stored {session : Session} (fitting : Fitting session.events) :
    ∃ last, Stored session last := by
  have truncated := session.truncated
  have accepts : Each (fun _ event => event.verdict = accepting) session.events := by
    apply each_of_forall_mem
    intro event member
    obtain ⟨call, -, rfl⟩ := List.mem_map.mp member
    rfl
  have start : ∃ last, Keeping session.opened [] last ∧ OnDisk session.opened last := by
    refine ⟨_, keeping_nil session.opened, ?_, truncated.atEnd, rfl⟩
    rw [truncated.content, accepted_opened]
  have both := each_and.mpr ⟨fitting, accepts⟩
  obtain ⟨last, keeping, onDisk⟩ := both.invariant
    (fun events => ∃ last, Keeping session.opened events last ∧ OnDisk session.opened last)
    start (by
      rintro front event ⟨middle, keeping, onDisk⟩ ⟨⟨nonempty, within⟩, accepts⟩
      obtain ⟨last, ran, stepped⟩ := keeping.ran.concat nonempty within
      obtain ⟨last', ran', writable, same⟩ := keeping.concat nonempty within
      cases ran.ran.symm.trans ran'.ran
      have whole := Event.whole_accepting truncated.writable accepts within
      exact ⟨last, ⟨ran, writable, same.mpr whole⟩, onDisk.stepped stepped⟩)
  refine ⟨last, keeping.ran, onDisk, keeping.writable.trans truncated.writable, ?_⟩
  rw [onDisk.content]
  exact keeping.conserved

/-- Only with descriptor 0 something is left behind. -/
theorem Stored.myFclose {session : Session} {last : Stream} (stored : Stored session last) :
    ∃ after, myFclose accepting last = some after ∧ after.disk.content =
      if session.opened.system.fd = some 0 then last.disk.content
      else written session.events := by
  have truncated := session.truncated
  have descriptor := truncated.descriptor
  have fileno := stored.onDisk.fileno
  have zero : session.opened.system.fd = some 0 ↔ last.file.fileno ≤ 0 := by
    rw [truncated.fileno, Option.some.injEq]
    omega
  unfold MyStdio.myFclose
  by_cases closed : last.file.fileno ≤ 0
  · rw [if_pos closed, if_pos (zero.mpr closed)]
    exact ⟨last, rfl, rfl⟩
  · rw [if_neg closed, if_neg fun open_zero => closed (zero.mp open_zero)]
    refine ⟨_, myFFlush_eq stored.ran.buffered, ?_⟩
    split
    · rename_i empty
      have all := stored.all
      rw [empty, List.append_nil] at all
      exact all
    · have taken : last.disk.taken accepting (unflushed session.events) =
          some (unflushed session.events).length := by
        show (if last.disk.writable then some (min maxBuffer _) else none) = _
        rw [if_pos stored.writable, Nat.min_eq_right stored.ran.buffered.fits]
      have content := write_content stored.onDisk.atEnd accepting (unflushed session.events)
      rw [taken, Option.getD_some, List.take_length, stored.all] at content
      exact content

/-- The file is right exactly if there was nothing to append to, no write leaves the buffer
empty, and with descriptor 0 nothing is left in the buffer. -/
theorem contentsRight_iff (session : Session) :
    ContentsRight session ↔ (session.opened.mode = ascii "a" → session.old = []) ∧
      Each (fun front event => event.call.Nonempty (unflushed front)) session.events ∧
      (session.opened.system.fd = some 0 → unflushed session.events = []) := by
  have before : (if session.opened.mode = ascii "a" then session.old else []) = [] ↔
      (session.opened.mode = ascii "a" → session.old = []) := by
    split
    · rename_i appending
      exact ⟨fun empty _ => empty, fun empty => empty appending⟩
    · rename_i writing
      exact ⟨fun _ appending => absurd appending writing, fun _ => rfl⟩
  constructor
  · rintro ⟨last, after, ran, closed, content⟩
    have fitting := fitting_of_play ran
    obtain ⟨last', stored⟩ := session.exists_stored fitting
    cases ran.symm.trans stored.ran.ran
    obtain ⟨after', closed', content'⟩ := stored.myFclose
    cases closed.symm.trans closed'
    have all := congrArg List.length stored.all
    have length := congrArg List.length (content'.symm.trans content)
    rw [Session.expected, List.length_append] at length
    rw [List.length_append] at all
    refine ⟨before.mp (List.eq_nil_of_length_eq_zero ?_), (each_and.mp fitting).1, ?_⟩
    · split at length
      · omega
      · omega
    · intro zero
      rw [if_pos zero] at length
      exact List.eq_nil_of_length_eq_zero (by omega)
  · rintro ⟨empty, nonempty, left⟩
    obtain ⟨last, stored⟩ := session.exists_stored (each_and.mpr ⟨nonempty, session.within⟩)
    obtain ⟨after, closed, content⟩ := stored.myFclose
    refine ⟨last, after, stored.ran.ran, closed, ?_⟩
    rw [content, Session.expected, before.mpr empty, List.nil_append]
    split
    · rename_i zero
      have all := stored.all
      rw [left zero, List.append_nil] at all
      exact all
    · rfl

/-- A file with one byte, opened for appending and closed again. -/
def reopened : Session where
  opened :=
    { mode := ascii "a"
      system := ⟨some (ascii "x"), some 3, true⟩
      stream := ⟨buyFile 3 ⟨true, true, true, false⟩, .empty true false, []⟩
      opened := rfl }
  writing := Or.inr rfl
  calls := []
  within := each_nil

theorem reopened_truncates : ¬ ContentsRight reopened := by
  rintro ⟨last, after, ran, closed, content⟩
  cases ran
  cases closed
  exact absurd content (by decide)

end LinuxSystemLearning.MyStdio
