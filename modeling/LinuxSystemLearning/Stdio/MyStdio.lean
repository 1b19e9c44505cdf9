import LinuxSystemLearning.Cxx.Text
import LinuxSystemLearning.Library.History
import LinuxSystemLearning.Library.Interleaving
import LinuxSystemLearning.Library.OpenFile

/-!
# The stdio of its own

`MyFwrite` copies the data behind what is in the buffer, and flushes if the last byte is a
newline.  It does not look at the room that is left, and with nothing in the buffer and
nothing to copy the last byte is the one in front of the buffer.
-/

set_option autoImplicit false

namespace LinuxSystemLearning.MyStdio

open LinuxSystemLearning.Cxx
open LinuxSystemLearning.Files
open LinuxSystemLearning.History
open LinuxSystemLearning.Interleaving

/-! ## The code -/

def maxBuffer : Nat := 1024

def lineFlush : Nat := 2

def newline : UInt8 := 10

structure OutBuffer where
  bytes : Bytes
  size : bytes.length = maxBuffer

structure MyFile where
  flag : OpenFlags
  outbuffer : OutBuffer
  bufferlen : Int
  fileno : Int
  fushMethod : Nat

/-- The file, and what the kernel has of it. -/
structure Stream where
  file : MyFile
  disk : OpenFile UInt8
  /-- What `write` took, one result behind the other. -/
  accepted : Bytes

/-- What the calls of `MyFopen` meet: the file, the descriptor that is free, the memory. -/
structure System where
  content : Option Bytes
  fd : Option Nat
  memory : Bool

def buyFile (fd : Nat) (flag : OpenFlags) : MyFile where
  flag := flag
  outbuffer := ⟨List.replicate maxBuffer 0, List.length_replicate⟩
  bufferlen := 0
  fileno := fd
  fushMethod := lineFlush

/-- The flags of a mode, those for "a" are the ones for "w". -/
def openFlags (mode : Bytes) : Option OpenFlags :=
  if mode = ascii "w" then some ⟨true, true, true, false⟩
  else if mode = ascii "a" then some ⟨true, true, true, false⟩
  else if mode = ascii "r" then some ⟨false, false, false, false⟩
  else none

def myFopen (mode : Bytes) (system : System) : Option Stream := do
  let flag ← openFlags mode
  let disk ← openFile flag system.content
  let fd ← system.fd
  if system.memory then some ⟨buyFile fd flag, disk, []⟩ else none

def OutBuffer.char (buffer : OutBuffer) (i : Int) : Option UInt8 :=
  if 0 ≤ i then buffer.bytes[i.toNat]? else none

/-- The bytes that `write(fileno, outbuffer, len)` reads. -/
def OutBuffer.read (buffer : OutBuffer) (len : Int) : Option Bytes :=
  if 0 ≤ len ∧ len ≤ maxBuffer then some (buffer.bytes.take len.toNat) else none

def OutBuffer.memcpy (buffer : OutBuffer) (pos : Int) (str : Bytes) : Option OutBuffer :=
  if room : 0 ≤ pos ∧ pos + str.length ≤ maxBuffer then
    some
      { bytes := buffer.bytes.take pos.toNat ++ str ++ buffer.bytes.drop (pos.toNat + str.length)
        size := by
          have size := buffer.size
          simp only [List.length_append, List.length_take, List.length_drop]
          omega }
  else none

/-- The result of `write` is not looked at. -/
def myFFlush (verdict : Verdict) (st : Stream) : Option Stream :=
  if st.file.bufferlen ≤ 0 then some st
  else do
    let bytes ← st.file.outbuffer.read st.file.bufferlen
    let (n, disk) := st.disk.write verdict bytes
    some
      { file := { st.file with bufferlen := 0 }
        disk := disk
        accepted := st.accepted ++ bytes.take (n.getD 0) }

def myFwrite (str : Bytes) (verdict : Verdict) (st : Stream) : Option Stream := do
  let outbuffer ← st.file.outbuffer.memcpy st.file.bufferlen str
  let file := { st.file with
    outbuffer := outbuffer
    bufferlen := st.file.bufferlen + str.length }
  if file.fushMethod &&& lineFlush ≠ 0 then
    if (← outbuffer.char (file.bufferlen - 1)) = newline then
      myFFlush verdict { st with file := file }
    else some { st with file := file }
  else some { st with file := file }

/-- With descriptor 0 it returns at once. -/
def myFclose (verdict : Verdict) (st : Stream) : Option Stream :=
  if st.file.fileno ≤ 0 then some st else myFFlush verdict st

/-! ## Runs -/

inductive Call where
  | fwrite (str : Bytes)
  | fflush

/-- A call, and what the kernel does if it comes to a `write`. -/
structure Event where
  call : Call
  verdict : Verdict

def step (st : Stream) (event : Event) : Option Stream :=
  match event.call with
  | .fwrite str => myFwrite str event.verdict st
  | .fflush => myFFlush event.verdict st

def Call.data : Call → Bytes
  | .fwrite str => str
  | .fflush => []

def written (events : List Event) : Bytes := events.flatMap (·.call.data)

/-- What a call hands to `write` when `pending` is in the buffer. -/
def Call.flushes (pending : Bytes) : Call → Option Bytes
  | .fwrite str => if (pending ++ str).getLast? = some newline then some (pending ++ str) else none
  | .fflush => if pending = [] then none else some pending

def Call.leaves (pending : Bytes) (call : Call) : Bytes :=
  if (call.flushes pending).isSome then [] else pending ++ call.data

def unflushed (events : List Event) : Bytes :=
  events.foldl (fun pending event => event.call.leaves pending) []

/-- There is something in the buffer behind the copying. -/
def Call.Nonempty (pending : Bytes) : Call → Prop
  | .fwrite str => pending ++ str ≠ []
  | .fflush => True

def Call.Within (pending : Bytes) (call : Call) : Prop :=
  (pending ++ call.data).length ≤ maxBuffer

structure Opened where
  mode : Bytes
  system : System
  stream : Stream
  opened : myFopen mode system = some stream

/-- Behind every call the fill level is in its range, and no call left the buffer. -/
def Inside (opened : Opened) (events : List Event) : Prop :=
  Each (fun front event => ∃ after, play step opened.stream (front ++ [event]) = some after ∧
    0 ≤ after.file.bufferlen ∧ after.file.bufferlen ≤ maxBuffer) events

/-- Every write puts one byte at least into the buffer and finds the room for all. -/
def Fitting (events : List Event) : Prop :=
  Each (fun front event => event.call.Nonempty (unflushed front) ∧
    event.call.Within (unflushed front)) events

/-! ## The buffer -/

structure Buffered (st : Stream) (pending : Bytes) : Prop where
  len : st.file.bufferlen = pending.length
  front : pending <+: st.file.outbuffer.bytes
  method : st.file.fushMethod = lineFlush

variable {st after : Stream} {pending str : Bytes} {verdict : Verdict}

theorem Buffered.fits (buffered : Buffered st pending) : pending.length ≤ maxBuffer := by
  have bound := buffered.front.length_le
  rw [st.file.outbuffer.size] at bound
  exact bound

theorem Buffered.take (buffered : Buffered st pending) :
    st.file.outbuffer.bytes.take pending.length = pending :=
  (List.prefix_iff_eq_take.mp buffered.front).symm

theorem unflushed_concat (front : List Event) (event : Event) :
    unflushed (front ++ [event]) = event.call.leaves (unflushed front) := by
  simp [unflushed]

theorem written_concat (front : List Event) (event : Event) :
    written (front ++ [event]) = written front ++ event.call.data := by
  simp [written]

/-- What was in the buffer or is written now is flushed or stays. -/
theorem Call.flushes_append_leaves (pending : Bytes) (call : Call) :
    (call.flushes pending).getD [] ++ call.leaves pending = pending ++ call.data := by
  unfold Call.leaves
  cases flushed : call.flushes pending with
  | none => simp
  | some bytes =>
      cases call with
      | fwrite str =>
          simp only [Call.flushes] at flushed
          split at flushed
          · cases flushed
            simp [Call.data]
          · cases flushed
      | fflush =>
          simp only [Call.flushes] at flushed
          split at flushed
          · cases flushed
          · cases flushed
            simp [Call.data]

def flushed (verdict : Verdict) (st : Stream) (bytes : Bytes) : Stream :=
  let (n, disk) := st.disk.write verdict bytes
  { file := { st.file with bufferlen := 0 }
    disk := disk
    accepted := st.accepted ++ bytes.take (n.getD 0) }

theorem buffered_flushed (buffered : Buffered st pending) (bytes : Bytes) :
    Buffered (flushed verdict st bytes) [] where
  len := rfl
  front := List.nil_prefix
  method := buffered.method

theorem myFFlush_eq (buffered : Buffered st pending) :
    myFFlush verdict st = some (if pending = [] then st else flushed verdict st pending) := by
  unfold myFFlush
  by_cases empty : pending = []
  · have len := buffered.len
    rw [empty] at len
    rw [if_pos (by rw [len]; exact Int.le_refl 0), if_pos empty]
  · have positive := List.length_pos_of_ne_nil empty
    have fits := buffered.fits
    have len := buffered.len
    have some_bytes : ¬ st.file.bufferlen ≤ 0 := by omega
    have read : st.file.outbuffer.read st.file.bufferlen = some pending := by
      have range : 0 ≤ st.file.bufferlen ∧ st.file.bufferlen ≤ maxBuffer := by omega
      rw [OutBuffer.read, if_pos range, len, Int.toNat_natCast, buffered.take]
    rw [if_neg some_bytes, if_neg empty, read]
    rfl

theorem memcpy_eq (buffered : Buffered st pending) (room : (pending ++ str).length ≤ maxBuffer) :
    ∃ outbuffer, st.file.outbuffer.memcpy st.file.bufferlen str = some outbuffer ∧
      pending ++ str <+: outbuffer.bytes := by
  have len := buffered.len
  rw [List.length_append] at room
  have range : 0 ≤ st.file.bufferlen ∧ st.file.bufferlen + str.length ≤ maxBuffer := by omega
  refine ⟨_, dif_pos range, ?_⟩
  show _ <+: st.file.outbuffer.bytes.take st.file.bufferlen.toNat ++ str ++ _
  rw [len, Int.toNat_natCast, buffered.take]
  exact List.prefix_append _ _

theorem memcpy_outside (buffered : Buffered st pending)
    (more : ¬ (pending ++ str).length ≤ maxBuffer) :
    st.file.outbuffer.memcpy st.file.bufferlen str = none := by
  have len := buffered.len
  rw [List.length_append] at more
  exact dif_neg fun range => more (by omega)

theorem char_last {outbuffer : OutBuffer} {text : Bytes} (front : text <+: outbuffer.bytes)
    (nonempty : text ≠ []) : outbuffer.char ((text.length : Int) - 1) = text.getLast? := by
  have positive := List.length_pos_of_ne_nil nonempty
  have index : ((text.length : Int) - 1).toNat = text.length - 1 := by omega
  have inside : text.length - 1 < text.length := by omega
  obtain ⟨rest, whole⟩ := front
  rw [OutBuffer.char, if_pos (by omega), index, ← whole, List.getElem?_append_left inside,
    List.getLast?_eq_getElem?]

/-! ## One call -/

structure Stepped (st : Stream) (event : Event) (pending : Bytes) (after : Stream) : Prop where
  buffered : Buffered after (event.call.leaves pending)
  fileno : after.file.fileno = st.file.fileno
  disk : after.disk = match event.call.flushes pending with
    | none => st.disk
    | some bytes => (st.disk.write event.verdict bytes).2
  accepted : after.accepted = st.accepted ++ match event.call.flushes pending with
    | none => []
    | some bytes => bytes.take ((st.disk.taken event.verdict bytes).getD 0)

theorem write_fst (disk : OpenFile UInt8) (verdict : Verdict) (bytes : Bytes) :
    (disk.write verdict bytes).1 = disk.taken verdict bytes := by
  unfold OpenFile.write
  split
  · rename_i none
    exact none.symm
  · rename_i some
    exact some.symm

theorem stepped_flushed {event : Event} {middle : Stream} (buffered : Buffered middle pending)
    {earlier bytes : Bytes} (handed : event.call.flushes earlier = some bytes)
    (fileno : middle.file.fileno = st.file.fileno) (disk : middle.disk = st.disk)
    (accepted : middle.accepted = st.accepted) :
    Stepped st event earlier (flushed event.verdict middle bytes) where
  buffered := by
    rw [Call.leaves, handed]
    exact buffered_flushed buffered bytes
  fileno := fileno
  disk := by
    rw [handed, ← disk]
    rfl
  accepted := by
    rw [handed, ← disk, ← accepted]
    exact congrArg (fun n => middle.accepted ++ bytes.take (n.getD 0)) (write_fst _ _ _)

theorem stepped_kept {event : Event} (handed : event.call.flushes pending = none)
    (buffered : Buffered after (pending ++ event.call.data))
    (fileno : after.file.fileno = st.file.fileno) (disk : after.disk = st.disk)
    (accepted : after.accepted = st.accepted) : Stepped st event pending after where
  buffered := by
    rw [Call.leaves, handed]
    exact buffered
  fileno := fileno
  disk := by
    rw [handed]
    exact disk
  accepted := by
    rw [handed, List.append_nil]
    exact accepted

theorem Buffered.flushes_lines (buffered : Buffered st pending) :
    st.file.fushMethod &&& lineFlush ≠ 0 := by
  rw [buffered.method]
  decide

theorem myFwrite_eq (buffered : Buffered st pending) (nonempty : pending ++ str ≠ [])
    (within : (pending ++ str).length ≤ maxBuffer) :
    ∃ after, myFwrite str verdict st = some after ∧
      Stepped st ⟨.fwrite str, verdict⟩ pending after := by
  obtain ⟨outbuffer, copied, front⟩ := memcpy_eq buffered within
  have middle : Buffered { st with file := { st.file with
      outbuffer := outbuffer
      bufferlen := st.file.bufferlen + str.length } } (pending ++ str) := by
    refine ⟨?_, front, buffered.method⟩
    show st.file.bufferlen + str.length = _
    rw [buffered.len, List.length_append, Int.natCast_add]
  obtain ⟨byte, ends⟩ : ∃ byte, (pending ++ str).getLast? = some byte :=
    ⟨_, List.getLast?_eq_some_getLast nonempty⟩
  have last : outbuffer.char (st.file.bufferlen + str.length - 1) = some byte := by
    rw [← ends, ← char_last front nonempty, ← middle.len]
  simp only [myFwrite, copied, Option.bind_eq_bind, Option.bind_some,
    if_pos buffered.flushes_lines, last]
  by_cases newline_last : byte = newline
  · have handed : (Call.fwrite str).flushes pending = some (pending ++ str) := by
      rw [Call.flushes, ends, newline_last, if_pos rfl]
    rw [if_pos newline_last, myFFlush_eq middle, if_neg nonempty]
    exact ⟨_, rfl, stepped_flushed middle handed rfl rfl rfl⟩
  · have handed : (Call.fwrite str).flushes pending = none := by
      rw [Call.flushes, ends, if_neg fun same => newline_last (Option.some.inj same)]
    rw [if_neg newline_last]
    exact ⟨_, rfl, stepped_kept handed middle rfl rfl rfl⟩

/-- `outbuffer[-1]` is read, or the data does not fit. -/
theorem myFwrite_outside (buffered : Buffered st pending)
    (unfit : ¬ (pending ++ str ≠ [] ∧ (pending ++ str).length ≤ maxBuffer)) :
    myFwrite str verdict st = none := by
  by_cases within : (pending ++ str).length ≤ maxBuffer
  · have empty : pending ++ str = [] := by
      by_contra nonempty
      exact unfit ⟨nonempty, within⟩
    obtain ⟨rfl, rfl⟩ := List.append_eq_nil_iff.mp empty
    obtain ⟨outbuffer, copied, -⟩ := memcpy_eq buffered within
    have len : st.file.bufferlen = 0 := buffered.len
    have before : outbuffer.char (st.file.bufferlen + ([] : Bytes).length - 1) = none := by
      rw [len]
      rfl
    simp only [myFwrite, copied, Option.bind_eq_bind, Option.bind_some,
      if_pos buffered.flushes_lines, before, Option.bind_none]
  · simp only [myFwrite, memcpy_outside buffered within, Option.bind_eq_bind, Option.bind_none]

theorem step_eq {event : Event} (buffered : Buffered st pending)
    (nonempty : event.call.Nonempty pending) (within : event.call.Within pending) :
    ∃ after, step st event = some after ∧ Stepped st event pending after := by
  obtain ⟨call, verdict⟩ := event
  cases call with
  | fwrite str => exact myFwrite_eq buffered nonempty within
  | fflush =>
      refine ⟨_, myFFlush_eq buffered, ?_⟩
      by_cases empty : pending = []
      · have handed : Call.fflush.flushes pending = none := if_pos empty
        have same : Buffered st (pending ++ []) := by
          rw [List.append_nil]
          exact buffered
        rw [if_pos empty]
        exact stepped_kept handed same rfl rfl rfl
      · have handed : Call.fflush.flushes pending = some pending := if_neg empty
        rw [if_neg empty]
        exact stepped_flushed buffered handed rfl rfl rfl

theorem step_none {event : Event} (buffered : Buffered st pending)
    (unfit : ¬ (event.call.Nonempty pending ∧ event.call.Within pending)) :
    step st event = none := by
  obtain ⟨call, verdict⟩ := event
  cases call with
  | fwrite str => exact myFwrite_outside buffered unfit
  | fflush =>
      refine absurd ⟨trivial, ?_⟩ unfit
      show (pending ++ []).length ≤ maxBuffer
      rw [List.append_nil]
      exact buffered.fits

/-! ## Every call -/

theorem Opened.stream_eq (opened : Opened) : ∃ flag disk fd,
    openFlags opened.mode = some flag ∧ openFile flag opened.system.content = some disk ∧
      opened.system.fd = some fd ∧ opened.stream = ⟨buyFile fd flag, disk, []⟩ := by
  have ran := opened.opened
  obtain ⟨flag, chosen, ran⟩ := Option.bind_eq_some_iff.mp ran
  obtain ⟨disk, found, ran⟩ := Option.bind_eq_some_iff.mp ran
  obtain ⟨fd, free, ran⟩ := Option.bind_eq_some_iff.mp ran
  split at ran
  · exact ⟨flag, disk, fd, chosen, found, free, (Option.some.inj ran).symm⟩
  · cases ran

theorem buffered_opened (opened : Opened) : Buffered opened.stream [] := by
  obtain ⟨flag, disk, fd, -, -, -, stream⟩ := opened.stream_eq
  rw [stream]
  exact ⟨rfl, List.nil_prefix, rfl⟩

/-- The calls had a result, and the buffer holds what they left in it. -/
structure Ran (opened : Opened) (events : List Event) (last : Stream) : Prop where
  ran : play step opened.stream events = some last
  buffered : Buffered last (unflushed events)

theorem ran_nil (opened : Opened) : Ran opened [] opened.stream := ⟨rfl, buffered_opened opened⟩

theorem play_concat {start middle last : Stream} {front : List Event} {event : Event}
    (ran : play step start front = some middle) :
    play step start (front ++ [event]) = some last ↔ step middle event = some last := by
  constructor
  · intro whole
    obtain ⟨middle', ran', behind⟩ := play_append.mp whole
    obtain ⟨last', stepped, rest⟩ := play_cons.mp behind
    cases ran.symm.trans ran'
    cases rest
    exact stepped
  · intro stepped
    exact play_append.mpr ⟨middle, ran, play_cons.mpr ⟨last, stepped, rfl⟩⟩

variable {opened : Opened} {front : List Event} {event : Event}

theorem Ran.concat {middle : Stream} (ran : Ran opened front middle)
    (nonempty : event.call.Nonempty (unflushed front))
    (within : event.call.Within (unflushed front)) :
    ∃ last, Ran opened (front ++ [event]) last ∧
      Stepped middle event (unflushed front) last := by
  obtain ⟨last, stepped, spec⟩ := step_eq ran.buffered nonempty within
  refine ⟨last, ⟨(play_concat ran.ran).mpr stepped, ?_⟩, spec⟩
  rw [unflushed_concat]
  exact spec.buffered

theorem Ran.fitting {middle last : Stream} (ran : Ran opened front middle)
    (whole : play step opened.stream (front ++ [event]) = some last) :
    event.call.Nonempty (unflushed front) ∧ event.call.Within (unflushed front) := by
  by_contra unfit
  rw [play_concat ran.ran, step_none ran.buffered unfit] at whole
  cases whole

theorem exists_ran {events : List Event} (fitting : Fitting events) :
    ∃ last, Ran opened events last := by
  refine fitting.invariant (fun events => ∃ last, Ran opened events last)
    ⟨opened.stream, ran_nil opened⟩ ?_
  intro front event before fits
  obtain ⟨middle, ran⟩ := before
  obtain ⟨last, ran', -⟩ := ran.concat fits.1 fits.2
  exact ⟨last, ran'⟩

/-- The calls stay inside the buffer exactly if every write finds the room for its data and
leaves something in the buffer. -/
theorem inside_iff (opened : Opened) (events : List Event) :
    Inside opened events ↔ Fitting events := by
  refine each_iff (fun events => ∃ last, Ran opened events last)
    ⟨opened.stream, ran_nil opened⟩ ?_ ?_ events
  · intro front event before fits
    obtain ⟨middle, ran⟩ := before
    obtain ⟨last, ran', -⟩ := ran.concat fits.1 fits.2
    exact ⟨last, ran'⟩
  · intro front event before
    obtain ⟨middle, ran⟩ := before
    constructor
    · rintro ⟨after, whole, -⟩
      exact ran.fitting whole
    · intro fits
      obtain ⟨last, ran', -⟩ := ran.concat fits.1 fits.2
      have len := ran'.buffered.len
      have bound := ran'.buffered.fits
      exact ⟨last, ran'.ran, by omega, by omega⟩

def newFile : Opened where
  mode := ascii "w"
  system := ⟨none, some 3, true⟩
  stream := ⟨buyFile 3 ⟨true, true, true, false⟩, .empty true false, []⟩
  opened := rfl

/-- Nothing is written to an empty buffer. -/
theorem nothing_reads_in_front : ¬ Inside newFile [⟨.fwrite [], .fails⟩] := by
  intro inside
  obtain ⟨after, ran, -⟩ := inside [] _ [] rfl
  have outside : step newFile.stream ⟨.fwrite [], .fails⟩ = none := by
    refine myFwrite_outside (buffered_opened newFile) ?_
    exact fun fits => fits.1 rfl
  have start : play step newFile.stream [] = some newFile.stream := rfl
  rw [play_concat start, outside] at ran
  cases ran

end LinuxSystemLearning.MyStdio
