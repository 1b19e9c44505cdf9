import LinuxSystemLearning.Cxx.Text
import LinuxSystemLearning.Library.Filling
import LinuxSystemLearning.Library.Interleaving

/-!
# Shared memory between clients and a server

Any number of clients write the letters into one segment, a byte with each step, while the
server goes through it with `printf("%s\n", mem)`, a byte with each step as well.  A process
can end anywhere, also between its `shmget` and its `shmat`.  The segments stay in the kernel
when the processes are gone: `Destroy` stands behind a loop that is never left.
-/

set_option autoImplicit false

namespace LinuxSystemLearning.SharedMemory

open LinuxSystemLearning.Cxx
open LinuxSystemLearning.Filling
open LinuxSystemLearning.Interleaving

/-! ## The kernel -/

structure Segment where
  key : Int
  mode : Nat
  mem : Bytes

structure ShmFlg where
  creat : Bool
  excl : Bool
  mode : Nat

/-- A new segment is zero; `shmid` is its place in the list. -/
def shmget (key : Int) (size : Nat) (shmflg : ShmFlg) (segments : List Segment) :
    Option (Nat × List Segment) :=
  match segments.findIdx? (fun segment => segment.key = key) with
  | some shmid => if shmflg.creat && shmflg.excl then none else some (shmid, segments)
  | none =>
      if shmflg.creat then
        some (segments.length, segments ++ [⟨key, shmflg.mode, List.replicate size 0⟩])
      else none

/-- Who asks for a segment, by the bits of the mode that count for it. -/
inductive Caller where
  | privileged
  | owner
  | group
  | other
  deriving DecidableEq

def Caller.readWrite : Caller → Nat
  | .privileged => 0
  | .owner => 0o600
  | .group => 0o060
  | .other => 0o006

/-- `shmat` without `SHM_RDONLY`. -/
def shmat (caller : Caller) (segment : Segment) : Bool :=
  segment.mode &&& caller.readWrite = caller.readWrite

/-! ## `Shm` -/

def gsize : Nat := 4096
def gmode : Nat := 0o666

inductive Usertype where
  | creater
  | user
  deriving DecidableEq

def Usertype.shmflg : Usertype → ShmFlg
  | .creater => ⟨true, true, gmode⟩
  | .user => ⟨true, false, 0⟩

/-- What an object has behind its `shmget`, and who made it. -/
structure Shm where
  usertype : Usertype
  caller : Caller
  shmid : Nat

/-- The constructor in front of `Attach`; without a result it left through `ERR_EXIT`. -/
def construct (usertype : Usertype) (key : Int) (segments : List Segment) :
    Option (Nat × List Segment) :=
  if key < 0 then none else shmget key gsize usertype.shmflg segments

/-! ## Client and server -/

/-- What a process is about to do: attach the segment, write the letter `c`, or go on behind
the part of the line that `printf` has taken so far. -/
inductive Task where
  | attach
  | write (c : Nat)
  | print (line : Bytes)
  | gone

/-- `attached` says that `shmat` gave the process the memory, `shown` are the lines it has
printed. -/
structure Process where
  shm : Shm
  task : Task
  attached : Bool
  shown : List Bytes

structure State where
  segments : List Segment
  processes : List Process

def start : State := ⟨[], []⟩

/-- `key` is what `ftok` gives, negative if it fails.  With `refuse` the kernel has no room for
what `shmat` asks. -/
inductive Event where
  | start (usertype : Usertype) (key : Int) (caller : Caller)
  | run (i : Nat)
  | refuse (i : Nat)
  | kill (i : Nat)

def Usertype.firstTask : Usertype → Task
  | .creater => .print []
  | .user => .write 'A'.toNat

def begin (usertype : Usertype) (key : Int) (caller : Caller) (st : State) : State :=
  match construct usertype key st.segments with
  | none => st
  | some (shmid, segments) => {
      segments := segments
      processes := st.processes ++ [⟨⟨usertype, caller, shmid⟩, .attach, false, []⟩] }

/-- `Attach`, from where `main` goes on or `ERR_EXIT` leaves. -/
def attach (segment : Segment) (process : Process) : Process :=
  if shmat process.shm.caller segment then
    { process with task := process.shm.usertype.firstTask, attached := true }
  else { process with task := .gone }

/-- `Attach`, one access to the memory, or the return from `main`.  Outside the memory an
access is undefined. -/
def work (segment : Segment) (process : Process) : Option (Bytes × Process) :=
  match process.task with
  | .attach => some (segment.mem, attach segment process)
  | .write c =>
      if c ≤ 'Z'.toNat then
        if c - 'A'.toNat < segment.mem.length then
          some (segment.mem.set (c - 'A'.toNat) c.toUInt8, { process with task := .write (c + 1) })
        else none
      else some (segment.mem, { process with task := .gone })
  | .print line =>
      match segment.mem[line.length]? with
      | none => none
      | some byte =>
          if byte = 0 then
            some (segment.mem,
              { process with task := .print [], shown := process.shown ++ [line] })
          else some (segment.mem, { process with task := .print (line ++ [byte]) })
  | .gone => none

def run (i : Nat) (st : State) : Option State := do
  let process ← st.processes[i]?
  let segment ← st.segments[process.shm.shmid]?
  let (mem, after) ← work segment process
  some {
    segments := st.segments.set process.shm.shmid { segment with mem := mem }
    processes := st.processes.set i after }

def refuse (i : Nat) (st : State) : Option State := do
  let process ← st.processes[i]?
  match process.task with
  | .attach => some { st with processes := st.processes.set i { process with task := .gone } }
  | _ => none

def kill (i : Nat) (st : State) : Option State := do
  let process ← st.processes[i]?
  some { st with processes := st.processes.set i { process with task := .gone } }

def step (st : State) : Event → Option State
  | .start usertype key caller => some (begin usertype key caller st)
  | .run i => run i st
  | .refuse i => refuse i st
  | .kill i => kill i st

/-! ## The letters -/

def letters : Bytes := ascii "ABCDEFGHIJKLMNOPQRSTUVWXYZ"

theorem nul_not_letter : (0 : UInt8) ∉ letters := by decide

theorem length_letters : letters.length = 26 := rfl

theorem getElem?_letters : ∀ k < 26, letters[k]? = some (k + 'A'.toNat).toUInt8 := by decide

def memory (count : Nat) : Bytes := filled letters 0 gsize count

theorem letters_fit : letters.length < gsize := by
  rw [length_letters, gsize]
  omega

theorem length_memory {count : Nat} (within : count ≤ letters.length) :
    (memory count).length = gsize :=
  length_filled within (Nat.le_of_lt letters_fit)

theorem cString_memory {count : Nat} (within : count ≤ letters.length) :
    cString (memory count) = letters.take count := by
  have room : gsize - count = gsize - count - 1 + 1 := by
    have fits := letters_fit
    omega
  rw [memory, filled, room, List.replicate_succ]
  exact cString_append fun member => nul_not_letter (List.mem_of_mem_take member)

/-! ## What a process has done -/

/-- A process on a memory with `count` letters: a client is not behind their end, and the
lines of a server are fronts of the letters, each of them a front of the next. -/
structure Fits (count : Nat) (process : Process) : Prop where
  writes : ∀ c, process.task = .write c → 'A'.toNat ≤ c ∧ c ≤ 'A'.toNat + count
  prints : ∀ line, process.task = .print line → Scanned letters count line
  grows : process.shown.Pairwise (· <+: ·)
  shown : ∀ line ∈ process.shown, line <+: letters.take count

variable {count more : Nat} {process after : Process} {segment : Segment} {mem' : Bytes}

theorem Fits.mono (fits : Fits count process) (grown : count ≤ more) : Fits more process where
  writes c task := by
    have bounds := fits.writes c task
    omega
  prints line task := (fits.prints line task).mono grown
  grows := fits.grows
  shown line member := (fits.shown line member).trans (List.take_prefix_take_left grown)

theorem Fits.gone (fits : Fits count process) : Fits count { process with task := .gone } where
  writes _ task := by cases task
  prints _ task := by cases task
  grows := fits.grows
  shown := fits.shown

theorem Fits.attach (fits : Fits count process) (segment : Segment) :
    Fits count (attach segment process) := by
  unfold SharedMemory.attach
  split
  · refine ⟨?_, ?_, fits.grows, fits.shown⟩
    · intro c task
      cases first : process.shm.usertype with
      | creater =>
          rw [first] at task
          cases task
      | user =>
          rw [first] at task
          cases task
          omega
    · intro line task
      cases first : process.shm.usertype with
      | creater =>
          rw [first] at task
          cases task
          exact Scanned.nil
      | user =>
          rw [first] at task
          cases task
  · exact fits.gone

theorem fits_new (count : Nat) (shm : Shm) : Fits count ⟨shm, .attach, false, []⟩ where
  writes _ task := by cases task
  prints _ task := by cases task
  grows := .nil
  shown _ member := absurd member List.not_mem_nil

theorem shm_attach (segment : Segment) (process : Process) :
    (attach segment process).shm = process.shm ∧
      (attach segment process).shown = process.shown := by
  unfold attach
  split
  · exact ⟨rfl, rfl⟩
  · exact ⟨rfl, rfl⟩

theorem attached_attach (attached : (attach segment process).attached = true) :
    process.attached = true ∨ shmat process.shm.caller segment = true := by
  unfold attach at attached
  split at attached
  · rename_i may
    exact .inr may
  · exact .inl attached

structure Worked (count : Nat) (segment : Segment) (process : Process) (mem' : Bytes)
    (after : Process) : Prop where
  memory : ∃ more, count ≤ more ∧ more ≤ letters.length ∧ mem' = memory more ∧ Fits more after
  same : after.shm = process.shm
  attached : after.attached = true →
    process.attached = true ∨ shmat process.shm.caller segment = true
  shown : after.shown = process.shown ∨
    after.shown = process.shown ++ [letters.take count]

theorem Fits.work (fits : Fits count process) (within : count ≤ letters.length)
    (holds : segment.mem = memory count) (up : process.task ≠ .gone) :
    ∃ mem' after, work segment process = some (mem', after) ∧
      Worked count segment process mem' after := by
  cases doing : process.task with
  | gone => exact absurd doing up
  | attach =>
      refine ⟨memory count, SharedMemory.attach segment process, ?_,
        ⟨count, Nat.le_refl _, within, rfl, fits.attach segment⟩,
        (shm_attach segment process).1, attached_attach, .inl (shm_attach segment process).2⟩
      rw [SharedMemory.work, doing, holds]
  | write c =>
      obtain ⟨least, most⟩ := fits.writes c doing
      by_cases letter : c ≤ 'Z'.toNat
      · have inside : c - 'A'.toNat < letters.length := by
          rw [length_letters]
          have last : 'Z'.toNat = 'A'.toNat + 25 := rfl
          omega
        have inMemory : c - 'A'.toNat < (memory count).length := by
          rw [length_memory within]
          exact inside.trans letters_fit
        have here : letters[c - 'A'.toNat]? = some c.toUInt8 := by
          rw [getElem?_letters _ inside, Nat.sub_add_cancel least]
        obtain ⟨more, written, grown, still, further⟩ :=
          exists_set_filled (Nat.le_of_lt letters_fit) within
            (Nat.sub_le_iff_le_add'.mpr most) here
        refine ⟨(memory count).set (c - 'A'.toNat) c.toUInt8,
          { process with task := .write (c + 1) }, ?_,
          ⟨more, grown, still, written, ?_⟩, rfl, .inl, .inl rfl⟩
        · rw [SharedMemory.work, doing, holds]
          dsimp only
          rw [if_pos letter, if_pos inMemory]
        · have mono := fits.mono grown
          refine ⟨?_, (fun _ task => by cases task), mono.grows, mono.shown⟩
          intro next task
          cases task
          omega
      · refine ⟨memory count, { process with task := .gone }, ?_,
          ⟨count, Nat.le_refl _, within, rfl, fits.gone⟩, rfl, .inl, .inl rfl⟩
        rw [SharedMemory.work, doing, holds]
        dsimp only
        rw [if_neg letter]
  | print line =>
      have scanned := fits.prints line doing
      obtain ⟨byte, found, cases⟩ := scanned.next letters_fit within nul_not_letter
      rcases cases with ⟨nul, whole⟩ | ⟨letter, scanned'⟩
      · refine ⟨memory count, { process with task := .print [], shown := process.shown ++ [line] },
          ?_, ⟨count, Nat.le_refl _, within, rfl, ?_⟩, rfl, .inl, .inr (by rw [whole])⟩
        · rw [SharedMemory.work, doing, holds]
          dsimp only
          rw [memory, found]
          dsimp only
          rw [if_pos nul]
        · refine ⟨(fun _ task => by cases task), ?_, ?_, ?_⟩
          · intro next task
            cases task
            exact Scanned.nil
          · rw [List.pairwise_append]
            refine ⟨fits.grows, List.pairwise_singleton _ _, ?_⟩
            intro earlier member last isLast
            rw [List.mem_singleton.mp isLast, whole]
            exact fits.shown earlier member
          · intro shown member
            rcases List.mem_append.mp member with earlier | last
            · exact fits.shown shown earlier
            · rw [List.mem_singleton.mp last, whole]
      · refine ⟨memory count, { process with task := .print (line ++ [byte]) }, ?_,
          ⟨count, Nat.le_refl _, within, rfl, ?_⟩, rfl, .inl, .inl rfl⟩
        · rw [SharedMemory.work, doing, holds]
          dsimp only
          rw [memory, found]
          dsimp only
          rw [if_neg letter]
        · refine ⟨(fun _ task => by cases task), ?_, fits.grows, fits.shown⟩
          intro next task
          cases task
          exact scanned'

/-! ## The segments -/

def created (shmid : Nat) (shm : Shm) : Bool :=
  shm.usertype = .creater && shm.shmid = shmid

/-- A segment was made by the one server that came through `Create` of it, or by a client, and
then only the privileged are attached. -/
def Made (processes : List Process) (shmid : Nat) (segment : Segment) : Prop :=
  (segment.mode = gmode ∧ (processes.map Process.shm).countP (created shmid) = 1) ∨
    (segment.mode = 0 ∧ (processes.map Process.shm).countP (created shmid) = 0 ∧
      ∀ process ∈ processes, process.shm.shmid = shmid → process.attached = true →
        process.shm.caller = .privileged)

def State.shms (st : State) : List Shm := st.processes.map Process.shm

structure Inv (st : State) : Prop where
  keys : (st.segments.map Segment.key).Nodup
  made : ∀ shmid segment, st.segments[shmid]? = some segment → Made st.processes shmid segment
  texts : ∀ shmid segment, st.segments[shmid]? = some segment →
    ∃ count ≤ letters.length, segment.mem = memory count ∧
      ∀ process ∈ st.processes, process.shm.shmid = shmid → Fits count process
  inside : ∀ process ∈ st.processes, process.shm.shmid < st.segments.length

/-- What the constructor finds in front of `Attach`. -/
inductive Constructed (usertype : Usertype) (key : Int) (segments : List Segment) :
    Option (Nat × List Segment) → Prop where
  | failed : Constructed usertype key segments none
  | found (shmid : Nat) (isUser : usertype = .user) (inside : shmid < segments.length) :
      Constructed usertype key segments (some (shmid, segments))
  | made (fresh : key ∉ segments.map Segment.key) :
      Constructed usertype key segments (some (segments.length,
        segments ++ [⟨key, usertype.shmflg.mode, List.replicate gsize 0⟩]))

theorem construct_cases (usertype : Usertype) (key : Int) (segments : List Segment) :
    Constructed usertype key segments (construct usertype key segments) := by
  unfold construct
  split
  · exact .failed
  · unfold shmget
    cases found : segments.findIdx? (fun segment => segment.key = key) with
    | some shmid =>
        obtain ⟨inside, -, -⟩ := List.findIdx?_eq_some_iff_getElem.mp found
        cases usertype with
        | creater => exact .failed
        | user => exact .found shmid rfl inside
    | none =>
        have fresh : key ∉ segments.map Segment.key := by
          intro member
          obtain ⟨segment, inSegments, same⟩ := List.mem_map.mp member
          have other := List.findIdx?_eq_none_iff.mp found segment inSegments
          simp [same] at other
        have makes : usertype.shmflg.creat = true := by cases usertype <;> rfl
        simp only [makes, if_true]
        exact .made fresh

theorem privileged_of_shmat {caller : Caller} (mode : segment.mode = 0)
    (may : shmat caller segment = true) : caller = .privileged := by
  rw [shmat, mode] at may
  cases caller with
  | privileged => rfl
  | owner => cases may
  | group => cases may
  | other => cases may

variable {processes : List Process} {shmid : Nat}

theorem countP_created_fresh (inside : ∀ process ∈ processes, process.shm.shmid < shmid) :
    (processes.map Process.shm).countP (created shmid) = 0 := by
  rw [List.countP_eq_zero]
  intro shm member isCreated
  obtain ⟨process, inProcesses, rfl⟩ := List.mem_map.mp member
  have same := of_decide_eq_true (Bool.and_eq_true_iff.mp isCreated).2
  have less := inside process inProcesses
  omega

theorem countP_created_concat (processes : List Process) (shmid : Nat) (process : Process) :
    ((processes ++ [process]).map Process.shm).countP (created shmid) =
      (processes.map Process.shm).countP (created shmid) +
        if created shmid process.shm then 1 else 0 := by
  rw [List.map_append, List.countP_append, List.map_singleton, List.countP_singleton]

/-- Who comes to a segment that is there comes through `Get`. -/
theorem Made.join (made : Made processes shmid segment)
    (visits : process.shm.shmid = shmid → process.shm.usertype = .user)
    (outside : process.attached = false) : Made (processes ++ [process]) shmid segment := by
  have notCreated : created shmid process.shm = false := by
    rw [created, Bool.and_eq_false_iff]
    by_cases here : process.shm.shmid = shmid
    · rw [visits here]
      exact .inl rfl
    · exact .inr (decide_eq_false here)
  have count := countP_created_concat processes shmid process
  rw [notCreated, if_neg Bool.false_ne_true, Nat.add_zero] at count
  rcases made with ⟨mode, one⟩ | ⟨mode, nobody, privileged⟩
  · exact .inl ⟨mode, count.trans one⟩
  · refine .inr ⟨mode, count.trans nobody, ?_⟩
    intro other member here attached
    rcases List.mem_append.mp member with earlier | last
    · exact privileged other earlier here attached
    · rw [List.mem_singleton.mp last, outside] at attached
      cases attached

theorem made_new {key : Int} {usertype : Usertype} {caller : Caller} {mem : Bytes}
    (inside : ∀ process ∈ processes, process.shm.shmid < shmid) :
    Made (processes ++ [⟨⟨usertype, caller, shmid⟩, .attach, false, []⟩]) shmid
      ⟨key, usertype.shmflg.mode, mem⟩ := by
  have nobody := countP_created_fresh inside
  cases usertype with
  | creater =>
      refine .inl ⟨rfl, ?_⟩
      rw [countP_created_concat, nobody]
      simp [created]
  | user =>
      have alone : Made processes shmid ⟨key, Usertype.user.shmflg.mode, mem⟩ := by
        refine .inr ⟨rfl, nobody, ?_⟩
        intro process member here
        exact absurd here (Nat.ne_of_lt (inside process member))
      exact alone.join (fun _ => rfl) rfl

variable {st : State}

theorem Inv.join (inv : Inv st) (caller : Caller) (inside : shmid < st.segments.length) :
    Inv { st with processes :=
      st.processes ++ [⟨⟨.user, caller, shmid⟩, .attach, false, []⟩] } := by
  refine ⟨inv.keys, ?_, ?_, ?_⟩
  · intro other segment found
    exact (inv.made other segment found).join (fun _ => rfl) rfl
  · intro other segment found
    obtain ⟨count, within, mem, fits⟩ := inv.texts other segment found
    refine ⟨count, within, mem, ?_⟩
    intro process member same
    rcases List.mem_append.mp member with earlier | last
    · exact fits process earlier same
    · rw [List.mem_singleton.mp last]
      exact fits_new count _
  · intro process member
    rcases List.mem_append.mp member with earlier | last
    · exact inv.inside process earlier
    · rw [List.mem_singleton.mp last]
      exact inside

theorem found_concat {segments : List Segment} {last : Segment}
    (found : (segments ++ [last])[shmid]? = some segment) :
    segments[shmid]? = some segment ∨ (shmid = segments.length ∧ segment = last) := by
  rcases Nat.lt_or_ge shmid segments.length with inside | outside
  · rw [List.getElem?_append_left inside] at found
    exact .inl found
  · have inside := (List.getElem?_eq_some_iff.mp found).1
    rw [List.length_append, List.length_singleton] at inside
    have isLast : shmid = segments.length := by omega
    rw [isLast, List.getElem?_concat_length] at found
    exact .inr ⟨isLast, (Option.some.inj found).symm⟩

theorem Inv.create (inv : Inv st) {key : Int} (fresh : key ∉ st.segments.map Segment.key)
    (usertype : Usertype) (caller : Caller) :
    Inv ⟨st.segments ++ [⟨key, usertype.shmflg.mode, memory 0⟩],
      st.processes ++ [⟨⟨usertype, caller, st.segments.length⟩, .attach, false, []⟩]⟩ := by
  refine ⟨?_, ?_, ?_, ?_⟩
  · rw [List.map_append, List.nodup_append]
    refine ⟨inv.keys, List.pairwise_singleton _ _, ?_⟩
    intro one member other isNew same
    rw [List.mem_singleton.mp isNew] at same
    have here : one = key := same
    exact fresh (here ▸ member)
  · intro shmid segment found
    rcases found_concat found with there | ⟨last, new⟩
    · have inside := (List.getElem?_eq_some_iff.mp there).1
      apply (inv.made shmid segment there).join _ rfl
      intro same
      exact absurd same (Nat.ne_of_gt inside)
    · rw [last, new]
      exact made_new inv.inside
  · intro shmid segment found
    rcases found_concat found with there | ⟨last, new⟩
    · obtain ⟨count, within, mem, fits⟩ := inv.texts shmid segment there
      refine ⟨count, within, mem, ?_⟩
      intro process member same
      rcases List.mem_append.mp member with earlier | joined
      · exact fits process earlier same
      · rw [List.mem_singleton.mp joined]
        exact fits_new count _
    · refine ⟨0, Nat.zero_le _, by rw [new], ?_⟩
      intro process member same
      rcases List.mem_append.mp member with earlier | joined
      · have less := inv.inside process earlier
        omega
      · rw [List.mem_singleton.mp joined]
        exact fits_new 0 _
  · intro process member
    rw [List.length_append, List.length_singleton]
    rcases List.mem_append.mp member with earlier | joined
    · exact Nat.lt_succ_of_lt (inv.inside process earlier)
    · rw [List.mem_singleton.mp joined]
      exact Nat.lt_succ_self _

theorem Inv.begin (inv : Inv st) (usertype : Usertype) (key : Int) (caller : Caller) :
    Inv (begin usertype key caller st) := by
  unfold SharedMemory.begin
  have cases := construct_cases usertype key st.segments
  generalize construct usertype key st.segments = result at cases
  cases cases with
  | failed => exact inv
  | found shmid isUser inside =>
      rw [isUser]
      exact inv.join caller inside
  | made fresh =>
      have zero : List.replicate gsize (0 : UInt8) = memory 0 := filled_zero.symm
      rw [zero]
      exact inv.create fresh usertype caller

/-! ## A step -/

theorem map_set_same {α β : Type} {f : α → β} {items : List α} {i : Nat} {old new : α}
    (found : items[i]? = some old) (same : f new = f old) :
    (items.set i new).map f = items.map f := by
  obtain ⟨inside, here⟩ := List.getElem?_eq_some_iff.mp found
  rw [List.map_set, same, ← here, ← List.getElem_map f, List.set_getElem_self]
  rw [List.length_map]
  exact inside

inductive Ran (i : Nat) (st : State) : State → Prop where
  | worked (process : Process) (segment : Segment) (mem' : Bytes) (after : Process)
      (here : st.processes[i]? = some process)
      (there : st.segments[process.shm.shmid]? = some segment)
      (works : work segment process = some (mem', after)) :
      Ran i st ⟨st.segments.set process.shm.shmid { segment with mem := mem' },
        st.processes.set i after⟩

theorem ran_of_run {i : Nat} {st after : State} (ran : run i st = some after) :
    Ran i st after := by
  simp only [run, Option.bind_eq_bind, Option.bind_eq_some_iff, Option.some.injEq] at ran
  obtain ⟨process, here, segment, there, ⟨mem', worked⟩, works, rfl⟩ := ran
  exact .worked process segment mem' worked here there works

/-- A process that ends, in its `shmat` or anywhere. -/
inductive Ended (i : Nat) (st : State) : State → Prop where
  | ended (process : Process) (here : st.processes[i]? = some process) :
      Ended i st { st with processes := st.processes.set i { process with task := .gone } }

theorem ended_of_refuse {i : Nat} {after : State} (refused : refuse i st = some after) :
    Ended i st after := by
  simp only [refuse, Option.bind_eq_bind, Option.bind_eq_some_iff] at refused
  obtain ⟨process, here, refused⟩ := refused
  split at refused
  · cases refused
    exact .ended process here
  · cases refused

theorem ended_of_kill {i : Nat} {after : State} (killed : kill i st = some after) :
    Ended i st after := by
  simp only [kill, Option.bind_eq_bind, Option.bind_eq_some_iff, Option.some.injEq] at killed
  obtain ⟨process, here, rfl⟩ := killed
  exact .ended process here

/-- The processes stay who they are, and who is attached now was so or may be. -/
theorem Made.set (made : Made processes shmid segment) {i : Nat}
    (here : processes[i]? = some process) (same : after.shm = process.shm)
    (attached : process.shm.shmid = shmid → after.attached = true →
      process.attached = true ∨ shmat process.shm.caller segment = true) :
    Made (processes.set i after) shmid segment := by
  have shms : (processes.set i after).map Process.shm = processes.map Process.shm :=
    map_set_same here same
  rcases made with ⟨mode, one⟩ | ⟨mode, nobody, privileged⟩
  · exact .inl ⟨mode, shms ▸ one⟩
  · refine .inr ⟨mode, shms ▸ nobody, ?_⟩
    intro other member there inside
    rcases List.mem_or_eq_of_mem_set member with earlier | isAfter
    · exact privileged other earlier there inside
    · rw [isAfter, same] at there ⊢
      rcases attached there (isAfter ▸ inside) with before | may
      · exact privileged process (List.mem_of_getElem? here) there before
      · exact privileged_of_shmat mode may

theorem Inv.worked (inv : Inv st) {i : Nat} {count : Nat}
    (here : st.processes[i]? = some process)
    (there : st.segments[process.shm.shmid]? = some segment)
    (others : ∀ other ∈ st.processes, other.shm.shmid = process.shm.shmid → Fits count other)
    (worked : Worked count segment process mem' after) :
    Inv ⟨st.segments.set process.shm.shmid { segment with mem := mem' },
      st.processes.set i after⟩ := by
  obtain ⟨more, grown, within, mem, fits⟩ := worked.memory
  have inside := (List.getElem?_eq_some_iff.mp there).1
  refine ⟨?_, ?_, ?_, ?_⟩
  · have keys : (st.segments.set process.shm.shmid { segment with mem := mem' }).map
        Segment.key = st.segments.map Segment.key := map_set_same there rfl
    exact keys ▸ inv.keys
  · intro shmid segment' found
    by_cases same : process.shm.shmid = shmid
    · rw [← same] at found ⊢
      rw [List.getElem?_set_self inside] at found
      cases found
      exact (inv.made process.shm.shmid segment there).set here worked.same
        fun _ => worked.attached
    · rw [List.getElem?_set_ne same] at found
      exact (inv.made shmid segment' found).set here worked.same
        fun other => absurd other same
  · intro shmid segment' found
    by_cases same : process.shm.shmid = shmid
    · rw [← same] at found ⊢
      rw [List.getElem?_set_self inside] at found
      cases found
      refine ⟨more, within, mem, ?_⟩
      intro other member attached
      rcases List.mem_or_eq_of_mem_set member with earlier | isAfter
      · exact (others other earlier attached).mono grown
      · rw [isAfter]
        exact fits
    · rw [List.getElem?_set_ne same] at found
      obtain ⟨count', within', mem', fits'⟩ := inv.texts shmid segment' found
      refine ⟨count', within', mem', ?_⟩
      intro other member attached
      rcases List.mem_or_eq_of_mem_set member with earlier | isAfter
      · exact fits' other earlier attached
      · rw [isAfter, worked.same] at attached
        exact absurd attached same
  · intro other member
    rw [List.length_set]
    rcases List.mem_or_eq_of_mem_set member with earlier | isAfter
    · exact inv.inside other earlier
    · rw [isAfter, worked.same]
      exact inside

theorem Inv.exists_run (inv : Inv st) {i : Nat} (here : st.processes[i]? = some process)
    (up : process.task ≠ .gone) :
    ∃ segment count mem' after, st.segments[process.shm.shmid]? = some segment ∧
      count ≤ letters.length ∧ segment.mem = memory count ∧
      (∀ other ∈ st.processes, other.shm.shmid = process.shm.shmid → Fits count other) ∧
      work segment process = some (mem', after) ∧
      Worked count segment process mem' after := by
  have member := List.mem_of_getElem? here
  have there := List.getElem?_eq_getElem (inv.inside process member)
  obtain ⟨count, within, mem, fits⟩ := inv.texts _ _ there
  obtain ⟨mem', after, works, worked⟩ := (fits process member rfl).work within mem up
  exact ⟨_, count, mem', after, there, within, mem, fits, works, worked⟩

theorem task_of_work (works : work segment process = some (mem', after)) :
    process.task ≠ .gone := by
  intro gone
  rw [work, gone] at works
  cases works

theorem Inv.run (inv : Inv st) {i : Nat} {after : State} (ran : run i st = some after) :
    Inv after := by
  cases ran_of_run ran with
  | worked process segment mem' after here there works =>
      obtain ⟨segment', count, mem'', after', there', -, -, others, works', worked⟩ :=
        inv.exists_run here (task_of_work works)
      cases there.symm.trans there'
      cases works.symm.trans works'
      exact inv.worked here there others worked

theorem Inv.ended (inv : Inv st) {i : Nat} {after : State} (ended : Ended i st after) :
    Inv after := by
  obtain ⟨process, here⟩ := ended
  refine ⟨inv.keys, ?_, ?_, ?_⟩
  · intro shmid segment found
    exact (inv.made shmid segment found).set here rfl fun _ => .inl
  · intro shmid segment found
    obtain ⟨count, within, mem, fits⟩ := inv.texts shmid segment found
    refine ⟨count, within, mem, ?_⟩
    intro other member attached
    rcases List.mem_or_eq_of_mem_set member with earlier | isGone
    · exact fits other earlier attached
    · rw [isGone] at attached ⊢
      exact (fits process (List.mem_of_getElem? here) attached).gone
  · intro other member
    rcases List.mem_or_eq_of_mem_set member with earlier | isGone
    · exact inv.inside other earlier
    · rw [isGone]
      exact inv.inside process (List.mem_of_getElem? here)

theorem Inv.step (inv : Inv st) {event : Event} {after : State}
    (stepped : step st event = some after) : Inv after := by
  cases event with
  | start usertype key caller =>
      cases stepped
      exact inv.begin usertype key caller
  | run i => exact inv.run stepped
  | refuse i => exact inv.ended (ended_of_refuse stepped)
  | kill i => exact inv.ended (ended_of_kill stepped)

theorem inv_start : Inv start where
  keys := .nil
  made _ _ found := by cases found
  texts _ _ found := by cases found
  inside _ member := absurd member List.not_mem_nil

theorem reachable_inv (reached : Reachable step start st) : Inv st :=
  reached.invariant Inv (fun _ _ _ inv stepped => inv.step stepped) inv_start

/-! ## What the system does -/

/-- Nobody is stopped by the memory, a line is what the memory has as a string when the line
is through, and each line goes on where the one before it ended. -/
structure PrintsSnapshots (st : State) : Prop where
  goesOn : ∀ i process, st.processes[i]? = some process → process.task ≠ .gone →
    ∃ after, run i st = some after
  lines : ∀ i process after, st.processes[i]? = some process → run i st = some after →
    ∃ segment process', st.segments[process.shm.shmid]? = some segment ∧
      after.processes[i]? = some process' ∧ (process'.shown = process.shown ∨
        process'.shown = process.shown ++ [cString segment.mem])
  grows : ∀ process ∈ st.processes, process.shown.Pairwise (· <+: ·) ∧
    ∀ line ∈ process.shown, line <+: letters

/-- However the bytes of the clients fall between those that `printf` reads, each line of a
server is the memory at one moment. -/
theorem prints_snapshots (reached : Reachable step start st) : PrintsSnapshots st where
  goesOn i process here up := by
    obtain ⟨segment, count, mem', after, there, -, -, -, works, -⟩ :=
      (reachable_inv reached).exists_run here up
    refine ⟨⟨st.segments.set process.shm.shmid { segment with mem := mem' },
      st.processes.set i after⟩, ?_⟩
    simp only [run, here, there, works, Option.bind_eq_bind, Option.bind_some]
  lines i process after here ran := by
    cases ran_of_run ran with
    | worked found segment mem' worked found' there works =>
        cases here.symm.trans found'
        obtain ⟨segment', count, mem'', worked', there', within, mem, -, works', does⟩ :=
          (reachable_inv reached).exists_run here (task_of_work works)
        cases there.symm.trans there'
        cases works.symm.trans works'
        refine ⟨segment, worked, there, ?_, ?_⟩
        · exact List.getElem?_set_self (List.getElem?_eq_some_iff.mp here).1
        · rw [mem, cString_memory within]
          exact does.shown
  grows process member := by
    have inv := reachable_inv reached
    have inside := inv.inside process member
    obtain ⟨count, -, -, fits⟩ := inv.texts _ _ (List.getElem?_eq_getElem inside)
    have fits := fits process member rfl
    exact ⟨fits.grows, fun line shown =>
      (fits.shown line shown).trans (List.take_prefix count letters)⟩

set_option maxRecDepth 50000 in
/-- The client writes its second letter while the server is between the first and the
second. -/
theorem prints_snapshots_between :
    ∃ st, st.processes.map Process.shown = [[ascii "AB"], []] ∧ PrintsSnapshots st := by
  have reached : Reachable step start _ :=
    ⟨[.start .creater 5 .owner, .start .user 5 .other, .run 0, .run 1, .run 1, .run 0, .run 1,
      .run 0, .run 0], rfl⟩
  exact ⟨_, rfl, prints_snapshots reached⟩

/-! ## Who comes up -/

theorem findIdx?_key {segments : List Segment} {key : Int}
    (used : key ∈ segments.map Segment.key) :
    ∃ shmid, segments.findIdx? (fun segment => segment.key = key) = some shmid := by
  obtain ⟨segment, member, same⟩ := List.mem_map.mp used
  rw [← Option.isSome_iff_exists, List.findIdx?_isSome, List.any_eq_true]
  exact ⟨segment, member, decide_eq_true same⟩

/-- `IPC_EXCL`. -/
theorem begin_creater {key : Int} (used : key ∈ st.segments.map Segment.key)
    (caller : Caller) : begin .creater key caller st = st := by
  obtain ⟨shmid, found⟩ := findIdx?_key used
  unfold begin construct shmget
  rw [found]
  by_cases negative : key < 0
  · rw [if_pos negative]
  · rw [if_neg negative]
    rfl

def Segment.label (segment : Segment) : Int × Nat := (segment.key, segment.mode)

theorem labels_step {event : Event} {after : State} (stepped : step st event = some after) :
    st.segments.map Segment.label <+: after.segments.map Segment.label := by
  cases event with
  | start usertype key caller =>
      cases stepped
      have cases := construct_cases usertype key st.segments
      show _ <+: (begin usertype key caller st).segments.map Segment.label
      unfold begin
      generalize construct usertype key st.segments = result at cases
      cases cases with
      | failed => exact List.prefix_refl _
      | found shmid isUser inside => exact List.prefix_refl _
      | made fresh =>
          rw [List.map_append]
          exact List.prefix_append _ _
  | run i =>
      cases ran_of_run stepped with
      | worked process segment mem' worked here there works =>
          have labels : (st.segments.set process.shm.shmid { segment with mem := mem' }).map
            Segment.label = st.segments.map Segment.label := map_set_same there rfl
          rw [labels]
  | refuse i =>
      cases ended_of_refuse stepped
      exact List.prefix_refl _
  | kill i =>
      cases ended_of_kill stepped
      exact List.prefix_refl _

theorem labels_reachable {later : State} (reached : Reachable step st later) :
    st.segments.map Segment.label <+: later.segments.map Segment.label :=
  reached.invariant
    (fun after => st.segments.map Segment.label <+: after.segments.map Segment.label)
    (fun _ _ _ grown stepped => grown.trans (labels_step stepped)) (List.prefix_refl _)

/-- No segment goes away or gets another mode. -/
theorem segment_stays {later : State} (still : Reachable step st later)
    (there : st.segments[shmid]? = some segment) :
    ∃ segment', later.segments[shmid]? = some segment' ∧ segment'.key = segment.key ∧
      segment'.mode = segment.mode := by
  have label : (st.segments.map Segment.label)[shmid]? = some segment.label := by
    rw [List.getElem?_map, there, Option.map_some]
  obtain ⟨back, whole⟩ := labels_reachable still
  have inside := (List.getElem?_eq_some_iff.mp label).1
  have later_label : (later.segments.map Segment.label)[shmid]? = some segment.label := by
    rw [← whole, List.getElem?_append_left inside, label]
  rw [List.getElem?_map] at later_label
  obtain ⟨segment', found, same⟩ := Option.map_eq_some_iff.mp later_label
  exact ⟨segment', found, congrArg Prod.fst same, congrArg Prod.snd same⟩

/-- The mode of a segment says how many came through `Create` of it. -/
theorem Made.countP_eq (made : Made processes shmid segment) :
    (processes.map Process.shm).countP (created shmid) =
      if segment.mode = gmode then 1 else 0 := by
  rcases made with ⟨mode, one⟩ | ⟨mode, nobody, -⟩
  · rw [if_pos mode, one]
  · rw [if_neg (by rw [mode]; decide), nobody]

/-- A segment has one server for ever, or none and then nobody attached to it but the
privileged: which of the two was decided by who came first.  No other server of the same key
comes up, whatever becomes of the processes. -/
theorem one_server_for_ever (reached : Reachable step start st) {shmid : Nat}
    {segment : Segment} (there : st.segments[shmid]? = some segment) :
    ((segment.mode = gmode ∧ st.shms.countP (created shmid) = 1) ∨
      (segment.mode = 0 ∧ st.shms.countP (created shmid) = 0 ∧
        ∀ process ∈ st.processes, process.shm.shmid = shmid → process.attached = true →
          process.shm.caller = .privileged)) ∧
      ∀ later, Reachable step st later →
        (∃ segment', later.segments[shmid]? = some segment' ∧ segment'.key = segment.key ∧
          segment'.mode = segment.mode) ∧
        later.shms.countP (created shmid) = st.shms.countP (created shmid) ∧
        ∀ caller, step later (.start .creater segment.key caller) = some later := by
  have made := (reachable_inv reached).made shmid segment there
  refine ⟨made, ?_⟩
  intro later still
  obtain ⟨segment', found, key, mode⟩ := segment_stays still there
  refine ⟨⟨segment', found, key, mode⟩, ?_, ?_⟩
  · have made' := (reachable_inv (reached.trans still)).made shmid segment' found
    rw [State.shms, State.shms, made'.countP_eq, made.countP_eq, mode]
  · intro caller
    have used : segment.key ∈ later.segments.map Segment.key := by
      rw [← key]
      exact List.mem_map_of_mem (List.mem_of_getElem? found)
    exact congrArg some (begin_creater used caller)

/-- The server got no room for the memory it had made. -/
theorem one_server_for_ever_refused :
    ∃ st, st.processes.map Process.attached = [false] ∧ st.segments.map Segment.mode = [gmode] ∧
      ∀ later, Reachable step st later →
        ∀ caller, step later (.start .creater 5 caller) = some later := by
  have reached : Reachable step start _ := ⟨[.start .creater 5 .owner, .refuse 0], rfl⟩
  exact ⟨_, rfl, rfl, fun later still =>
    ((@one_server_for_ever _ reached 0 _ rfl).2 later still).2.2⟩

end LinuxSystemLearning.SharedMemory
