import LinuxSystemLearning.Multiplex.SlotTable

/-!
# `SelectServer` and `PollServer`

The two kinds of table.  `SelectServer` has an array of descriptors next to the set that
`select` leaves behind, `PollServer` an array of `pollfd`.  A set of `select` has room
for the descriptors below `FD_SETSIZE`; the table of `SelectServer` has as many slots,
but a slot may hold any descriptor.
-/

set_option autoImplicit false

namespace LinuxSystemLearning.SlotTable

open LinuxSystemLearning.Interleaving

/-! ## `SelectServer` -/

def fdSetSize : Int := 1024

/-- `_fd_arr`; a report is the set behind `select`, a part of the set given to it. -/
def select : Kind Int (List Int) (List Int) where
  size := 1024
  fd slot := slot
  free := defaultfd
  occupy sockfd _ := sockfd
  receive rfds slots :=
    if ∀ fd ∈ rfds, fd ∈ slots ∧ fd ≠ defaultfd then some (slots, rfds) else none
  isReady rfds slot := decide (slot ∈ rfds)
  inRange slot := decide (0 ≤ slot ∧ slot < fdSetSize)
  tidy _ := True

theorem select_lawful : Lawful select where
  positive := by decide
  fd_free := rfl
  fd_occupy _ _ := rfl
  tidy_free := trivial
  tidy_occupy _ _ _ _ _ := trivial
  receive_fds := by
    intro rfds slots slots' ready received
    simp only [select] at received
    split at received
    · cases received
      rfl
    · cases received
  receive_tidy _ _ _ _ _ _ _ _ := trivial
  receive_quiet := by
    intro rfds slots slots' ready received sockfd slot absent
    simp only [select] at received
    split at received
    · rename_i part
      cases received
      refine decide_eq_false fun member => absent ?_
      obtain ⟨inSlots, used⟩ := part sockfd member
      exact mem_occupied.mpr ⟨used, sockfd, inSlots, rfl⟩
    · cases received

/-! ## `PollServer` -/

structure PollFd where
  fd : Int
  events : BitVec 16
  revents : BitVec 16

def pollin : BitVec 16 := 1

/-- `poll` writes the `revents` of every entry, and none for an entry without a
descriptor. -/
def setRevents (slot : PollFd) (revents : BitVec 16) : PollFd :=
  { slot with revents := revents }

/-- `_fds`; a report is the list of the `revents`. -/
def poll : Kind PollFd (List (BitVec 16)) Unit where
  size := 4096
  fd slot := slot.fd
  free := ⟨defaultfd, 0, 0⟩
  occupy sockfd slot := ⟨sockfd, slot.events ||| pollin, 0⟩
  receive revents slots :=
    if revents.length = slots.length ∧
        ∀ entry ∈ slots.zip revents, entry.1.fd < 0 → entry.2 = 0 then
      some (slots.zipWith setRevents revents, ())
    else none
  isReady _ slot := slot.revents &&& pollin != 0
  inRange _ := true
  tidy slot := slot.events = if slot.fd = defaultfd then 0 else pollin

theorem setRevents_fds {slots : List PollFd} {revents : List (BitVec 16)}
    (lengths : revents.length = slots.length) :
    (slots.zipWith setRevents revents).map PollFd.fd = slots.map PollFd.fd := by
  induction slots generalizing revents with
  | nil => rfl
  | cons slot slots ih =>
      cases revents with
      | nil => cases lengths
      | cons first revents =>
          rw [List.zipWith_cons_cons, List.map_cons, List.map_cons,
            ih (Nat.succ.inj lengths)]
          rfl

theorem setRevents_kept {slots : List PollFd} {revents : List (BitVec 16)} {after : PollFd}
    (member : after ∈ slots.zipWith setRevents revents) :
    ∃ slot ∈ slots, after.fd = slot.fd ∧ after.events = slot.events := by
  induction slots generalizing revents with
  | nil => cases member
  | cons slot slots ih =>
      cases revents with
      | nil => cases member
      | cons first revents =>
          rcases List.mem_cons.mp member with rfl | later
          · exact ⟨slot, List.mem_cons_self, rfl, rfl⟩
          · obtain ⟨slot', inSlots, kept⟩ := ih later
            exact ⟨slot', List.mem_cons_of_mem slot inSlots, kept⟩

theorem poll_lawful : Lawful poll where
  positive := by decide
  fd_free := rfl
  fd_occupy _ _ := rfl
  tidy_free := rfl
  tidy_occupy := by
    intro sockfd slot valid free tidy
    have events : slot.events = 0 := by
      have free : slot.fd = defaultfd := free
      have tidy : slot.events = if slot.fd = defaultfd then 0 else pollin := tidy
      rw [tidy, if_pos free]
    have used : sockfd ≠ defaultfd := by
      have negative := defaultfd_lt
      omega
    show slot.events ||| pollin = if sockfd = defaultfd then 0 else pollin
    rw [if_neg used, events]
    rfl
  receive_fds := by
    intro revents slots slots' ready received
    simp only [poll] at received
    split at received
    · rename_i answer
      cases received
      exact setRevents_fds answer.1
    · cases received
  receive_tidy := by
    intro revents slots slots' ready received tidy after member
    simp only [poll] at received
    split at received
    · cases received
      obtain ⟨slot, inSlots, fd, events⟩ := setRevents_kept member
      show after.events = if after.fd = defaultfd then 0 else pollin
      rw [fd, events]
      exact tidy slot inSlots
    · cases received
  receive_quiet := by
    intro revents slots slots' ready received sockfd slot absent
    simp only [poll]
    decide

/-! ## Every run of both -/

theorem inRange_poll (st : State PollFd Unit) (event : Event (List (BitVec 16))) :
    InRange poll st event := by
  cases event with
  | wait _ => exact fun _ _ _ => rfl
  | visit _ => exact fun _ _ _ _ _ => rfl

/-- The listening socket is readable and `accept` gives the descriptor 1024, which is
entered into the second slot and looked up there. -/
def acceptBeyondSet : List (Event (List Int)) := [.wait (some [3]), .visit 1024, .visit 0]

theorem acceptBeyondSet_undefined :
    ∃ last, play (step select 3) (start select 3) acceptBeyondSet = some last ∧
      last.undefined = true := by
  have ran : ((play (step select 3) (start select 3) acceptBeyondSet).map State.undefined) =
      some true := by
    decide +kernel
  exact Option.map_eq_some_iff.mp ran

theorem not_always_of_undefined {Good : State Int (List Int) → Prop}
    (defined : ∀ st, Good st → st.undefined = false) :
    (play (step select 3) (start select 3) acceptBeyondSet).isSome = true ∧
      ¬ Always (step select 3) Good (start select 3) acceptBeyondSet := by
  obtain ⟨last, ran, undefined⟩ := acceptBeyondSet_undefined
  refine ⟨Option.isSome_iff_exists.mpr ⟨last, ran⟩, ?_⟩
  intro always
  have reached := defined last (always.last ran)
  rw [undefined] at reached
  cases reached

/-- The tables stay consistent, that of `SelectServer` exactly as long as the descriptors
in it that are given to `select` or looked up are below `FD_SETSIZE`. -/
theorem tables_consistent {listenfd : Int} (valid : 0 ≤ listenfd) :
    (∀ events last,
      play (step select listenfd) (start select listenfd) events = some last →
        (Always (step select listenfd) (Consistent select listenfd) (start select listenfd)
            events ↔
          Throughout (step select listenfd) (InRange select) (start select listenfd) events) ∧
        Throughout (step select listenfd) (RefusesWhenFull select listenfd)
          (start select listenfd) events) ∧
    ∀ events last, play (step poll listenfd) (start poll listenfd) events = some last →
      Always (step poll listenfd) (Consistent poll listenfd) (start poll listenfd) events ∧
        Throughout (step poll listenfd) (RefusesWhenFull poll listenfd)
          (start poll listenfd) events := by
  refine ⟨?_, ?_⟩
  · intro events last ran
    exact ⟨always_iff_in_range select_lawful valid (fun _ inv => inv.consistent)
      (fun _ consistent => consistent.defined) ran,
      throughout_of_forall refuses_when_full events⟩
  · intro events last ran
    have inRange : Throughout (step poll listenfd) (InRange poll) (start poll listenfd) events :=
      throughout_of_forall inRange_poll events
    exact ⟨(always_iff_in_range poll_lawful valid (fun _ inv => inv.consistent)
      (fun _ consistent => consistent.defined) ran).mpr inRange,
      throughout_of_forall refuses_when_full events⟩

theorem tables_consistent_accepted :
    Always (step select 3) (Consistent select 3) (start select 3)
      [.wait (some [3]), .visit 5] := by
  obtain ⟨last, ran⟩ := Option.isSome_iff_exists.mp
    (show (play (step select 3) (start select 3) [.wait (some [3]), .visit 5]).isSome = true by
      decide +kernel)
  have valid : (0 : Int) ≤ 3 := by decide
  exact ((tables_consistent valid).1 _ last ran).1.mpr (by decide +kernel)

theorem select_table_undefined :
    (play (step select 3) (start select 3) acceptBeyondSet).isSome = true ∧
      ¬ Always (step select 3) (Consistent select 3) (start select 3) acceptBeyondSet :=
  not_always_of_undefined fun _ consistent => consistent.defined

/-- Each round serves every client that was reported once and nobody else, in
`SelectServer` exactly as long as the descriptors in its table that are given to `select`
or looked up are below `FD_SETSIZE`. -/
theorem clients_served_once {listenfd : Int} (valid : 0 ≤ listenfd) :
    (∀ events last,
      play (step select listenfd) (start select listenfd) events = some last →
        (Always (step select listenfd) (ServedOnce select) (start select listenfd) events ↔
          Throughout (step select listenfd) (InRange select) (start select listenfd) events)) ∧
    ∀ events last, play (step poll listenfd) (start poll listenfd) events = some last →
      Always (step poll listenfd) (ServedOnce poll) (start poll listenfd) events := by
  refine ⟨?_, ?_⟩
  · intro events last ran
    exact always_iff_in_range select_lawful valid (fun _ inv => inv.servedOnce)
      (fun _ servedOnce => servedOnce.defined) ran
  · intro events last ran
    have inRange : Throughout (step poll listenfd) (InRange poll) (start poll listenfd) events :=
      throughout_of_forall inRange_poll events
    exact (always_iff_in_range poll_lawful valid (fun _ inv => inv.servedOnce)
      (fun _ servedOnce => servedOnce.defined) ran).mpr inRange

/-- A client of `SelectServer` is accepted, and the loop goes on to its slot. -/
theorem clients_served_once_accepted :
    Always (step select 3) (ServedOnce select) (start select 3)
      [.wait (some [3]), .visit 5, .visit 0] := by
  obtain ⟨last, ran⟩ := Option.isSome_iff_exists.mp
    (show (play (step select 3) (start select 3)
      [.wait (some [3]), .visit 5, .visit 0]).isSome = true by decide +kernel)
  have valid : (0 : Int) ≤ 3 := by decide
  exact ((clients_served_once valid).1 _ last ran).mpr (by decide +kernel)

theorem select_round_undefined :
    (play (step select 3) (start select 3) acceptBeyondSet).isSome = true ∧
      ¬ Always (step select 3) (ServedOnce select) (start select 3) acceptBeyondSet :=
  not_always_of_undefined fun _ servedOnce => servedOnce.defined

end LinuxSystemLearning.SlotTable
