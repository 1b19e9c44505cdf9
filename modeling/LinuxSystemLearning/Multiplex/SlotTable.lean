import LinuxSystemLearning.Library.Interleaving
import Mathlib.Data.List.Perm.Basic
import Mathlib.Data.List.Nodup

/-!
# A server with a table of descriptors

`SelectServer` and `PollServer` are one program over two kinds of table.  A round waits
for the kernel's answer and goes through the slots once; at the slot of the listening
socket it accepts a connection and enters it into the first free slot, at that of a
client it receives, and frees the slot when the connection is at its end.

`Kind` is what the two tables differ in, and a step is one wait or the visit of one
slot.  `Inv` relates the table to the calls made so far, and what a round has still to
serve to what was reported for it.
-/

set_option autoImplicit false

namespace LinuxSystemLearning.SlotTable

open LinuxSystemLearning.Interleaving

def defaultfd : Int := -1

/-- `Report` is what the kernel answers, and `Ready` what a round keeps of the answer
outside the table. -/
structure Kind (Slot Report Ready : Type) where
  size : Nat
  fd : Slot → Int
  /-- A slot that is not in use. -/
  free : Slot
  occupy : Int → Slot → Slot
  /-- The table with the answer in it, if the kernel can answer so. -/
  receive : Report → List Slot → Option (List Slot × Ready)
  isReady : Ready → Slot → Bool
  /-- The descriptor can be given to the kernel and looked up in its answer. -/
  inRange : Slot → Bool
  /-- What else a slot says fits its descriptor. -/
  tidy : Slot → Prop

variable {Slot Report Ready : Type}

/-- The system calls that touch the descriptors of the table. -/
inductive Call where
  | waited
  | accepted (fd : Int)
  | received (fd : Int)
  | closed (fd : Int)
  deriving DecidableEq

/-- `round` is the slot the loop of `Dispatcher` is at.  `calls`, the last one in front,
and `reported`, the clients that the round's answer calls readable, are only recorded;
`undefined` is set when a descriptor outside the range is looked at. -/
structure State (Slot Ready : Type) where
  slots : List Slot
  round : Option (Nat × Ready)
  calls : List Call
  reported : List Int
  undefined : Bool

inductive Event (Report : Type) where
  /-- The wait returns with nothing to do, or with an answer. -/
  | wait (answer : Option Report)
  /-- The visit of one slot, and what the `accept` or the `recv` there returns. -/
  | visit (outcome : Int)

def live : List Call → List Int
  | [] => []
  | .accepted fd :: calls => fd :: live calls
  | .closed fd :: calls => (live calls).erase fd
  | .waited :: calls => live calls
  | .received _ :: calls => live calls

def served : List Call → List Int
  | [] => []
  | .waited :: _ => []
  | .received fd :: calls => fd :: served calls
  | .accepted _ :: calls => served calls
  | .closed _ :: calls => served calls

variable (kind : Kind Slot Report Ready) (listenfd : Int)

def occupied (slots : List Slot) : List Int :=
  (slots.map kind.fd).filter (· ≠ defaultfd)

/-- The descriptors in the table that the answer calls readable. -/
def readable (ready : Ready) (slots : List Slot) : List Int :=
  ((slots.filter (kind.isReady ready)).map kind.fd).filter (· ≠ defaultfd)

/-- The loop for a free slot and the assignment behind it; `none` is `pos == size`. -/
def place (sockfd : Int) : List Slot → Option (List Slot)
  | [] => none
  | slot :: slots =>
      if kind.fd slot = defaultfd then some (kind.occupy sockfd slot :: slots)
      else (place sockfd slots).map (slot :: ·)

def accepter (sockfd : Int) (st : State Slot Ready) : State Slot Ready :=
  if 0 ≤ sockfd then
    match place kind sockfd st.slots with
    | none => { st with calls := .closed sockfd :: .accepted sockfd :: st.calls }
    | some slots => { st with slots := slots, calls := .accepted sockfd :: st.calls }
  else st

def recver (n sockfd : Int) (pos : Nat) (st : State Slot Ready) : State Slot Ready :=
  if 0 < n then { st with calls := .received sockfd :: st.calls }
  else { st with
    slots := st.slots.set pos kind.free
    calls := .closed sockfd :: .received sockfd :: st.calls }

/-- The body of the loop of `Dispatcher`.  The kernel gives no descriptor to a connection
that is open. -/
def visit (outcome : Int) (pos : Nat) (ready : Ready) (slot : Slot) (st : State Slot Ready) :
    Option (State Slot Ready) :=
  if kind.fd slot = defaultfd then some st
  else if kind.inRange slot = false then some { st with undefined := true }
  else if kind.isReady ready slot then
    if kind.fd slot = listenfd then
      if outcome ∈ listenfd :: live st.calls then none else some (accepter kind outcome st)
    else some (recver kind outcome (kind.fd slot) pos st)
  else some st

def wait (answer : Option Report) (st : State Slot Ready) : Option (State Slot Ready) :=
  if st.slots.all fun slot => kind.fd slot = defaultfd || kind.inRange slot then
    match answer with
    | none => some { st with round := none, calls := .waited :: st.calls, reported := [] }
    | some report =>
        match kind.receive report st.slots with
        | none => none
        | some (slots, ready) => some { st with
            slots := slots
            round := some (0, ready)
            calls := .waited :: st.calls
            reported := (readable kind ready slots).filter (· ≠ listenfd) }
  else some { st with undefined := true }

def roundOver (st : State Slot Ready) : Bool :=
  match st.round with
  | none => true
  | some (pos, _) => pos == kind.size

def current (st : State Slot Ready) : Option (Nat × Ready × Slot) :=
  match st.round with
  | none => none
  | some (pos, ready) => (st.slots[pos]?).map fun slot => (pos, ready, slot)

def step (st : State Slot Ready) : Event Report → Option (State Slot Ready)
  | .wait answer =>
      if st.undefined || !roundOver kind st then none else wait kind listenfd answer st
  | .visit outcome =>
      if st.undefined then none
      else match current st with
        | none => none
        | some (pos, ready, slot) =>
            (visit kind listenfd outcome pos ready slot st).map fun after =>
              { after with round := some (pos + 1, ready) }

def start : State Slot Ready where
  slots := kind.occupy listenfd kind.free :: List.replicate (kind.size - 1) kind.free
  round := none
  calls := []
  reported := []
  undefined := false

/-- The first slot is the listening socket's, the others hold the connections that are
open, no two slots hold the same, and each slot is tidy.  Behind something undefined
nothing is known of the table. -/
structure Consistent (st : State Slot Ready) : Prop where
  defined : st.undefined = false
  listener : (st.slots.map kind.fd).head? = some listenfd
  distinct : (occupied kind st.slots).Nodup
  connections : (occupied kind (st.slots.drop 1)).Perm (live st.calls)
  tidy : ∀ slot ∈ st.slots, kind.tidy slot

/-- At the end of a round every client reported readable has been received from once, and
nobody else.  Behind something undefined nothing is known of the calls. -/
structure ServedOnce (st : State Slot Ready) : Prop where
  defined : st.undefined = false
  once : ∀ ready, st.round = some (kind.size, ready) →
    ∀ fd, (served st.calls).count fd = if fd ∈ st.reported then 1 else 0

/-- The descriptors given to the kernel, and the one looked up in its answer, are in
range. -/
def InRange (st : State Slot Ready) : Event Report → Prop
  | .wait _ => ∀ slot ∈ st.slots, kind.fd slot ≠ defaultfd → kind.inRange slot = true
  | .visit _ => ∀ pos ready slot, current st = some (pos, ready, slot) →
      kind.fd slot ≠ defaultfd → kind.inRange slot = true

instance decidableInRange (st : State Slot Ready) (event : Event Report) :
    Decidable (InRange kind st event) :=
  match event with
  | .wait _ =>
      inferInstanceAs (Decidable (∀ slot ∈ st.slots,
        kind.fd slot ≠ defaultfd → kind.inRange slot = true))
  | .visit _ =>
      decidable_of_iff (∀ place ∈ current st,
          kind.fd place.2.2 ≠ defaultfd → kind.inRange place.2.2 = true)
        ⟨fun met pos ready slot here => met (pos, ready, slot) here,
          fun met place here => met place.1 place.2.1 place.2.2 here⟩

/-- A connection that is accepted while no slot is free is closed at once, and the table
is as before. -/
def RefusesWhenFull (st : State Slot Ready) : Event Report → Prop
  | .wait _ => True
  | .visit sockfd => ∀ pos ready slot after, current st = some (pos, ready, slot) →
      kind.fd slot = listenfd → kind.isReady ready slot = true → 0 ≤ sockfd →
      (∀ slot ∈ st.slots, kind.fd slot ≠ defaultfd) → kind.inRange slot = true →
      step kind listenfd st (.visit sockfd) = some after →
        after.slots = st.slots ∧ after.calls = .closed sockfd :: .accepted sockfd :: st.calls

structure Lawful : Prop where
  positive : 0 < kind.size
  fd_free : kind.fd kind.free = defaultfd
  fd_occupy : ∀ sockfd slot, kind.fd (kind.occupy sockfd slot) = sockfd
  tidy_free : kind.tidy kind.free
  tidy_occupy : ∀ sockfd slot, 0 ≤ sockfd → kind.fd slot = defaultfd → kind.tidy slot →
    kind.tidy (kind.occupy sockfd slot)
  receive_fds : ∀ report slots slots' ready,
    kind.receive report slots = some (slots', ready) →
      slots'.map kind.fd = slots.map kind.fd
  receive_tidy : ∀ report slots slots' ready,
    kind.receive report slots = some (slots', ready) →
      (∀ slot ∈ slots, kind.tidy slot) → ∀ slot ∈ slots', kind.tidy slot
  /-- What was not in the table is not readable, whichever slot it is entered into. -/
  receive_quiet : ∀ report slots slots' ready,
    kind.receive report slots = some (slots', ready) →
      ∀ sockfd slot, sockfd ∉ occupied kind slots →
        kind.isReady ready (kind.occupy sockfd slot) = false

/-! ## The descriptors of a table -/

section

variable {kind} {slots front back : List Slot} {slot : Slot} {ready : Ready}

theorem occupied_append :
    occupied kind (front ++ back) = occupied kind front ++ occupied kind back := by
  rw [occupied, List.map_append, List.filter_append]
  rfl

theorem occupied_cons_free (free : kind.fd slot = defaultfd) :
    occupied kind (slot :: slots) = occupied kind slots := by
  rw [occupied, List.map_cons, List.filter_cons_of_neg (by simp [free])]
  rfl

theorem occupied_cons (used : kind.fd slot ≠ defaultfd) :
    occupied kind (slot :: slots) = kind.fd slot :: occupied kind slots := by
  rw [occupied, List.map_cons, List.filter_cons_of_pos (by simp [used])]
  rfl

theorem mem_occupied {fd : Int} :
    fd ∈ occupied kind slots ↔ fd ≠ defaultfd ∧ ∃ slot ∈ slots, kind.fd slot = fd := by
  rw [occupied, List.mem_filter, List.mem_map, decide_eq_true_eq, and_comm]

theorem readable_append :
    readable kind ready (front ++ back) = readable kind ready front ++
      readable kind ready back := by
  rw [readable, List.filter_append, List.map_append, List.filter_append]
  rfl

theorem readable_cons_quiet
    (quiet : kind.fd slot = defaultfd ∨ kind.isReady ready slot = false) :
    readable kind ready (slot :: slots) = readable kind ready slots := by
  unfold readable
  rw [List.filter_cons]
  split
  · rename_i isReady
    have free := quiet.resolve_right (by rw [isReady]; exact Bool.false_ne_true ∘ Eq.symm)
    rw [List.map_cons, List.filter_cons_of_neg (by simp [free])]
  · rfl

theorem readable_cons (used : kind.fd slot ≠ defaultfd)
    (isReady : kind.isReady ready slot = true) :
    readable kind ready (slot :: slots) = kind.fd slot :: readable kind ready slots := by
  unfold readable
  rw [List.filter_cons_of_pos isReady, List.map_cons, List.filter_cons_of_pos (by simp [used])]

theorem readable_sublist : List.Sublist (readable kind ready slots) (occupied kind slots) :=
  (List.filter_sublist.map _).filter _

/-- The slot that is taken is free, and the others stay as they are. -/
theorem place_spec {sockfd : Int} {after : List Slot}
    (placed : place kind sockfd slots = some after) :
    ∃ front slot back, slots = front ++ slot :: back ∧
      after = front ++ kind.occupy sockfd slot :: back ∧ kind.fd slot = defaultfd := by
  induction slots generalizing after with
  | nil => cases placed
  | cons slot slots ih =>
      unfold place at placed
      split at placed
      · rename_i free
        cases placed
        exact ⟨[], slot, slots, rfl, rfl, free⟩
      · obtain ⟨rest, later, rfl⟩ := Option.map_eq_some_iff.mp placed
        obtain ⟨front, free, back, rfl, rfl, isFree⟩ := ih later
        exact ⟨slot :: front, free, back, rfl, rfl, isFree⟩

theorem place_eq_none {sockfd : Int} (full : ∀ slot ∈ slots, kind.fd slot ≠ defaultfd) :
    place kind sockfd slots = none := by
  induction slots with
  | nil => rfl
  | cons slot slots ih =>
      rw [place, if_neg (full slot List.mem_cons_self),
        ih fun other member => full other (List.mem_cons_of_mem slot member)]
      rfl

end

/-! ## The table and the calls -/

/-- The table holds what is open, and what is left of a round is what was reported and
not yet served. -/
structure Inv (st : State Slot Ready) : Prop where
  defined : st.undefined = false
  size : st.slots.length = kind.size
  table : ∃ first rest, st.slots = first :: rest ∧ kind.fd first = listenfd ∧
    (occupied kind rest).Perm (live st.calls)
  distinct : (listenfd :: live st.calls).Nodup
  valid : ∀ fd ∈ listenfd :: live st.calls, 0 ≤ fd
  tidy : ∀ slot ∈ st.slots, kind.tidy slot
  once : st.reported.Nodup
  quiet : ∀ ready, st.round = some (0, ready) → ∀ sockfd slot,
    sockfd ∉ listenfd :: live st.calls → kind.isReady ready (kind.occupy sockfd slot) = false
  left : ∀ pos ready, st.round = some (pos, ready) →
    st.reported = (served st.calls).reverse ++ readable kind ready (st.slots.drop (max pos 1))

variable {kind} {listenfd} {st after : State Slot Ready}

theorem defaultfd_lt : defaultfd < 0 := by decide

theorem Inv.listenfd_used (inv : Inv kind listenfd st) : listenfd ≠ defaultfd := by
  have valid := inv.valid listenfd List.mem_cons_self
  have negative := defaultfd_lt
  omega

theorem Inv.occupied_slots (inv : Inv kind listenfd st) :
    (occupied kind st.slots).Perm (listenfd :: live st.calls) := by
  obtain ⟨first, rest, shape, listens, held⟩ := inv.table
  rw [shape, occupied_cons (listens ▸ inv.listenfd_used), listens]
  exact held.cons listenfd

theorem Inv.consistent (inv : Inv kind listenfd st) : Consistent kind listenfd st := by
  obtain ⟨first, rest, shape, listens, held⟩ := inv.table
  refine ⟨inv.defined, ?_, inv.occupied_slots.nodup_iff.mpr inv.distinct, ?_, inv.tidy⟩
  · rw [shape]
    exact congrArg some listens
  · rw [shape]
    exact held

theorem Inv.servedOnce (inv : Inv kind listenfd st) : ServedOnce kind st := by
  refine ⟨inv.defined, ?_⟩
  intro ready ended fd
  have left := inv.left kind.size ready ended
  have nothing : st.slots.drop (max kind.size 1) = [] := by
    rw [List.drop_eq_nil_iff, inv.size]
    exact Nat.le_max_left _ _
  rw [nothing, show readable kind ready ([] : List Slot) = [] from rfl, List.append_nil] at left
  have once := inv.once
  rw [left, List.nodup_reverse] at once
  split
  · rename_i member
    rw [left, List.mem_reverse] at member
    exact List.count_eq_one_of_mem once member
  · rename_i absent
    rw [left, List.mem_reverse] at absent
    exact List.count_eq_zero.mpr absent

theorem inv_start (lawful : Lawful kind) (valid : 0 ≤ listenfd) :
    Inv kind listenfd (start kind listenfd) := by
  have free_only : ∀ count, occupied kind (List.replicate count kind.free) = [] := by
    intro count
    induction count with
    | zero => rfl
    | succ count ih => rw [List.replicate_succ, occupied_cons_free lawful.fd_free, ih]
  refine ⟨rfl, ?_, ⟨_, _, rfl, lawful.fd_occupy _ _, ?_⟩, List.nodup_singleton listenfd, ?_, ?_,
    List.nodup_nil, ?_, ?_⟩
  · have positive := lawful.positive
    show (List.replicate (kind.size - 1) kind.free).length + 1 = kind.size
    rw [List.length_replicate]
    omega
  · rw [free_only]
    exact List.Perm.refl _
  · intro fd member
    rw [List.mem_singleton.mp member]
    exact valid
  · intro slot member
    rcases List.mem_cons.mp member with rfl | free
    · exact lawful.tidy_occupy _ _ valid lawful.fd_free lawful.tidy_free
    · rw [(List.mem_replicate.mp free).2]
      exact lawful.tidy_free
  · intro ready round
    cases round
  · intro pos ready round
    cases round

/-! ## The wait -/

theorem occupied_congr {slots slots' : List Slot} (same : slots'.map kind.fd = slots.map kind.fd) :
    occupied kind slots' = occupied kind slots := by
  rw [occupied, same, occupied]

/-- Among what is readable, the clients are what is behind the first slot. -/
theorem readable_clients {first : Slot} {rest : List Slot} {ready : Ready}
    (listens : kind.fd first = listenfd) (apart : listenfd ∉ occupied kind rest) :
    (readable kind ready (first :: rest)).filter (· ≠ listenfd) = readable kind ready rest := by
  have others : (readable kind ready rest).filter (· ≠ listenfd) = readable kind ready rest := by
    rw [List.filter_eq_self]
    intro fd member
    rw [decide_eq_true_eq]
    rintro rfl
    exact apart (readable_sublist.subset member)
  by_cases quiet : kind.fd first = defaultfd ∨ kind.isReady ready first = false
  · rw [readable_cons_quiet quiet, others]
  · rw [not_or, Bool.not_eq_false] at quiet
    rw [readable_cons quiet.1 quiet.2, listens, List.filter_cons_of_neg (by simp), others]

theorem Inv.answered (lawful : Lawful kind) (inv : Inv kind listenfd st) {report : Report}
    {slots : List Slot} {ready : Ready}
    (received : kind.receive report st.slots = some (slots, ready)) :
    Inv kind listenfd { st with
      slots := slots
      round := some (0, ready)
      calls := .waited :: st.calls
      reported := (readable kind ready slots).filter (· ≠ listenfd) } := by
  obtain ⟨first, rest, shape, listens, held⟩ := inv.table
  have same := lawful.receive_fds _ _ _ _ received
  rw [shape, List.map_cons, List.map_eq_cons_iff] at same
  obtain ⟨first', rest', rfl, listens', fds⟩ := same
  rw [listens] at listens'
  have held' : (occupied kind rest').Perm (live st.calls) := by
    rw [occupied_congr fds]
    exact held
  have apart : listenfd ∉ occupied kind rest' := by
    rw [held'.mem_iff]
    exact (List.nodup_cons.mp inv.distinct).1
  have clients : (readable kind ready (first' :: rest')).filter (· ≠ listenfd) =
      readable kind ready rest' := readable_clients listens' apart
  refine ⟨inv.defined, ?_, ⟨first', rest', rfl, listens', held'⟩, inv.distinct, inv.valid,
    lawful.receive_tidy _ _ _ _ received inv.tidy, ?_, ?_, ?_⟩
  · have lengths := congrArg List.length (lawful.receive_fds _ _ _ _ received)
    rw [List.length_map, List.length_map, inv.size] at lengths
    exact lengths
  · rw [clients]
    have nodup := held'.nodup_iff.mpr (List.nodup_cons.mp inv.distinct).2
    exact readable_sublist.nodup nodup
  · intro ready' round sockfd slot absent
    cases round
    refine lawful.receive_quiet _ _ _ _ received sockfd slot ?_
    rw [inv.occupied_slots.mem_iff]
    exact absent
  · intro pos ready' round
    cases round
    rw [clients]
    rfl

theorem Inv.nothing (inv : Inv kind listenfd st) :
    Inv kind listenfd { st with round := none, calls := .waited :: st.calls, reported := [] } := by
  refine ⟨inv.defined, inv.size, inv.table, inv.distinct, inv.valid, inv.tidy, List.nodup_nil,
    ?_, ?_⟩
  · intro ready round
    cases round
  · intro pos ready round
    cases round

/-! ## The visit of a slot -/

theorem max_succ_one (pos : Nat) : max (pos + 1) 1 = pos + 1 :=
  Nat.max_eq_left (Nat.succ_le_succ (Nat.zero_le pos))

theorem split_of_getElem? {slots : List Slot} {pos : Nat} {slot : Slot}
    (found : slots[pos]? = some slot) :
    ∃ front back, slots = front ++ slot :: back ∧ front.length = pos := by
  obtain ⟨inside, here⟩ := List.getElem?_eq_some_iff.mp found
  refine ⟨slots.take pos, slots.drop (pos + 1), ?_, List.length_take_of_le (Nat.le_of_lt inside)⟩
  rw [← here, List.getElem_cons_drop, List.take_append_drop]

theorem Inv.first_iff (inv : Inv kind listenfd st) {pos : Nat} {slot : Slot}
    (found : st.slots[pos]? = some slot) : kind.fd slot = listenfd ↔ pos = 0 := by
  obtain ⟨first, rest, shape, listens, held⟩ := inv.table
  rw [shape] at found
  cases pos with
  | zero =>
      cases found
      exact ⟨fun _ => rfl, fun _ => listens⟩
  | succ pos =>
      refine ⟨fun same => ?_, fun impossible => absurd impossible (Nat.succ_ne_zero pos)⟩
      have member : kind.fd slot ∈ occupied kind rest :=
        mem_occupied.mpr ⟨same ▸ inv.listenfd_used, slot, List.mem_of_getElem? found, rfl⟩
      rw [same, held.mem_iff] at member
      exact absurd member (List.nodup_cons.mp inv.distinct).1

/-- The loop goes on behind a slot that has nothing to be served. -/
theorem Inv.passed (inv : Inv kind listenfd st) {pos : Nat} {ready : Ready} {slot : Slot}
    (round : st.round = some (pos, ready)) (found : st.slots[pos]? = some slot)
    (quiet : pos = 0 ∨ kind.fd slot = defaultfd ∨ kind.isReady ready slot = false) :
    Inv kind listenfd { st with round := some (pos + 1, ready) } := by
  refine ⟨inv.defined, inv.size, inv.table, inv.distinct, inv.valid, inv.tidy, inv.once, ?_, ?_⟩
  · intro ready' later
    cases later
  · intro pos' ready' later
    cases later
    rw [inv.left pos ready round]
    congr 1
    cases pos with
    | zero => rfl
    | succ pos =>
        obtain ⟨inside, here⟩ := List.getElem?_eq_some_iff.mp found
        show readable kind ready (st.slots.drop (max (pos + 1) 1)) =
          readable kind ready (st.slots.drop (max (pos + 1 + 1) 1))
        rw [max_succ_one,
          max_succ_one, ← List.getElem_cons_drop inside,
          here, readable_cons_quiet (quiet.resolve_left (Nat.succ_ne_zero pos))]

theorem Inv.refused (inv : Inv kind listenfd st) {sockfd : Int} :
    Inv kind listenfd { st with calls := .closed sockfd :: .accepted sockfd :: st.calls } := by
  have same : live (.closed sockfd :: .accepted sockfd :: st.calls) = live st.calls :=
    List.erase_cons_head ..
  refine ⟨inv.defined, inv.size, ?_, ?_, ?_, inv.tidy, inv.once, ?_, inv.left⟩
  · dsimp only
    rw [same]
    exact inv.table
  · dsimp only
    rw [same]
    exact inv.distinct
  · dsimp only
    rw [same]
    exact inv.valid
  · dsimp only
    rw [same]
    exact inv.quiet

theorem Inv.entered (lawful : Lawful kind) (inv : Inv kind listenfd st) {ready : Ready}
    (round : st.round = some (0, ready)) {sockfd : Int} (valid : 0 ≤ sockfd)
    (new : sockfd ∉ listenfd :: live st.calls) {slots : List Slot}
    (placed : place kind sockfd st.slots = some slots) :
    Inv kind listenfd { st with
      slots := slots
      round := some (1, ready)
      calls := .accepted sockfd :: st.calls } := by
  obtain ⟨first, rest, shape, listens, held⟩ := inv.table
  obtain ⟨front, free, back, split, rfl, isFree⟩ := place_spec placed
  rw [shape] at split
  cases front with
  | nil =>
      cases split
      exact absurd (listens.symm.trans isFree) inv.listenfd_used
  | cons first' front =>
      rw [List.cons_append] at split
      obtain ⟨rfl, rfl⟩ := List.cons.inj split
      have used : kind.fd (kind.occupy sockfd free) ≠ defaultfd := by
        rw [lawful.fd_occupy]
        have negative := defaultfd_lt
        omega
      have quiet := inv.quiet ready round sockfd free new
      refine ⟨inv.defined, ?_, ⟨first, _, rfl, listens, ?_⟩, ?_, ?_, ?_, inv.once, ?_, ?_⟩
      · rw [← inv.size, shape]
        simp
      · show (occupied kind (front ++ kind.occupy sockfd free :: back)).Perm
          (sockfd :: live st.calls)
        rw [occupied_append, occupied_cons_free isFree] at held
        rw [occupied_append, occupied_cons used, lawful.fd_occupy]
        exact List.perm_middle.trans (held.cons sockfd)
      · rw [List.mem_cons, not_or] at new
        have distinct := List.nodup_cons.mp inv.distinct
        refine List.nodup_cons.mpr ⟨?_, List.nodup_cons.mpr ⟨new.2, distinct.2⟩⟩
        intro member
        rcases List.mem_cons.mp member with same | before
        · exact new.1 same.symm
        · exact distinct.1 before
      · intro fd member
        rcases List.mem_cons.mp member with rfl | member
        · exact inv.valid fd List.mem_cons_self
        · rcases List.mem_cons.mp member with rfl | before
          · exact valid
          · exact inv.valid fd (List.mem_cons_of_mem _ before)
      · have tidy := inv.tidy
        rw [shape] at tidy
        intro slot member
        rcases List.mem_append.mp member with before | member
        · exact tidy slot (List.mem_append_left (free :: back) before)
        · rcases List.mem_cons.mp member with rfl | behind
          · exact lawful.tidy_occupy _ _ valid isFree
              (tidy free (List.mem_append_right (first :: front) List.mem_cons_self))
          · exact tidy slot
              (List.mem_append_right (first :: front) (List.mem_cons_of_mem free behind))
      · intro ready' later
        cases later
      · intro pos ready' later
        cases later
        have left := inv.left 0 ready round
        rw [shape] at left
        show st.reported = (served st.calls).reverse ++
          readable kind ready (front ++ kind.occupy sockfd free :: back)
        rw [left]
        show _ ++ readable kind ready (front ++ free :: back) = _
        rw [readable_append, readable_append, readable_cons_quiet (.inl isFree),
          readable_cons_quiet (.inr quiet)]

/-- What the loop still has to serve at the slot of a client that is ready. -/
theorem Inv.left_client (inv : Inv kind listenfd st) {pos : Nat} {ready : Ready} {slot : Slot}
    (round : st.round = some (pos + 1, ready)) (found : st.slots[pos + 1]? = some slot)
    (used : kind.fd slot ≠ defaultfd) (isReady : kind.isReady ready slot = true) :
    st.reported = (kind.fd slot :: served st.calls).reverse ++
      readable kind ready (st.slots.drop (pos + 1 + 1)) := by
  obtain ⟨inside, here⟩ := List.getElem?_eq_some_iff.mp found
  have left := inv.left (pos + 1) ready round
  rw [max_succ_one, ← List.getElem_cons_drop inside, here,
    readable_cons used isReady] at left
  rw [left, List.reverse_cons, List.append_assoc]
  rfl

theorem Inv.received (inv : Inv kind listenfd st) {pos : Nat} {ready : Ready} {slot : Slot}
    (round : st.round = some (pos + 1, ready)) (found : st.slots[pos + 1]? = some slot)
    (used : kind.fd slot ≠ defaultfd) (isReady : kind.isReady ready slot = true) :
    Inv kind listenfd { st with
      round := some (pos + 1 + 1, ready)
      calls := .received (kind.fd slot) :: st.calls } := by
  have left := inv.left_client round found used isReady
  refine ⟨inv.defined, inv.size, inv.table, inv.distinct, inv.valid, inv.tidy, inv.once, ?_, ?_⟩
  · intro ready' later
    cases later
  · intro pos' ready' later
    cases later
    rw [max_succ_one]
    exact left

theorem Inv.left_table (lawful : Lawful kind) (inv : Inv kind listenfd st) {pos : Nat}
    {ready : Ready} {slot : Slot}
    (round : st.round = some (pos + 1, ready)) (found : st.slots[pos + 1]? = some slot)
    (used : kind.fd slot ≠ defaultfd) (isReady : kind.isReady ready slot = true) :
    Inv kind listenfd { st with
      slots := st.slots.set (pos + 1) kind.free
      round := some (pos + 1 + 1, ready)
      calls := .closed (kind.fd slot) :: .received (kind.fd slot) :: st.calls } := by
  have left := inv.left_client round found used isReady
  obtain ⟨first, rest, shape, listens, held⟩ := inv.table
  rw [shape, List.getElem?_cons_succ] at found
  obtain ⟨front, back, rfl, position⟩ := split_of_getElem? found
  have freed : (front ++ slot :: back).set pos kind.free = front ++ kind.free :: back := by
    rw [← position, List.set_append_right _ _ (Nat.le_refl _), Nat.sub_self, List.set_cons_zero]
  have sublist : List.Sublist ((live st.calls).erase (kind.fd slot)) (live st.calls) :=
    List.erase_sublist
  refine ⟨inv.defined, List.length_set.trans inv.size, ⟨first, front ++ kind.free :: back, ?_,
    listens, ?_⟩, inv.distinct.sublist (sublist.cons_cons listenfd), ?_, ?_, inv.once, ?_, ?_⟩
  · dsimp only
    rw [shape, List.set_cons_succ, freed]
  · show (occupied kind (front ++ kind.free :: back)).Perm
      ((live st.calls).erase (kind.fd slot))
    rw [occupied_append, occupied_cons used] at held
    rw [occupied_append, occupied_cons_free lawful.fd_free]
    have erased := (List.perm_middle.symm.trans held).erase (kind.fd slot)
    rw [List.erase_cons_head] at erased
    exact erased
  · intro fd member
    exact inv.valid fd ((sublist.cons_cons listenfd).subset member)
  · intro other member
    rcases List.mem_or_eq_of_mem_set member with before | rfl
    · exact inv.tidy other before
    · exact lawful.tidy_free
  · intro ready' later
    cases later
  · intro pos' ready' later
    cases later
    dsimp only
    rw [max_succ_one, List.drop_set_of_lt (by omega)]
    exact left

theorem Inv.visit (lawful : Lawful kind) (inv : Inv kind listenfd st) {pos : Nat}
    {ready : Ready} {slot : Slot} {outcome : Int} (round : st.round = some (pos, ready))
    (found : st.slots[pos]? = some slot)
    (inRange : kind.fd slot ≠ defaultfd → kind.inRange slot = true)
    (visited : SlotTable.visit kind listenfd outcome pos ready slot st = some after) :
    Inv kind listenfd { after with round := some (pos + 1, ready) } := by
  unfold SlotTable.visit at visited
  split at visited
  · rename_i free
    cases visited
    exact inv.passed round found (.inr (.inl free))
  · rename_i used
    rw [if_neg (by rw [inRange used]; exact Bool.false_ne_true ∘ Eq.symm)] at visited
    split at visited
    · rename_i isReady
      split at visited
      · rename_i listens
        obtain rfl : pos = 0 := (inv.first_iff found).mp listens
        split at visited
        · cases visited
        · rename_i new
          cases visited
          unfold accepter
          split
          · rename_i valid
            cases placed : place kind outcome st.slots with
            | none => exact (inv.passed round found (.inl rfl)).refused
            | some slots => exact inv.entered lawful round valid new placed
          · exact inv.passed round found (.inl rfl)
      · rename_i client
        cases visited
        cases pos with
        | zero => exact absurd ((inv.first_iff found).mpr rfl) client
        | succ pos =>
            unfold recver
            split
            · exact inv.received round found used isReady
            · exact inv.left_table lawful round found used isReady
    · rename_i notReady
      cases visited
      rw [Bool.not_eq_true] at notReady
      exact inv.passed round found (.inr (.inr notReady))

/-! ## Every run -/

theorem current_eq {pos : Nat} {ready : Ready} {slot : Slot}
    (here : current st = some (pos, ready, slot)) :
    st.round = some (pos, ready) ∧ st.slots[pos]? = some slot := by
  unfold current at here
  cases round : st.round with
  | none =>
      rw [round] at here
      cases here
  | some place =>
      rw [round] at here
      obtain ⟨slot', found, same⟩ := Option.map_eq_some_iff.mp here
      cases same
      exact ⟨rfl, found⟩

theorem step_visit {outcome : Int}
    (stepped : step kind listenfd st (.visit outcome) = some after) :
    ∃ pos ready slot visited, current st = some (pos, ready, slot) ∧
      visit kind listenfd outcome pos ready slot st = some visited ∧
        after = { visited with round := some (pos + 1, ready) } := by
  simp only [step] at stepped
  split at stepped
  · cases stepped
  · cases here : current st with
    | none =>
        rw [here] at stepped
        cases stepped
    | some place =>
        obtain ⟨pos, ready, slot⟩ := place
        rw [here] at stepped
        obtain ⟨visited, ran, rfl⟩ := Option.map_eq_some_iff.mp stepped
        exact ⟨pos, ready, slot, visited, rfl, ran, rfl⟩

theorem step_wait {answer : Option Report}
    (stepped : step kind listenfd st (.wait answer) = some after) :
    wait kind listenfd answer st = some after := by
  simp only [step] at stepped
  split at stepped
  · cases stepped
  · exact stepped

theorem all_in_range : (st.slots.all fun slot => kind.fd slot = defaultfd || kind.inRange slot) =
      true ↔ ∀ slot ∈ st.slots, kind.fd slot ≠ defaultfd → kind.inRange slot = true := by
  simp [or_iff_not_imp_left]

theorem Inv.step (lawful : Lawful kind) (inv : Inv kind listenfd st) {event : Event Report}
    (inRange : InRange kind st event)
    (stepped : SlotTable.step kind listenfd st event = some after) : Inv kind listenfd after := by
  cases event with
  | wait answer =>
      have waited := step_wait stepped
      unfold SlotTable.wait at waited
      rw [if_pos (all_in_range.mpr inRange)] at waited
      cases answer with
      | none =>
          cases waited
          exact inv.nothing
      | some report =>
          dsimp only at waited
          cases received : kind.receive report st.slots with
          | none =>
              rw [received] at waited
              cases waited
          | some answered =>
              rw [received] at waited
              cases waited
              exact inv.answered lawful received
  | visit outcome =>
      obtain ⟨pos, ready, slot, visited, here, ran, rfl⟩ := step_visit stepped
      obtain ⟨round, found⟩ := current_eq here
      exact inv.visit lawful round found (inRange pos ready slot here) ran

theorem undefined_of_not_inRange {event : Event Report} (outside : ¬ InRange kind st event)
    (stepped : step kind listenfd st event = some after) : after.undefined = true := by
  cases event with
  | wait answer =>
      have waited := step_wait stepped
      unfold wait at waited
      rw [if_neg (all_in_range.not.mpr outside)] at waited
      cases waited
      rfl
  | visit outcome =>
      obtain ⟨pos, ready, slot, visited, here, ran, rfl⟩ := step_visit stepped
      have shown : kind.fd slot ≠ defaultfd ∧ kind.inRange slot = false := by
        by_contra fine
        apply outside
        intro pos' ready' slot' here' used
        rw [here] at here'
        cases here'
        rw [not_and, Bool.not_eq_false] at fine
        exact fine used
      unfold visit at ran
      rw [if_neg shown.1, if_pos shown.2] at ran
      cases ran
      rfl

/-- What the invariant gives, and what needs that nothing undefined has happened, holds in
every state of a run exactly if no descriptor outside the range is given to the kernel or
looked up. -/
theorem always_iff_in_range (lawful : Lawful kind) (valid : 0 ≤ listenfd)
    {Good : State Slot Ready → Prop} (good : ∀ st, Inv kind listenfd st → Good st)
    (defined : ∀ st, Good st → st.undefined = false) {events : List (Event Report)}
    {last : State Slot Ready}
    (ran : play (step kind listenfd) (start kind listenfd) events = some last) :
    Always (step kind listenfd) Good (start kind listenfd) events ↔
      Throughout (step kind listenfd) (InRange kind) (start kind listenfd) events := by
  refine always_iff_throughout (Inv kind listenfd) good
    (fun _ _ _ inv inRange stepped => inv.step lawful inRange stepped) ?_
    (inv_start lawful valid) ran
  intro st event after inv outside stepped reached
  have undefined := undefined_of_not_inRange outside stepped
  rw [defined after reached] at undefined
  cases undefined

theorem refuses_when_full (st : State Slot Ready) (event : Event Report) :
    RefusesWhenFull kind listenfd st event := by
  cases event with
  | wait answer => exact trivial
  | visit sockfd =>
      intro pos ready slot after here listens isReady valid full inRange stepped
      obtain ⟨pos', ready', slot', visited, here', ran, rfl⟩ := step_visit stepped
      rw [here] at here'
      cases here'
      have used := full slot (List.mem_of_getElem? (current_eq here).2)
      unfold visit at ran
      rw [if_neg used, if_neg (by rw [inRange]; exact Bool.false_ne_true ∘ Eq.symm),
        if_pos isReady, if_pos listens] at ran
      split at ran
      · cases ran
      · cases ran
        rw [accepter, if_pos valid, place_eq_none full]
        exact ⟨rfl, rfl⟩

end LinuxSystemLearning.SlotTable
