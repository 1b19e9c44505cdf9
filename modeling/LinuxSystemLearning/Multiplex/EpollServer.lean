import LinuxSystemLearning.Multiplex.SlotTable

/-!
# `EpollServer`

The server has no table of its own: the descriptors are in the kernel's interest list, and
the loop of `Dispatcher` goes through the entries that `epoll_wait` has put into `_recvs`.
A connection is entered with `EPOLL_CTL_ADD` and, at its end, taken out with `EPOLL_CTL_DEL`
and closed.  When `EPOLL_CTL_ADD` fails the connection stays open and nobody waits for it.
-/

set_option autoImplicit false

namespace LinuxSystemLearning.EpollServer

open LinuxSystemLearning.Interleaving
open LinuxSystemLearning.SlotTable (Call live served)

/-! ## The code -/

def size : Nat := 64

abbrev Events := BitVec 32

def epollin : Events := 1

/-- An entry of `_recvs`: `data.fd` and `events`. -/
structure EpollEvent where
  fd : Int
  events : Events

def EpollEvent.isIn (entry : EpollEvent) : Bool := entry.events &&& epollin != 0

/-- `recvs` are the entries that the loop of `Dispatcher` has still to visit.  `calls`, the
last one in front, and `forgotten`, the connections accepted and not entered, are only
recorded. -/
structure State where
  interest : List Int
  recvs : List EpollEvent
  calls : List Call
  forgotten : List Int

inductive Event where
  /-- `epoll_wait` returns with these entries, with none on a timeout or a failure. -/
  | wait (answer : List EpollEvent)
  /-- The visit of one entry: what the `accept` or the `recv` there returns, and whether the
  kernel has room for one descriptor more. -/
  | visit (outcome : Int) (room : Bool)

def epollCtlAdd (fd : Int) (room : Bool) (interest : List Int) : Option (List Int) :=
  if room && fd ∉ interest then some (fd :: interest) else none

def epollCtlDel (fd : Int) (interest : List Int) : List Int := interest.erase fd

def Answers (interest : List Int) (answer : List EpollEvent) : Prop :=
  answer.length ≤ size ∧ (answer.map EpollEvent.fd).Nodup ∧
    ∀ entry ∈ answer, entry.fd ∈ interest

instance (interest : List Int) (answer : List EpollEvent) :
    Decidable (Answers interest answer) :=
  inferInstanceAs (Decidable (_ ∧ _))

def start (listenfd : Int) (room : Bool) : State :=
  ⟨(epollCtlAdd listenfd room []).getD [], [], [], []⟩

variable (listenfd : Int)

def accepter (sockfd : Int) (room : Bool) (st : State) : State :=
  if 0 ≤ sockfd then
    match epollCtlAdd sockfd room st.interest with
    | none => { st with
        calls := .accepted sockfd :: st.calls
        forgotten := sockfd :: st.forgotten }
    | some interest => { st with
        interest := interest
        calls := .accepted sockfd :: st.calls }
  else st

def recver (n sockfd : Int) (st : State) : State :=
  if 0 < n then { st with calls := .received sockfd :: st.calls }
  else { st with
    interest := epollCtlDel sockfd st.interest
    calls := .closed sockfd :: .received sockfd :: st.calls }

/-- The body of the loop of `Dispatcher`.  The kernel gives no descriptor to a connection
that is open. -/
def visit (outcome : Int) (room : Bool) (entry : EpollEvent) (st : State) : Option State :=
  if entry.isIn then
    if entry.fd = listenfd then
      if outcome ∈ listenfd :: live st.calls then none else some (accepter outcome room st)
    else some (recver outcome entry.fd st)
  else some st

def step (st : State) : Event → Option State
  | .wait answer =>
      if st.recvs.isEmpty && Answers st.interest answer then
        some { st with recvs := answer, calls := .waited :: st.calls }
      else none
  | .visit outcome room =>
      match st.recvs with
      | [] => none
      | entry :: recvs => visit listenfd outcome room entry { st with recvs := recvs }

/-! ## What a step does -/

/-- A visit at the listening socket accepts, one at a client receives. -/
inductive Stepped (st : State) : Event → State → Prop where
  | wait (answer : List EpollEvent) (finished : st.recvs = [])
      (answers : Answers st.interest answer) :
      Stepped st (.wait answer) { st with recvs := answer, calls := .waited :: st.calls }
  | passed (entry : EpollEvent) (recvs : List EpollEvent) (here : st.recvs = entry :: recvs)
      (quiet : entry.isIn = false) (outcome : Int) (room : Bool) :
      Stepped st (.visit outcome room) { st with recvs := recvs }
  | missed (entry : EpollEvent) (recvs : List EpollEvent) (here : st.recvs = entry :: recvs)
      (isIn : entry.isIn = true) (listens : entry.fd = listenfd) (outcome : Int)
      (failed : ¬ 0 ≤ outcome) (room : Bool) :
      Stepped st (.visit outcome room) { st with recvs := recvs }
  | entered (entry : EpollEvent) (recvs : List EpollEvent) (here : st.recvs = entry :: recvs)
      (isIn : entry.isIn = true) (listens : entry.fd = listenfd) (sockfd : Int)
      (valid : 0 ≤ sockfd) (new : sockfd ∉ listenfd :: live st.calls) (room : Bool)
      (added : epollCtlAdd sockfd room st.interest = some (sockfd :: st.interest))
      (unwatched : sockfd ∉ st.interest) :
      Stepped st (.visit sockfd room) { st with
        interest := sockfd :: st.interest
        recvs := recvs
        calls := .accepted sockfd :: st.calls }
  | forgotten (entry : EpollEvent) (recvs : List EpollEvent)
      (here : st.recvs = entry :: recvs) (isIn : entry.isIn = true)
      (listens : entry.fd = listenfd) (sockfd : Int) (valid : 0 ≤ sockfd)
      (new : sockfd ∉ listenfd :: live st.calls) (room : Bool)
      (refused : epollCtlAdd sockfd room st.interest = none) :
      Stepped st (.visit sockfd room) { st with
        recvs := recvs
        calls := .accepted sockfd :: st.calls
        forgotten := sockfd :: st.forgotten }
  | received (entry : EpollEvent) (recvs : List EpollEvent)
      (here : st.recvs = entry :: recvs) (isIn : entry.isIn = true)
      (client : entry.fd ≠ listenfd) (n : Int) (more : 0 < n) (room : Bool) :
      Stepped st (.visit n room)
        { st with recvs := recvs, calls := .received entry.fd :: st.calls }
  | finished (entry : EpollEvent) (recvs : List EpollEvent)
      (here : st.recvs = entry :: recvs) (isIn : entry.isIn = true)
      (client : entry.fd ≠ listenfd) (n : Int) (ended : ¬ 0 < n) (room : Bool) :
      Stepped st (.visit n room) { st with
        interest := st.interest.erase entry.fd
        recvs := recvs
        calls := .closed entry.fd :: .received entry.fd :: st.calls }

variable {listenfd} {st after : State}

theorem stepped_accepter {entry : EpollEvent} {recvs : List EpollEvent}
    (here : st.recvs = entry :: recvs) (isIn : entry.isIn = true) (listens : entry.fd = listenfd)
    {sockfd : Int} (new : sockfd ∉ listenfd :: live st.calls) (room : Bool) :
    Stepped listenfd st (.visit sockfd room)
      (accepter sockfd room { st with recvs := recvs }) := by
  unfold accepter
  split
  · rename_i valid
    dsimp only
    by_cases added : (room && decide (sockfd ∉ st.interest)) = true
    · have entered : epollCtlAdd sockfd room st.interest = some (sockfd :: st.interest) :=
        if_pos added
      have unwatched := of_decide_eq_true (Bool.and_eq_true_iff.mp added).2
      rw [entered]
      exact .entered entry recvs here isIn listens sockfd valid new room entered unwatched
    · have refused : epollCtlAdd sockfd room st.interest = none := if_neg added
      rw [refused]
      exact .forgotten entry recvs here isIn listens sockfd valid new room refused
  · rename_i failed
    exact .missed entry recvs here isIn listens sockfd failed room

theorem stepped_of_step {event : Event} (stepped : step listenfd st event = some after) :
    Stepped listenfd st event after := by
  cases event with
  | wait answer =>
      simp only [step] at stepped
      split at stepped
      · rename_i may
        obtain ⟨finished, answers⟩ := Bool.and_eq_true_iff.mp may
        cases stepped
        exact .wait answer (List.isEmpty_iff.mp finished) (of_decide_eq_true answers)
      · cases stepped
  | visit outcome room =>
      simp only [step] at stepped
      split at stepped
      · cases stepped
      · rename_i entry recvs here
        unfold visit at stepped
        split at stepped
        · rename_i isIn
          split at stepped
          · rename_i listens
            split at stepped
            · cases stepped
            · rename_i new
              cases stepped
              exact stepped_accepter here isIn listens new room
          · rename_i client
            cases stepped
            unfold recver epollCtlDel
            split
            · rename_i more
              exact .received entry recvs here isIn client outcome more room
            · rename_i ended
              exact .finished entry recvs here isIn client outcome ended room
        · rename_i quiet
          cases stepped
          exact .passed entry recvs here (Bool.not_eq_true _ ▸ quiet) outcome room

/-! ## The interest list -/

/-- The listening socket and the connections that are open are watched, but for those that
were not entered; whoever is still to be visited is watched. -/
structure Inv (listenfd : Int) (listening : Bool) (st : State) : Prop where
  interest : ∀ fd, fd ∈ st.interest ↔
    (fd = listenfd ∧ listening = true) ∨ (fd ∈ live st.calls ∧ fd ∉ st.forgotten)
  once : st.interest.Nodup
  distinct : (listenfd :: live st.calls).Nodup
  forgotten : ∀ fd ∈ st.forgotten, fd ∈ live st.calls
  entries : (st.recvs.map EpollEvent.fd).Nodup
  watched : ∀ entry ∈ st.recvs, entry.fd ∈ st.interest

theorem inv_start (listening : Bool) : Inv listenfd listening (start listenfd listening) where
  interest fd := by
    cases listening with
    | false => simp [start, epollCtlAdd, live]
    | true => simp [start, epollCtlAdd, live]
  once := by
    cases listening with
    | false => exact List.nodup_nil
    | true => exact List.nodup_singleton listenfd
  distinct := List.nodup_singleton listenfd
  forgotten _ member := absurd member List.not_mem_nil
  entries := List.nodup_nil
  watched _ member := absurd member List.not_mem_nil

variable {listening : Bool}

theorem Inv.passed (inv : Inv listenfd listening st) {entry : EpollEvent}
    {recvs : List EpollEvent} (here : st.recvs = entry :: recvs) :
    Inv listenfd listening { st with recvs := recvs } := by
  have entries := inv.entries
  have watched := inv.watched
  rw [here] at entries watched
  exact ⟨inv.interest, inv.once, inv.distinct, inv.forgotten, (List.nodup_cons.mp entries).2,
    fun other member => watched other (List.mem_cons_of_mem entry member)⟩

theorem Inv.stepped (inv : Inv listenfd listening st) {event : Event}
    (stepped : Stepped listenfd st event after) : Inv listenfd listening after := by
  have entries := inv.entries
  have watched := inv.watched
  have distinct := inv.distinct
  cases stepped with
  | wait answer finished answers =>
      exact ⟨inv.interest, inv.once, distinct, inv.forgotten, answers.2.1, answers.2.2⟩
  | passed entry recvs here quiet outcome room => exact inv.passed here
  | missed entry recvs here isIn listens outcome failed room => exact inv.passed here
  | entered entry recvs here isIn listens sockfd valid new room added unwatched =>
      rw [here] at entries watched
      rw [List.mem_cons, not_or] at new
      refine ⟨?_, List.nodup_cons.mpr ⟨unwatched, inv.once⟩, ?_, ?_,
        (List.nodup_cons.mp entries).2, ?_⟩
      · intro fd
        rw [List.mem_cons, inv.interest, live, List.mem_cons, or_left_comm]
        have unknown : sockfd ∉ st.forgotten := fun member => new.2 (inv.forgotten _ member)
        constructor
        · rintro (isListener | isNew | before)
          · exact .inl isListener
          · exact .inr ⟨.inl isNew, isNew ▸ unknown⟩
          · exact .inr ⟨.inr before.1, before.2⟩
        · rintro (isListener | ⟨isNew | before, known⟩)
          · exact .inl isListener
          · exact .inr (.inl isNew)
          · exact .inr (.inr ⟨before, known⟩)
      · rw [live, List.nodup_cons, List.mem_cons, not_or, List.nodup_cons]
        have apart := List.nodup_cons.mp distinct
        exact ⟨⟨Ne.symm new.1, apart.1⟩, new.2, apart.2⟩
      · intro fd member
        exact List.mem_cons_of_mem sockfd (inv.forgotten fd member)
      · intro other member
        exact List.mem_cons_of_mem sockfd (watched other (List.mem_cons_of_mem entry member))
  | forgotten entry recvs here isIn listens sockfd valid new room refused =>
      rw [here] at entries watched
      rw [List.mem_cons, not_or] at new
      have apart := List.nodup_cons.mp distinct
      refine ⟨?_, inv.once, ?_, ?_, (List.nodup_cons.mp entries).2,
        fun other member => watched other (List.mem_cons_of_mem entry member)⟩
      · intro fd
        rw [inv.interest, live, List.mem_cons, List.mem_cons, not_or]
        constructor
        · rintro (isListener | ⟨isLive, known⟩)
          · exact .inl isListener
          · exact .inr ⟨.inr isLive, fun isNew => new.2 (isNew ▸ isLive), known⟩
        · rintro (isListener | ⟨isNew | isLive, different, known⟩)
          · exact .inl isListener
          · exact absurd isNew different
          · exact .inr ⟨isLive, known⟩
      · rw [live, List.nodup_cons, List.mem_cons, not_or, List.nodup_cons]
        exact ⟨⟨Ne.symm new.1, apart.1⟩, new.2, apart.2⟩
      · intro fd member
        rcases List.mem_cons.mp member with isNew | before
        · exact isNew ▸ List.mem_cons_self
        · exact List.mem_cons_of_mem sockfd (inv.forgotten fd before)
  | received entry recvs here isIn client n more room =>
      have passed := inv.passed here
      exact ⟨passed.interest, passed.once, passed.distinct, passed.forgotten, passed.entries,
        passed.watched⟩
  | finished entry recvs here isIn client n ended room =>
      rw [here] at entries watched
      have apart := List.nodup_cons.mp distinct
      have isLive : entry.fd ∈ live st.calls ∧ entry.fd ∉ st.forgotten :=
        ((inv.interest entry.fd).mp (watched entry List.mem_cons_self)).resolve_left
          fun isListener => client isListener.1
      have same : live (.closed entry.fd :: .received entry.fd :: st.calls) =
        (live st.calls).erase entry.fd := rfl
      refine ⟨?_, inv.once.erase _, ?_, ?_, (List.nodup_cons.mp entries).2, ?_⟩
      · intro fd
        rw [same, inv.once.mem_erase_iff, apart.2.mem_erase_iff, inv.interest]
        constructor
        · rintro ⟨different, isListener | before⟩
          · exact .inl isListener
          · exact .inr ⟨⟨different, before.1⟩, before.2⟩
        · rintro (isListener | ⟨⟨different, before⟩, known⟩)
          · exact ⟨fun isEntry => client (isEntry ▸ isListener.1), .inl isListener⟩
          · exact ⟨different, .inr ⟨before, known⟩⟩
      · rw [same]
        exact List.nodup_cons.mpr ⟨fun member => apart.1 (List.mem_of_mem_erase member),
          apart.2.erase _⟩
      · intro fd member
        rw [same, apart.2.mem_erase_iff]
        exact ⟨fun isEntry => isLive.2 (isEntry ▸ member), inv.forgotten fd member⟩
      · intro other member
        rw [inv.once.mem_erase_iff]
        refine ⟨?_, watched other (List.mem_cons_of_mem entry member)⟩
        intro isEntry
        exact (List.nodup_cons.mp entries).1 (isEntry ▸ List.mem_map_of_mem member)

theorem reachable_inv (reached : Reachable (step listenfd) (start listenfd listening) st) :
    Inv listenfd listening st :=
  reached.invariant (Inv listenfd listening)
    (fun _ _ _ inv stepped => inv.stepped (stepped_of_step stepped)) (inv_start listening)

/-! ## Connections that nobody waits for -/

theorem forgotten_suffix {later : State} (reached : Reachable (step listenfd) st later) :
    st.forgotten <:+ later.forgotten := by
  refine reached.invariant (fun later => st.forgotten <:+ later.forgotten) ?_
    (List.suffix_refl _)
  intro before event after grown stepped
  cases stepped_of_step stepped with
  | wait => exact grown
  | passed => exact grown
  | missed => exact grown
  | entered => exact grown
  | forgotten _ _ _ _ _ sockfd => exact grown.trans (List.suffix_cons sockfd _)
  | received => exact grown
  | finished => exact grown

/-- The kernel has room for the connection when it is accepted. -/
def HasRoom (listenfd : Int) (st : State) : Event → Prop
  | .wait _ => True
  | .visit outcome room => ∀ entry recvs, st.recvs = entry :: recvs → entry.isIn = true →
      entry.fd = listenfd → 0 ≤ outcome → room = true

theorem hasRoom_visit {entry : EpollEvent} {recvs : List EpollEvent}
    (here : st.recvs = entry :: recvs) (outcome : Int) (room : Bool) :
    HasRoom listenfd st (.visit outcome room) ↔
      (entry.isIn = true → entry.fd = listenfd → 0 ≤ outcome → room = true) := by
  simp only [HasRoom, here, List.cons.injEq, and_imp]
  exact ⟨fun met => met entry recvs rfl rfl, fun met _ _ same _ => same ▸ met⟩

theorem Inv.forgotten_iff (inv : Inv listenfd listening st) {event : Event}
    (stepped : step listenfd st event = some after) :
    HasRoom listenfd st event ↔ after.forgotten = st.forgotten := by
  cases stepped_of_step stepped with
  | wait => exact ⟨fun _ => rfl, fun _ => trivial⟩
  | passed entry recvs here quiet outcome room =>
      rw [hasRoom_visit here, quiet]
      exact ⟨fun _ => rfl, fun _ impossible => by cases impossible⟩
  | missed entry recvs here isIn listens outcome failed room =>
      rw [hasRoom_visit here]
      exact ⟨fun _ => rfl, fun _ _ _ valid => absurd valid failed⟩
  | entered entry recvs here isIn listens sockfd valid new room added unwatched =>
      rw [hasRoom_visit here]
      refine ⟨fun _ => rfl, fun _ _ _ _ => ?_⟩
      cases room with
      | true => rfl
      | false => cases added
  | forgotten entry recvs here isIn listens sockfd valid new room refused =>
      rw [hasRoom_visit here]
      have unwatched : sockfd ∉ st.interest := by
        rw [List.mem_cons, not_or] at new
        intro watched
        rcases (inv.interest sockfd).mp watched with isListener | isLive
        · exact new.1 isListener.1
        · exact new.2 isLive.1
      have noRoom : room = false := by
        simpa [epollCtlAdd, unwatched] using refused
      simp [isIn, listens, valid, noRoom]
  | received entry recvs here isIn client n more room =>
      rw [hasRoom_visit here]
      exact ⟨fun _ => rfl, fun _ _ listens => absurd listens client⟩
  | finished entry recvs here isIn client n ended room =>
      rw [hasRoom_visit here]
      exact ⟨fun _ => rfl, fun _ _ listens => absurd listens client⟩

theorem forgotten_nil_iff {events : List Event} {last : State}
    (ran : play (step listenfd) (start listenfd listening) events = some last) :
    last.forgotten = [] ↔
      Throughout (step listenfd) (HasRoom listenfd) (start listenfd listening) events := by
  constructor
  · intro nobody
    by_contra breach
    refine bad_of_not_throughout (Inv listenfd listening) (fun st => st.forgotten ≠ [])
      (fun _ _ _ inv stepped => inv.stepped (stepped_of_step stepped)) ?_ ?_
      (inv_start listening) ran breach nobody
    · intro st event after inv noRoom stepped nothing
      have grown := forgotten_suffix (.single stepped)
      rw [nothing, List.suffix_nil] at grown
      exact noRoom ((inv.forgotten_iff stepped).mpr (nothing.trans grown.symm))
    · intro st event after somebody stepped nothing
      have grown := forgotten_suffix (.single stepped)
      rw [nothing, List.suffix_nil] at grown
      exact somebody grown
  · intro met
    refine (invariant_throughout (fun st => Inv listenfd listening st ∧ st.forgotten = []) ?_
      ⟨inv_start listening, rfl⟩ ran met).2
    intro st event after held room stepped
    exact ⟨held.1.stepped (stepped_of_step stepped),
      ((held.1.forgotten_iff stepped).mp room).trans held.2⟩

/-- The kernel watches the listening socket and every connection that is open, except those
it had no room for when they were accepted; an entry of a round that is still to be visited
is of a connection that is watched.  A connection there was no room for stays open for ever
and is never waited for. -/
theorem interest_is_what_is_open {events : List Event} {last : State}
    (ran : play (step listenfd) (start listenfd listening) events = some last) :
    (∀ fd, fd ∈ last.interest ↔ (fd = listenfd ∧ listening = true) ∨
        (fd ∈ live last.calls ∧ fd ∉ last.forgotten)) ∧
      (∀ entry ∈ last.recvs, entry.fd ∈ last.interest) ∧
      (last.forgotten = [] ↔
        Throughout (step listenfd) (HasRoom listenfd) (start listenfd listening) events) ∧
      ∀ later, Reachable (step listenfd) last later → ∀ fd ∈ last.forgotten,
        fd ∈ live later.calls ∧ fd ∉ later.interest := by
  have inv : Inv listenfd listening last := reachable_inv ⟨events, ran⟩
  refine ⟨inv.interest, inv.watched, forgotten_nil_iff ran, ?_⟩
  intro later reached fd member
  have inv' : Inv listenfd listening later :=
    reachable_inv (Reachable.trans ⟨events, ran⟩ reached)
  have still := (forgotten_suffix reached).subset member
  have isLive := inv'.forgotten fd still
  refine ⟨isLive, fun watched => ?_⟩
  rcases (inv'.interest fd).mp watched with isListener | known
  · exact (List.nodup_cons.mp inv'.distinct).1 (isListener.1 ▸ isLive)
  · exact known.2 still

/-- The second connection finds no room. -/
theorem interest_is_what_is_open_no_room :
    ∃ last : State, last.interest = [5, 3] ∧ last.forgotten = [6] ∧
      ∀ later, Reachable (step 3) last later → ∀ fd ∈ last.forgotten,
        fd ∈ live later.calls ∧ fd ∉ later.interest := by
  have ran : play (step 3) (start 3 true)
      [.wait [⟨3, 1⟩], .visit 5 true, .wait [⟨3, 1⟩], .visit 6 false] = some _ := rfl
  exact ⟨_, rfl, rfl, (interest_is_what_is_open ran).2.2.2⟩

end LinuxSystemLearning.EpollServer
