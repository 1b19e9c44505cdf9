import LinuxSystemLearning.Chat.Route
import LinuxSystemLearning.Threads.Shutdown

/-!
# From a datagram to its broadcast

`UdpServer::Start` receives datagrams and gives each to the thread pool as a call of
`MessageRoute`.  The workers take the calls off the queue in order and run them at the
same time, so what is broadcast first is decided by which worker is through first.

The server thread is the submitter 0 of the pool.  A datagram is the job of its call,
numbered by when it came in; a call of `MessageRoute` is one step, at its end.
-/

set_option autoImplicit false

namespace LinuxSystemLearning.ChatServer

open LinuxSystemLearning.Cxx
open LinuxSystemLearning.Chat
open LinuxSystemLearning.History
open LinuxSystemLearning.Interleaving
open LinuxSystemLearning.Waiting
open ThreadPool (Job Worker Submitter Stepped Accounted)

/-- `received` are the datagrams that came in so far; nothing in the program looks at
it. -/
structure State where
  pool : ThreadPool.State Call
  users : List InetAddr
  received : List (Job Call)

inductive Event where
  /-- `recvfrom` returns, with nothing or with a datagram. -/
  | recvfrom (outcome : Option (Bytes × SockAddrIn))
  /-- The critical section of `Enqueue`. -/
  | enqueue (woken : List Nat)
  | lock (i : Nat)
  | finish (i : Nat)
  | spurious (i : Nat)

def bufferSize : Nat := 1024

/-- The text a datagram is handed on as: what the array holds up to the first NUL. -/
def datagramText (payload : Bytes) : Bytes := cString (payload.take (bufferSize - 1))

def start (gnum : Nat) : State := ⟨ThreadPool.start gnum 1, [], []⟩

/-- The call the server thread has in hand, past the test of `_is_running`. -/
def pending (pool : ThreadPool.State Call) : List (Job Call) :=
  match pool.submitters[0]? with
  | some (Submitter.checked job) => [job]
  | _ => []

def jobOf : Thread (Worker Call) Unit → Option (Job Call)
  | .awake (.running job) => some job
  | _ => none

variable (sockfd : Int)

/-- One round of the loop of `Start`, up to the mutex in `Enqueue`. -/
def recvfrom (outcome : Option (Bytes × SockAddrIn)) (st : State) : Option State :=
  match outcome with
  | none => some st
  | some ([], _) => some st
  | some (byte :: rest, addr) =>
      let call := ⟨sockfd, datagramText (byte :: rest), .ofSockAddr addr⟩
      match ThreadPool.step st.pool (.check 0 call) with
      | none => none
      | some pool => some { st with
          pool := pool
          received := st.received ++ [⟨st.pool.calls, call⟩] }

def finish (i : Nat) (st : State) : Option State :=
  match (st.pool.threads[i]?).bind jobOf with
  | none => none
  | some job =>
      match ThreadPool.step st.pool (.finish i) with
      | none => none
      | some pool => some { st with
          pool := pool
          users := (messageRoute job.task st.users).1 }

/-- A step of the pool that runs no task. -/
def inPool (event : ThreadPool.Event Call) (st : State) : Option State :=
  match ThreadPool.step st.pool event with
  | none => none
  | some pool => some { st with pool := pool }

def step (st : State) : Event → Option State
  | .recvfrom outcome => recvfrom sockfd outcome st
  | .enqueue woken => inPool (.enqueue 0 woken) st
  | .lock i => inPool (.lock i) st
  | .finish i => finish i st
  | .spurious i => inPool (.spurious i) st

def State.broadcast (st : State) : List (Job Call) := st.pool.executed

def ofPeer (peer : InetAddr) (jobs : List (Job Call)) : List (Job Call) :=
  jobs.filter fun job => job.task.peer = peer

/-- What was broadcast of the peer came in first, and in this order. -/
def InOrder (peer : InetAddr) (st : State) : Prop :=
  ofPeer peer st.broadcast <+: ofPeer peer st.received

/-- A worker that is through with a message of the peer leaves no earlier one of it to
another worker. -/
def NotOvertaken (peer : InetAddr) (st : State) : Event → Prop
  | .finish i => ∀ job ∈ (st.pool.threads[i]?).bind jobOf, job.task.peer = peer →
      ∀ thread ∈ st.pool.threads, ∀ other ∈ jobOf thread,
        other.task.peer = peer → job.call ≤ other.call
  | _ => True

structure Settled (st : State) : Prop where
  queue : st.pool.taskq = []
  server : pending st.pool = []
  workers : ∀ thread ∈ st.pool.threads, jobOf thread = none

/-! ## Taking a list in order -/

section

variable {α : Type} {key : α → Nat} {whole done : List α} {item other : α}

/-- The first that is left comes next. -/
theorem next_in_order (sorted : whole.Pairwise fun one two => key one < key two)
    (kept : done <+: whole) (member : item ∈ whole) (fresh : item ∉ done)
    (first : ∀ other ∈ whole, other ∉ done → key item ≤ key other) :
    done ++ [item] <+: whole := by
  obtain ⟨left, rfl⟩ := kept
  have inLeft := (List.mem_append.mp member).resolve_left fresh
  obtain ⟨-, ordered, apart⟩ := List.pairwise_append.mp sorted
  cases left with
  | nil => cases inLeft
  | cons head tail =>
      have headFresh : head ∉ done := fun old =>
        absurd (apart head old head List.mem_cons_self) (Nat.lt_irrefl _)
      have least := first head (List.mem_append_right _ List.mem_cons_self) headFresh
      rcases List.mem_cons.mp inLeft with rfl | later
      · exact ⟨tail, List.append_assoc _ _ _⟩
      · have less := (List.pairwise_cons.mp ordered).1 item later
        exact absurd least (Nat.not_le.mpr less)

theorem first_of_next (sorted : whole.Pairwise fun one two => key one < key two)
    (kept : done ++ [item] <+: whole) (member : other ∈ whole) (fresh : other ∉ done) :
    key item ≤ key other := by
  obtain ⟨left, rfl⟩ := kept
  rw [List.append_assoc] at member sorted
  have inLeft := (List.mem_append.mp member).resolve_left fresh
  have ordered := (List.pairwise_append.mp sorted).2.1
  rcases List.mem_cons.mp inLeft with rfl | later
  · exact Nat.le_refl _
  · exact Nat.le_of_lt ((List.pairwise_cons.mp ordered).1 other later)

theorem all_done (sorted : whole.Pairwise fun one two => key one < key two)
    (kept : done <+: whole) (nothing_left : ∀ other ∈ whole, other ∈ done) :
    done = whole := by
  obtain ⟨left, rfl⟩ := kept
  cases left with
  | nil => exact (List.append_nil done).symm
  | cons head tail =>
      have old := nothing_left head (List.mem_append_right _ List.mem_cons_self)
      have less := (List.pairwise_append.mp sorted).2.2 head old head List.mem_cons_self
      exact absurd less (Nat.lt_irrefl _)

end

/-! ## Where a datagram is -/

/-- The datagrams that came in are numbered in order; they are with the server, queued,
in the hands of a worker or broadcast, and the queue is the last part of those pushed. -/
structure Inv (st : State) : Prop where
  accounted : Accounted st.pool
  received : st.received = st.pool.accepted ++ pending st.pool
  numbers : st.received.map Job.call = List.range st.pool.calls
  queued : st.pool.taskq <:+ st.pool.accepted
  running : st.pool.isRunning = true
  users : st.users = onlineUser (st.broadcast.map Job.task)

variable {sockfd} {st after : State} {peer : InetAddr}

theorem Inv.sorted (inv : Inv st) :
    st.received.Pairwise fun one two => one.call < two.call := by
  have ordered := List.pairwise_lt_range (n := st.pool.calls)
  rw [← inv.numbers, List.pairwise_map] at ordered
  exact ordered

theorem Inv.sorted_ofPeer (inv : Inv st) (peer : InetAddr) :
    (ofPeer peer st.received).Pairwise fun one two => one.call < two.call :=
  inv.sorted.filter _

theorem doing_pos {pool : ThreadPool.State Call} {thread : Thread (Worker Call) Unit}
    {job : Job Call} (member : thread ∈ pool.threads) (inHand : jobOf thread = some job) :
    0 < doing (Worker.runs job) pool.threads := by
  refine List.countP_pos_iff.mpr ⟨thread, member, ?_⟩
  cases thread with
  | awake worker =>
      cases worker with
      | running other =>
          cases inHand
          exact beq_self_eq_true job
      | locking => cases inHand
      | exited => cases inHand
  | blocked _ => cases inHand
  | woken _ => cases inHand

theorem exists_of_doing_pos {pool : ThreadPool.State Call} {job : Job Call}
    (positive : 0 < doing (Worker.runs job) pool.threads) :
    ∃ thread ∈ pool.threads, jobOf thread = some job := by
  obtain ⟨thread, member, runs⟩ := List.countP_pos_iff.mp positive
  refine ⟨thread, member, ?_⟩
  cases thread with
  | awake worker =>
      cases worker with
      | running other => exact congrArg some (eq_of_beq runs)
      | locking => cases runs
      | exited => cases runs
  | blocked _ => cases runs
  | woken _ => cases runs

theorem Inv.somewhere (inv : Inv st) {job : Job Call} (member : job ∈ st.received) :
    job ∈ st.broadcast ∨ (∃ thread ∈ st.pool.threads, jobOf thread = some job) ∨
      job ∈ st.pool.taskq ++ pending st.pool := by
  rw [inv.received] at member
  rcases List.mem_append.mp member with accepted | inServer
  · have conserved := inv.accounted.conserved job
    have positive := List.count_pos_iff.mpr accepted
    by_cases queued : job ∈ st.pool.taskq
    · exact .inr (.inr (List.mem_append_left _ queued))
    · by_cases broadcast : job ∈ st.broadcast
      · exact .inl broadcast
      · have none_done : st.pool.executed.count job = 0 := List.count_eq_zero.mpr broadcast
        rw [List.count_eq_zero.mpr queued, none_done] at conserved
        exact .inr (.inl (exists_of_doing_pos (by omega)))
  · exact .inr (.inr (List.mem_append_right _ inServer))

/-- What a worker has in hand came in, is not broadcast, and is in front of what is
queued. -/
theorem Inv.inHand (inv : Inv st) {thread : Thread (Worker Call) Unit} {job : Job Call}
    (member : thread ∈ st.pool.threads) (inHand : jobOf thread = some job) :
    job ∈ st.received ∧ job ∉ st.broadcast ∧
      ∀ other ∈ st.pool.taskq ++ pending st.pool, job.call < other.call := by
  have conserved := inv.accounted.conserved job
  have once := (inv.accounted.once job).1
  have positive := doing_pos member inHand
  have accepted : job ∈ st.pool.accepted := List.count_pos_iff.mp (by omega)
  have notQueued : job ∉ st.pool.taskq := List.count_eq_zero.mp (by omega)
  have notBroadcast : job ∉ st.broadcast := List.count_eq_zero.mp (by
    show st.pool.executed.count job = 0
    omega)
  obtain ⟨taken, split⟩ := inv.queued
  have inTaken : job ∈ taken := by
    rw [← split] at accepted
    exact (List.mem_append.mp accepted).resolve_right notQueued
  have shape : st.received = taken ++ (st.pool.taskq ++ pending st.pool) := by
    rw [inv.received, ← split, List.append_assoc]
  have sorted := inv.sorted
  rw [shape] at sorted
  refine ⟨shape ▸ List.mem_append_left _ inTaken, notBroadcast, ?_⟩
  exact fun other later => (List.pairwise_append.mp sorted).2.2 job inTaken other later

/-! ## What a step does -/

theorem inPool_eq {event : ThreadPool.Event Call} (ran : inPool event st = some after) :
    ∃ pool, Stepped st.pool event pool ∧ after = { st with pool := pool } := by
  unfold inPool at ran
  split at ran
  · cases ran
  · rename_i pool stepped
    cases ran
    exact ⟨pool, ThreadPool.stepped_of_step stepped, rfl⟩

theorem finish_eq {i : Nat} (ran : finish i st = some after) :
    ∃ job pool, st.pool.threads[i]? = some (.awake (.running job)) ∧
      pool = { st.pool with
        threads := st.pool.threads.set i (.awake .locking)
        executed := st.pool.executed ++ [job] } ∧
      after = { st with pool := pool, users := (messageRoute job.task st.users).1 } := by
  unfold finish at ran
  split at ran
  · cases ran
  · rename_i job inHand
    split at ran
    · cases ran
    · rename_i pool stepped
      cases ran
      cases ThreadPool.stepped_of_step stepped with
      | finished _ job' found =>
          rw [found] at inHand
          cases inHand
          exact ⟨job, _, found, rfl, rfl⟩
      | woken _ only => exact only.elim

theorem recvfrom_eq {outcome : Option (Bytes × SockAddrIn)}
    (ran : recvfrom sockfd outcome st = some after) :
    after = st ∨ ∃ call pool, Stepped st.pool (.check 0 call) pool ∧
      after = { st with pool := pool, received := st.received ++ [⟨st.pool.calls, call⟩] } := by
  unfold recvfrom at ran
  split at ran
  · cases ran
    exact .inl rfl
  · cases ran
    exact .inl rfl
  · dsimp only at ran
    split at ran
    · cases ran
    · rename_i pool stepped
      cases ran
      exact .inr ⟨_, pool, ThreadPool.stepped_of_step stepped, rfl⟩

theorem Inv.recvfrom {outcome : Option (Bytes × SockAddrIn)} (inv : Inv st)
    (ran : ChatServer.recvfrom sockfd outcome st = some after) : Inv after := by
  rcases recvfrom_eq ran with rfl | ⟨call, pool, stepped, rfl⟩
  · exact inv
  · have accounted := inv.accounted.stepped stepped
    cases stepped with
    | checked _ _ found running =>
        have free : pending st.pool = [] := by
          unfold pending
          rw [found]
        refine ⟨accounted, ?_, ?_, inv.queued, running, inv.users⟩
        · have received := inv.received
          rw [free, List.append_nil] at received
          unfold pending
          dsimp only
          rw [getElem?_set_found found, received]
        · dsimp only
          rw [List.map_append, inv.numbers, List.range_succ]
          rfl
    | rejected _ _ stopped =>
        rw [inv.running] at stopped
        cases stopped
    | woken _ only => exact only.elim

theorem Inv.inPool {event : ThreadPool.Event Call} (inv : Inv st)
    (kind : (∃ woken, event = .enqueue 0 woken) ∨ (∃ i, event = .lock i) ∨
      ∃ i, event = .spurious i)
    (ran : ChatServer.inPool event st = some after) : Inv after := by
  obtain ⟨pool, stepped, rfl⟩ := inPool_eq ran
  have accounted := inv.accounted.stepped stepped
  cases stepped with
  | enqueued i job woken threads found notified =>
      obtain rfl : i = 0 := by simpa using kind
      have held : pending st.pool = [job] := by
        unfold pending
        rw [found]
      refine ⟨accounted, ?_, inv.numbers, ?_, inv.running, inv.users⟩
      · unfold pending
        dsimp only
        rw [getElem?_set_found found, inv.received, held, List.append_nil]
      · obtain ⟨taken, split⟩ := inv.queued
        exact ⟨taken, by dsimp only; rw [← split, List.append_assoc]⟩
  | waits => exact ⟨accounted, inv.received, inv.numbers, inv.queued, inv.running, inv.users⟩
  | exits => exact ⟨accounted, inv.received, inv.numbers, inv.queued, inv.running, inv.users⟩
  | takes i thread job rest found enters front =>
      refine ⟨accounted, inv.received, inv.numbers, ?_, inv.running, inv.users⟩
      have queued := inv.queued
      rw [front] at queued
      exact (List.suffix_cons job rest).trans queued
  | woken => exact ⟨accounted, inv.received, inv.numbers, inv.queued, inv.running, inv.users⟩
  | checked => simp at kind
  | rejected => simp at kind
  | finished => simp at kind
  | cleared => simp at kind
  | joined => simp at kind

theorem Inv.finish {i : Nat} (inv : Inv st) (ran : ChatServer.finish i st = some after) :
    Inv after := by
  obtain ⟨job, pool, found, rfl, rfl⟩ := finish_eq ran
  have accounted := inv.accounted.stepped (.finished i job found)
  refine ⟨accounted, inv.received, inv.numbers, inv.queued, inv.running, ?_⟩
  show (messageRoute job.task st.users).1 =
    onlineUser ((st.pool.executed ++ [job]).map Job.task)
  rw [List.map_append, inv.users]
  exact (onlineUser_concat _ _).symm

theorem Inv.step {event : Event} (inv : Inv st)
    (stepped : ChatServer.step sockfd st event = some after) : Inv after := by
  cases event with
  | recvfrom outcome => exact inv.recvfrom stepped
  | enqueue woken => exact inv.inPool (.inl ⟨woken, rfl⟩) stepped
  | lock i => exact inv.inPool (.inr (.inl ⟨i, rfl⟩)) stepped
  | finish i => exact inv.finish stepped
  | spurious i => exact inv.inPool (.inr (.inr ⟨i, rfl⟩)) stepped

theorem ofPeer_append (peer : InetAddr) (one two : List (Job Call)) :
    ofPeer peer (one ++ two) = ofPeer peer one ++ ofPeer peer two :=
  List.filter_append ..

theorem mem_ofPeer {job : Job Call} {jobs : List (Job Call)} :
    job ∈ ofPeer peer jobs ↔ job ∈ jobs ∧ job.task.peer = peer := by
  rw [ofPeer, List.mem_filter, decide_eq_true_eq]

/-- Nothing but the end of a call of `MessageRoute` is a broadcast. -/
theorem broadcast_kept {event : Event} (stepped : step sockfd st event = some after)
    (other : ∀ i, event ≠ .finish i) :
    after.broadcast = st.broadcast ∧ st.received <+: after.received := by
  have kept : ∀ event : ThreadPool.Event Call, inPool event st = some after →
      (∀ i, event ≠ .finish i) → after.broadcast = st.broadcast ∧
        st.received <+: after.received := by
    intro event ran different
    obtain ⟨pool, moved, rfl⟩ := inPool_eq ran
    refine ⟨?_, List.prefix_refl _⟩
    cases moved with
    | finished i _ _ => exact absurd rfl (different i)
    | _ => rfl
  cases event with
  | recvfrom outcome =>
      rcases recvfrom_eq stepped with rfl | ⟨call, pool, checked, rfl⟩
      · exact ⟨rfl, List.prefix_refl _⟩
      · refine ⟨?_, List.prefix_append _ _⟩
        cases checked with
        | checked => rfl
        | rejected => rfl
        | woken => rfl
  | enqueue woken => exact kept (.enqueue 0 woken) stepped (by intro i same; cases same)
  | lock i => exact kept (.lock i) stepped (by intro j same; cases same)
  | finish i => exact absurd rfl (other i)
  | spurious i => exact kept (.spurious i) stepped (by intro j same; cases same)

theorem InOrder.step {event : Event} (inv : Inv st) (inOrder : InOrder peer st)
    (notOvertaken : NotOvertaken peer st event)
    (stepped : ChatServer.step sockfd st event = some after) : InOrder peer after := by
  by_cases ends : ∃ i, event = .finish i
  · obtain ⟨i, rfl⟩ := ends
    obtain ⟨job, pool, found, rfl, rfl⟩ := finish_eq stepped
    show ofPeer peer (st.pool.executed ++ [job]) <+: ofPeer peer st.received
    rw [ofPeer_append]
    by_cases mine : job.task.peer = peer
    · have inHand := inv.inHand (List.mem_of_getElem? found) rfl
      rw [show ofPeer peer [job] = [job] from List.filter_cons_of_pos (decide_eq_true mine)]
      apply next_in_order (inv.sorted_ofPeer peer) inOrder
      · exact mem_ofPeer.mpr ⟨inHand.1, mine⟩
      · exact fun old => inHand.2.1 (mem_ofPeer.mp old).1
      · intro other member fresh
        obtain ⟨came, hers⟩ := mem_ofPeer.mp member
        rcases inv.somewhere came with broadcast | ⟨thread, working, hasIt⟩ | later
        · exact absurd (mem_ofPeer.mpr ⟨broadcast, hers⟩) fresh
        · exact notOvertaken job (by rw [found]; rfl) mine thread working other hasIt hers
        · exact Nat.le_of_lt (inHand.2.2 other later)
    · rw [show ofPeer peer [job] = [] from
        List.filter_cons_of_neg (by rw [decide_eq_true_eq]; exact mine), List.append_nil]
      exact inOrder
  · obtain ⟨same, longer⟩ := broadcast_kept stepped fun i is_end => ends ⟨i, is_end⟩
    unfold InOrder
    rw [same]
    exact inOrder.trans (longer.filter _)

/-- A message that is broadcast in front of an earlier one is out of order. -/
theorem not_inOrder_of_overtaken {event : Event} (inv : Inv st)
    (overtaken : ¬ NotOvertaken peer st event)
    (stepped : step sockfd st event = some after) : ¬ InOrder peer after := by
  intro inOrder
  apply overtaken
  cases event with
  | finish i =>
      obtain ⟨job, pool, found, rfl, rfl⟩ := finish_eq stepped
      intro job' inHand mine thread working other hasIt hers
      rw [found] at inHand
      cases inHand
      have others := inv.inHand working hasIt
      have kept : ofPeer peer st.pool.executed ++ [job] <+: ofPeer peer st.received := by
        have kept : ofPeer peer (st.pool.executed ++ [job]) <+: ofPeer peer st.received :=
          inOrder
        rw [ofPeer_append, show ofPeer peer [job] = [job] from
          List.filter_cons_of_pos (decide_eq_true mine)] at kept
        exact kept
      exact first_of_next (inv.sorted_ofPeer peer) kept
        (mem_ofPeer.mpr ⟨others.1, hers⟩) (fun old => others.2.1 (mem_ofPeer.mp old).1)
  | recvfrom _ => exact trivial
  | enqueue _ => exact trivial
  | lock _ => exact trivial
  | spurious _ => exact trivial

/-! ## Every schedule -/

theorem inv_start (gnum : Nat) : Inv (start gnum) :=
  ⟨ThreadPool.accounted_start gnum 1, rfl, rfl, List.suffix_refl _, rfl, rfl⟩

theorem in_order_iff {gnum : Nat} {events : List Event} {last : State}
    (ran : play (step sockfd) (start gnum) events = some last) :
    Always (step sockfd) (InOrder peer) (start gnum) events ↔
      Throughout (step sockfd) (NotOvertaken peer) (start gnum) events :=
  always_iff_throughout (fun st => Inv st ∧ InOrder peer st) (fun _ both => both.2)
    (fun _ _ _ both notOvertaken stepped =>
      ⟨both.1.step stepped, both.2.step both.1 notOvertaken stepped⟩)
    (fun _ _ _ both overtaken stepped => not_inOrder_of_overtaken both.1 overtaken stepped)
    ⟨inv_start gnum, List.nil_prefix⟩ ran

theorem Settled.all_broadcast (settled : Settled st) (inv : Inv st)
    (inOrder : InOrder peer st) : ofPeer peer st.broadcast = ofPeer peer st.received := by
  apply all_done (inv.sorted_ofPeer peer) inOrder
  intro job member
  obtain ⟨came, mine⟩ := mem_ofPeer.mp member
  rcases inv.somewhere came with broadcast | ⟨thread, working, hasIt⟩ | later
  · exact mem_ofPeer.mpr ⟨broadcast, mine⟩
  · rw [settled.workers thread working] at hasIt
    cases hasIt
  · rw [settled.queue, settled.server] at later
    cases later

theorem lastMessage_ofPeer (jobs : List (Job Call)) :
    lastMessage peer (jobs.map Job.task) =
      ((ofPeer peer jobs).getLast?).map fun job => job.task.message := by
  unfold lastMessage ofPeer
  rw [List.filter_map, List.getLast?_map, Option.map_map]
  rfl

/-- The messages of a peer are broadcast in the order in which they came in exactly if
no worker overtakes another one with them.  When all tasks have run then, a peer whose
last message was `QUIT` has left behind its last broadcast, and is off the list if those
that left did so in turn. -/
theorem in_order_iff_not_overtaken (peer : InetAddr) {gnum : Nat} {events : List Event}
    {last : State}
    (ran : play (step sockfd) (start gnum) events = some last) :
    (Always (step sockfd) (InOrder peer) (start gnum) events ↔
      Throughout (step sockfd) (NotOvertaken peer) (start gnum) events) ∧
    (Throughout (step sockfd) (NotOvertaken peer) (start gnum) events → Settled last →
      lastMessage peer (last.received.map Job.task) = some quit →
        ¬ Online (last.broadcast.map Job.task) peer ∧
          (Each LeavesInTurn (last.broadcast.map Job.task) → peer ∉ last.users)) := by
  refine ⟨in_order_iff ran, ?_⟩
  intro notOvertaken settled lastQuit
  have inv := Reachable.invariant Inv (fun _ _ _ inv stepped => inv.step stepped)
    (inv_start gnum) ⟨events, ran⟩
  have inOrder := ((in_order_iff ran).mpr notOvertaken).last ran
  have same := settled.all_broadcast inv inOrder
  have offline : ¬ Online (last.broadcast.map Job.task) peer := by
    intro online
    obtain ⟨message, latest, stays⟩ := online
    rw [lastMessage_ofPeer, same, ← lastMessage_ofPeer, lastQuit] at latest
    cases latest
    exact stays rfl
  refine ⟨offline, ?_⟩
  intro inTurn listed
  rw [inv.users, agrees_of_in_turn inTurn, mem_members] at listed
  exact offline listed

instance (st : State) (event : Event) : Decidable (NotOvertaken peer st event) :=
  match event with
  | .finish i => inferInstanceAs (Decidable (∀ job ∈ (st.pool.threads[i]?).bind jobOf,
      job.task.peer = peer → ∀ thread ∈ st.pool.threads, ∀ other ∈ jobOf thread,
        other.task.peer = peer → job.call ≤ other.call))
  | .recvfrom _ => isTrue trivial
  | .enqueue _ => isTrue trivial
  | .lock _ => isTrue trivial
  | .spurious _ => isTrue trivial

def hiAndQuit : List Event :=
  [.recvfrom (some (ascii "hi", (localPeer 0).addr)), .enqueue [],
    .recvfrom (some (quit, (localPeer 0).addr)), .enqueue []]

/-- One worker runs one message behind the other. -/
theorem in_order_iff_not_overtaken_one_worker :
    ∃ last, play (step 3) (start 1)
      (hiAndQuit ++ [.lock 0, .finish 0, .lock 0, .finish 0]) = some last ∧
        localPeer 0 ∉ last.users := by
  have ran : play (step 3) (start 1)
    (hiAndQuit ++ [.lock 0, .finish 0, .lock 0, .finish 0]) = some _ := rfl
  refine ⟨_, ran, ?_⟩
  refine ((in_order_iff_not_overtaken (localPeer 0) ran).2 (by decide)
    ⟨rfl, rfl, by decide⟩ (by decide)).2 ?_
  have hi : Each LeavesInTurn [⟨3, ascii "hi", localPeer 0⟩] :=
    each_concat.mpr ⟨each_nil, fun leaves => absurd leaves (by decide)⟩
  have both : Each LeavesInTurn [⟨3, ascii "hi", localPeer 0⟩, ⟨3, quit, localPeer 0⟩] :=
    each_concat.mpr ⟨hi, fun _ => .inr (by decide)⟩
  exact both

/-- Two workers have a message each, and the one with `QUIT` is through first. -/
theorem quit_overtakes :
    ∃ last, play (step 3) (start 2)
      (hiAndQuit ++ [.lock 0, .lock 1, .finish 1, .finish 0]) = some last ∧
        Settled last ∧ ¬ InOrder (localPeer 0) last ∧
          lastMessage (localPeer 0) (last.received.map Job.task) = some quit ∧
            localPeer 0 ∈ last.users := by
  refine ⟨_, rfl, ⟨rfl, rfl, by decide⟩, ?_, by decide, by decide⟩
  unfold InOrder
  decide

end LinuxSystemLearning.ChatServer
