import LinuxSystemLearning.Chat.Delivery

/-!
# The chat and its clients

Clients and the server talk over a network that may lose datagrams, bring them in another
order and bring them more than once.  What a client shows was said by one of the clients, and
the address in front of it is the address of that client, whatever anybody says.
-/

set_option autoImplicit false

namespace LinuxSystemLearning.ChatNetwork

open LinuxSystemLearning.Chat
open LinuxSystemLearning.ChatServer (bufferSize datagramText jobOf)
open LinuxSystemLearning.Cxx
open LinuxSystemLearning.Interleaving
open LinuxSystemLearning.Lines
open ThreadPool (Job)

/-! ## The clients -/

inductive Sender where
  | starting
  | prompting
  | ended
  deriving DecidableEq

/-- `said` are the datagrams that `sendto` took, `shown` the lines that `Recv` wrote. -/
structure Client where
  addr : SockAddrIn
  sender : Sender
  recving : Bool
  said : List Bytes
  shown : List Bytes

def online : Bytes := ascii "inline"

def newline : UInt8 := 10

/-- `sendto` takes the datagram or fails. -/
def Client.say (client : Client) (sender : Sender) (payload : Bytes) (taken : Bool) : Client :=
  { client with
    sender := sender
    said := if taken then client.said ++ [payload] else client.said }

def shownText (text : Bytes) : Bytes := cString (text.take (bufferSize - 1))

/-! ## The system -/

/-- `posted` are the datagrams for the server, `answered` those of the server. -/
structure State where
  server : ChatServer.State
  clients : List Client
  posted : List (SockAddrIn × Bytes)
  answered : List Datagram

inductive Event where
  /-- The first datagram of a client. -/
  | login (c : Nat) (taken : Bool)
  | input (c : Nat) (line : Bytes) (taken : Bool)
  /-- `pthread_cancel` has an effect. -/
  | cancelled (c : Nat)
  /-- A datagram comes in at the server. -/
  | arrive (k : Nat)
  | serve (event : ChatServer.Event)
  /-- A datagram comes in at a client. -/
  | receive (c k : Nat)

def start (addrs : List SockAddrIn) (gnum : Nat) : State where
  server := ChatServer.start gnum
  clients := addrs.map fun addr => ⟨addr, .starting, true, [], []⟩
  posted := []
  answered := []

/-- A client does something, and may have posted a datagram. -/
def State.moved (st : State) (c : Nat) (client : Client) (posted : List (SockAddrIn × Bytes)) :
    State :=
  { st with clients := st.clients.set c client, posted := st.posted ++ posted }

def post (c : Nat) (sender : Sender) (payload : Bytes) (taken : Bool) (client : Client)
    (st : State) : State :=
  st.moved c (client.say sender payload taken) (if taken then [(client.addr, payload)] else [])

def sentBy (server : ChatServer.State) : ChatServer.Event → List Datagram
  | .finish i =>
      match (server.pool.threads[i]?).bind jobOf with
      | none => []
      | some job => (messageRoute job.task server.users).2
  | _ => []

def ofNetwork : ChatServer.Event → Bool
  | .recvfrom (some _) => true
  | _ => false

def serve (sockfd : Int) (event : ChatServer.Event) (st : State) : Option State := do
  let server ← ChatServer.step sockfd st.server event
  some { st with server := server, answered := st.answered ++ sentBy st.server event }

def step (sockfd : Int) (st : State) : Event → Option State
  | .login c taken => do
      let client ← st.clients[c]?
      if client.sender = .starting then some (post c .prompting online taken client st) else none
  | .input c line taken => do
      let client ← st.clients[c]?
      if client.sender = .prompting ∧ newline ∉ line then
        some (post c (if line = quit then .ended else .prompting) line taken client st)
      else none
  | .cancelled c => do
      let client ← st.clients[c]?
      if client.sender = .ended then some (st.moved c { client with recving := false } [])
      else none
  | .arrive k => do
      let (addr, payload) ← st.posted[k]?
      serve sockfd (.recvfrom (some (payload, addr))) st
  | .serve event => if ofNetwork event then none else serve sockfd event st
  | .receive c k => do
      let client ← st.clients[c]?
      let datagram ← st.answered[k]?
      if client.recving ∧ datagram.dest = client.addr then
        some (st.moved c { client with shown := client.shown ++ [shownText datagram.text] } [])
      else none

/-! ## Where a line comes from -/

def hash : UInt8 := 35

def lineOf (speaker : SockAddrIn) (payload : Bytes) : Bytes :=
  shownText ((InetAddr.ofSockAddr speaker).stringAddr ++ ascii "#" ++ datagramText payload)

/-- The line was said, and what is in front of its `#` says by whom. -/
structure SaidBy (speaker : Client) (line : Bytes) : Prop where
  said : ∃ payload ∈ speaker.said, line = lineOf speaker.addr payload
  named : ∀ addr, line.takeWhile (· ≠ hash) = (InetAddr.ofSockAddr addr).stringAddr ↔
    addr = speaker.addr

/-- Whatever is shown was said, and only those who have said something are sent anything. -/
structure Authentic (st : State) : Prop where
  shown : ∀ client ∈ st.clients, ∀ line ∈ client.shown, ∃ speaker ∈ st.clients,
    SaidBy speaker line
  asked : ∀ datagram ∈ st.answered, ∃ client ∈ st.clients, client.addr = datagram.dest ∧
    client.said ≠ []

/-! ## Names -/

theorem isdigit_colon : isdigit 58 = false := rfl

theorem not_mem_inetNtoa {byte : UInt8} (other : isdigit byte = false) (different : byte ≠ dot)
    (addr : InAddr) : byte ∉ inetNtoa addr := by
  have digits : ∀ value, byte ∉ stdToString value := by
    intro value member
    rw [isdigit_of_mem_stdToString member] at other
    cases other
  simp [inetNtoa, digits, different]

theorem not_mem_stringAddr {byte : UInt8} (other : isdigit byte = false) (notDot : byte ≠ dot)
    (notColon : byte ≠ 58) (peer : InetAddr) : byte ∉ peer.stringAddr := by
  have digits : byte ∉ stdToString peer.port.toNat := by
    intro member
    rw [isdigit_of_mem_stdToString member] at other
    cases other
  have colon : byte ∉ ascii ":" := fun member => notColon (List.mem_singleton.mp member)
  rw [InetAddr.stringAddr, peer.ip_eq, List.mem_append, List.mem_append, not_or, not_or]
  exact ⟨⟨not_mem_inetNtoa other notDot _, colon⟩, digits⟩

theorem stringAddr_injective {addr addr' : SockAddrIn}
    (same : (InetAddr.ofSockAddr addr).stringAddr = (InetAddr.ofSockAddr addr').stringAddr) :
    addr = addr' := by
  have shape : ∀ addr, (InetAddr.ofSockAddr addr).stringAddr =
      inetNtoa addr.sinAddr ++ 58 :: stdToString (ntohs addr.sinPort).toNat := by
    intro addr
    exact List.append_assoc ..
  have apart := fun addr : SockAddrIn => not_mem_inetNtoa isdigit_colon (by decide) addr.sinAddr
  rw [shape, shape] at same
  obtain ⟨ip, port⟩ := cut_injective (apart addr) (apart addr') same
  have sinAddr := inetNtoa_injective ip
  have sinPort := ntohs_injective (UInt16.toNat_inj.mp (stdToString_injective port))
  cases addr
  cases addr'
  cases sinAddr
  cases sinPort
  rfl

theorem length_stringAddr_le (peer : InetAddr) : peer.stringAddr.length ≤ 21 := by
  have octets : ∀ octet : UInt8, (stdToString octet.toNat).length ≤ 3 := fun octet =>
    length_stdToString_le (by decide) (Nat.lt_trans octet.toNat_lt (by decide))
  have port := length_stdToString_le (show 0 < 5 by decide)
    (Nat.lt_trans peer.port.toNat_lt (show 2 ^ 16 < 10 ^ 5 by decide))
  have colon : (ascii ":").length = 1 := rfl
  have first := octets peer.addr.sinAddr.first
  have second := octets peer.addr.sinAddr.second
  have third := octets peer.addr.sinAddr.third
  have fourth := octets peer.addr.sinAddr.fourth
  simp only [InetAddr.stringAddr, peer.ip_eq, inetNtoa, List.length_append, List.length_cons,
    colon]
  omega

/-- The name is whole and ends at the first `#`. -/
theorem lineOf_name (speaker : SockAddrIn) (payload : Bytes) :
    (lineOf speaker payload).takeWhile (· ≠ hash) =
      (InetAddr.ofSockAddr speaker).stringAddr := by
  let name := (InetAddr.ofSockAddr speaker).stringAddr
  have short : name.length < bufferSize - 1 :=
    Nat.lt_of_le_of_lt (length_stringAddr_le _) (by decide)
  have nulFree : 0 ∉ name := not_mem_stringAddr rfl (by decide) (by decide) _
  have noHash : hash ∉ name := not_mem_stringAddr rfl (by decide) (by decide) _
  have letters : ∀ byte ∈ name, decide (byte ≠ 0) = true := fun byte member =>
    decide_eq_true fun zero => nulFree (zero ▸ member)
  have room : bufferSize - 1 - name.length = bufferSize - 1 - name.length - 1 + 1 := by omega
  have line : lineOf speaker payload = name ++ hash ::
      cString ((datagramText payload).take (bufferSize - 1 - name.length - 1)) := by
    show cString ((name ++ [hash] ++ datagramText payload).take (bufferSize - 1)) = _
    rw [List.append_assoc, List.take_append, List.take_of_length_le (Nat.le_of_lt short), room,
      List.singleton_append, List.take_succ_cons, cString, List.takeWhile_append_of_pos letters]
    rfl
  rw [line, List.takeWhile_append_of_pos]
  · simp
    rfl
  · intro byte member
    exact decide_eq_true fun same => noHash (same ▸ member)

theorem saidBy_of_said {speaker : Client} {payload line : Bytes} (said : payload ∈ speaker.said)
    (same : line = lineOf speaker.addr payload) : SaidBy speaker line where
  said := ⟨payload, said, same⟩
  named addr := by
    rw [same, lineOf_name]
    exact ⟨fun name => (stringAddr_injective name).symm, fun name => name ▸ rfl⟩

/-! ## The server -/

variable {sockfd : Int}

section

open ChatServer (Inv inPool_eq finish_eq)

variable {st after : ChatServer.State} {event : ChatServer.Event}

def callOf (sockfd : Int) (addr : SockAddrIn) (payload : Bytes) : Call :=
  ⟨sockfd, datagramText payload, .ofSockAddr addr⟩

/-- A datagram comes in, a call of `MessageRoute` ends, or it is between the threads. -/
inductive ServerStepped (sockfd : Int) (st after : ChatServer.State) : ChatServer.Event → Prop
  | received (payload : Bytes) (addr : SockAddrIn) (job : Job Call)
      (becomes : job.task = callOf sockfd addr payload)
      (received : after.received = st.received ++ [job]) (users : after.users = st.users) :
      ServerStepped sockfd st after (.recvfrom (some (payload, addr)))
  | finished (i : Nat) (job : Job Call)
      (found : st.pool.threads[i]? = some (.awake (.running job)))
      (received : after.received = st.received)
      (users : after.users = (messageRoute job.task st.users).1) :
      ServerStepped sockfd st after (.finish i)
  | inside (event : ChatServer.Event) (received : after.received = st.received)
      (users : after.users = st.users) (silent : sentBy st event = []) :
      ServerStepped sockfd st after event

theorem serverStepped_of_inPool {inner : ThreadPool.Event Call} (silent : sentBy st event = [])
    (ran : ChatServer.inPool inner st = some after) : ServerStepped sockfd st after event := by
  obtain ⟨pool, -, rfl⟩ := inPool_eq ran
  exact .inside event rfl rfl silent

theorem serverStepped_of_step (stepped : ChatServer.step sockfd st event = some after) :
    ServerStepped sockfd st after event := by
  cases event with
  | recvfrom outcome =>
      have ran : ChatServer.recvfrom sockfd outcome st = some after := stepped
      unfold ChatServer.recvfrom at ran
      split at ran
      · cases ran
        exact .inside _ rfl rfl rfl
      · cases ran
        exact .inside _ rfl rfl rfl
      · rename_i byte rest addr
        dsimp only at ran
        split at ran
        · cases ran
        · cases ran
          exact .received (byte :: rest) addr _ rfl rfl rfl
  | enqueue woken => exact serverStepped_of_inPool rfl stepped
  | lock i => exact serverStepped_of_inPool rfl stepped
  | finish i =>
      obtain ⟨job, pool, found, -, rfl⟩ := finish_eq stepped
      exact .finished i job found rfl rfl
  | spurious i =>
      have ran : ChatServer.inPool (.spurious i) st = some after := stepped
      exact serverStepped_of_inPool rfl ran

def Came (received : List (Job Call)) (user : InetAddr) : Prop :=
  ∃ job ∈ received, job.task.peer = user

theorem deleteUser_subset (users : List InetAddr) : deleteUser users ⊆ users := by
  cases users with
  | nil => exact List.Subset.refl _
  | cons user users => exact List.subset_cons_self _ _

theorem came_of_join {job : Job Call} (received : job ∈ st.received)
    (users : ∀ user ∈ st.users, Came st.received user) :
    ∀ user ∈ join job.task.peer st.users, Came st.received user := by
  intro user member
  rcases mem_join.mp member with old | rfl
  · exact users user old
  · exact ⟨job, received, rfl⟩

/-- Those online have sent something, and what is sent is the text of a job, for somebody
who has sent something. -/
theorem server_sends (inv : Inv st) (users : ∀ user ∈ st.users, Came st.received user)
    (stepped : ServerStepped sockfd st after event) :
    (∀ user ∈ after.users, Came st.received user) ∧
      ∀ datagram ∈ sentBy st event, ∃ job ∈ st.received, ∃ user, Came st.received user ∧
        datagram = sendTo job.task user := by
  cases stepped with
  | received payload addr job becomes received same => exact ⟨same ▸ users, nofun⟩
  | inside event received same silent =>
      refine ⟨same ▸ users, ?_⟩
      rw [silent]
      exact nofun
  | finished i job found received same =>
      obtain ⟨known, -⟩ := inv.inHand (List.mem_of_getElem? found) rfl
      have joined := came_of_join known users
      constructor
      · rw [same, messageRoute_eq]
        dsimp only
        split
        · exact fun user member => joined user (deleteUser_subset _ member)
        · exact joined
      · rw [sentBy, found]
        intro datagram member
        have sent : datagram ∈ (messageRoute job.task st.users).2 := member
        rw [messageRoute_eq] at sent
        obtain ⟨user, there, rfl⟩ := List.mem_map.mp sent
        exact ⟨job, known, user, joined user there, rfl⟩

end

/-! ## What a step does -/

variable {st after : State}

inductive Stepped (sockfd : Int) (st : State) : State → Prop
  | posts (c : Nat) (client : Client) (sender : Sender) (payload : Bytes) (taken : Bool)
      (found : st.clients[c]? = some client) :
      Stepped sockfd st (post c sender payload taken client st)
  | cancelled (c : Nat) (client : Client) (found : st.clients[c]? = some client) :
      Stepped sockfd st (st.moved c { client with recving := false } [])
  | receives (c : Nat) (client : Client) (datagram : Datagram)
      (found : st.clients[c]? = some client) (there : datagram ∈ st.answered)
      (mine : datagram.dest = client.addr) :
      Stepped sockfd st
        (st.moved c { client with shown := client.shown ++ [shownText datagram.text] } [])
  | serves (event : ChatServer.Event) (server : ChatServer.State)
      (ran : ChatServer.step sockfd st.server event = some server)
      (came : ∀ payload addr, event = .recvfrom (some (payload, addr)) →
        (addr, payload) ∈ st.posted) :
      Stepped sockfd st
        { st with server := server, answered := st.answered ++ sentBy st.server event }

theorem stepped_of_serve {event : ChatServer.Event}
    (came : ∀ payload addr, event = .recvfrom (some (payload, addr)) → (addr, payload) ∈ st.posted)
    (ran : serve sockfd event st = some after) : Stepped sockfd st after := by
  obtain ⟨server, stepped, same⟩ := Option.bind_eq_some_iff.mp ran
  cases same
  exact .serves event server stepped came

theorem stepped_of_step {event : Event} (stepped : step sockfd st event = some after) :
    Stepped sockfd st after := by
  cases event with
  | login c taken =>
      obtain ⟨client, found, ran⟩ := Option.bind_eq_some_iff.mp stepped
      split at ran
      · cases ran
        exact .posts c client _ _ taken found
      · cases ran
  | input c line taken =>
      obtain ⟨client, found, ran⟩ := Option.bind_eq_some_iff.mp stepped
      split at ran
      · cases ran
        exact .posts c client _ _ taken found
      · cases ran
  | cancelled c =>
      obtain ⟨client, found, ran⟩ := Option.bind_eq_some_iff.mp stepped
      split at ran
      · cases ran
        exact .cancelled c client found
      · cases ran
  | arrive k =>
      obtain ⟨⟨addr, payload⟩, found, ran⟩ := Option.bind_eq_some_iff.mp stepped
      refine stepped_of_serve ?_ ran
      intro other addr' same
      cases same
      exact List.mem_of_getElem? found
  | serve event =>
      have ran : (if ofNetwork event then none else serve sockfd event st) = some after := stepped
      split at ran
      · cases ran
      · rename_i inside
        refine stepped_of_serve ?_ ran
        rintro payload addr rfl
        exact absurd rfl inside
  | receive c k =>
      obtain ⟨client, found, ran⟩ := Option.bind_eq_some_iff.mp stepped
      obtain ⟨datagram, there, ran⟩ := Option.bind_eq_some_iff.mp ran
      split at ran
      · rename_i mine
        cases ran
        exact .receives c client datagram found (List.mem_of_getElem? there) mine.2
      · cases ran

/-! ## The invariant -/

def Spoken (clients : List Client) (addr : SockAddrIn) (payload : Bytes) : Prop :=
  ∃ client ∈ clients, client.addr = addr ∧ payload ∈ client.said

structure Inv (sockfd : Int) (st : State) : Prop where
  server : ChatServer.Inv st.server
  posted : ∀ addr payload, (addr, payload) ∈ st.posted → Spoken st.clients addr payload
  received : ∀ job ∈ st.server.received, ∃ addr payload, (addr, payload) ∈ st.posted ∧
    job.task = callOf sockfd addr payload
  users : ∀ user ∈ st.server.users, Came st.server.received user
  answered : ∀ datagram ∈ st.answered, ∃ job ∈ st.server.received, ∃ user,
    Came st.server.received user ∧ datagram = sendTo job.task user
  shown : ∀ client ∈ st.clients, ∀ line ∈ client.shown, ∃ datagram ∈ st.answered,
    line = shownText datagram.text

theorem inv_start (addrs : List SockAddrIn) (gnum : Nat) : Inv sockfd (start addrs gnum) where
  server := ChatServer.inv_start gnum
  posted := nofun
  received := nofun
  users := nofun
  answered := nofun
  shown := by
    intro client member
    obtain ⟨addr, -, rfl⟩ := List.mem_map.mp member
    exact nofun

theorem spoken_set {clients : List Client} {c : Nat} {client moved : Client} {addr : SockAddrIn}
    {payload : Bytes} (found : clients[c]? = some client) (same : moved.addr = client.addr)
    (kept : client.said ⊆ moved.said) (spoken : Spoken clients addr payload) :
    Spoken (clients.set c moved) addr payload := by
  obtain ⟨speaker, member, there, said⟩ := spoken
  obtain ⟨i, place⟩ := List.mem_iff_getElem?.mp member
  by_cases mine : c = i
  · subst mine
    cases found.symm.trans place
    have bound := (List.getElem?_eq_some_iff.mp found).1
    exact ⟨moved, List.mem_set bound moved, same.trans there, kept said⟩
  · refine ⟨speaker, ?_, there, said⟩
    refine List.mem_of_getElem? (i := i) ?_
    rw [List.getElem?_set_ne mine]
    exact place

theorem Inv.moved {c : Nat} {client moved : Client} {posted : List (SockAddrIn × Bytes)}
    (inv : Inv sockfd st) (found : st.clients[c]? = some client)
    (same : moved.addr = client.addr) (kept : client.said ⊆ moved.said)
    (mine : ∀ datagram ∈ posted, datagram.1 = client.addr ∧ datagram.2 ∈ moved.said)
    (shows : ∀ line ∈ moved.shown, line ∈ client.shown ∨
      ∃ datagram ∈ st.answered, line = shownText datagram.text) :
    Inv sockfd (st.moved c moved posted) where
  server := inv.server
  posted := by
    intro addr payload member
    rcases List.mem_append.mp member with old | new
    · exact spoken_set found same kept (inv.posted addr payload old)
    · obtain ⟨here, said⟩ := mine (addr, payload) new
      have bound := (List.getElem?_eq_some_iff.mp found).1
      exact ⟨moved, List.mem_set bound moved, same.trans here.symm, said⟩
  received := by
    intro job member
    obtain ⟨addr, payload, there, becomes⟩ := inv.received job member
    exact ⟨addr, payload, List.mem_append_left _ there, becomes⟩
  users := inv.users
  answered := inv.answered
  shown := by
    intro other member line there
    rcases List.mem_or_eq_of_mem_set member with old | rfl
    · exact inv.shown other old line there
    · rcases shows line there with before | new
      · exact inv.shown client (List.mem_of_getElem? found) line before
      · exact new

theorem Came.append {received : List (Job Call)} {user : InetAddr} (came : Came received user)
    (more : List (Job Call)) : Came (received ++ more) user := by
  obtain ⟨job, member, peer⟩ := came
  exact ⟨job, List.mem_append_left _ member, peer⟩

/-- What the server has received is what it had, and perhaps a datagram that was posted. -/
theorem received_of_serve {event : ChatServer.Event} {server : ChatServer.State}
    (stepped : ServerStepped sockfd st.server server event)
    (came : ∀ payload addr, event = .recvfrom (some (payload, addr)) → (addr, payload) ∈ st.posted) :
    ∃ more, server.received = st.server.received ++ more ∧ ∀ job ∈ more, ∃ addr payload,
      (addr, payload) ∈ st.posted ∧ job.task = callOf sockfd addr payload := by
  cases stepped with
  | received payload addr job becomes received users =>
      refine ⟨[job], received, ?_⟩
      intro other member
      cases List.mem_singleton.mp member
      exact ⟨addr, payload, came payload addr rfl, becomes⟩
  | finished i job found received users => exact ⟨[], by rw [received, List.append_nil], nofun⟩
  | inside event received users silent => exact ⟨[], by rw [received, List.append_nil], nofun⟩

theorem Inv.stepped (inv : Inv sockfd st) (stepped : Stepped sockfd st after) :
    Inv sockfd after := by
  cases stepped with
  | posts c client sender payload taken found =>
      unfold post Client.say
      cases taken with
      | true =>
          refine inv.moved found rfl (List.subset_append_left _ _) ?_ fun line => .inl
          intro datagram member
          cases List.mem_singleton.mp member
          exact ⟨rfl, List.mem_append_right _ List.mem_cons_self⟩
      | false => exact inv.moved found rfl (List.Subset.refl _) nofun fun line => .inl
  | cancelled c client found =>
      exact inv.moved found rfl (List.Subset.refl _) nofun fun line => .inl
  | receives c client datagram found there mine =>
      refine inv.moved found rfl (List.Subset.refl _) nofun ?_
      intro line member
      rcases List.mem_append.mp member with old | new
      · exact .inl old
      · exact .inr ⟨datagram, there, List.mem_singleton.mp new⟩
  | serves event server ran came =>
      have inside := serverStepped_of_step ran
      obtain ⟨more, received, posted⟩ := received_of_serve inside came
      obtain ⟨users, sent⟩ := server_sends inv.server inv.users inside
      refine ⟨inv.server.step ran, inv.posted, ?_, ?_, ?_, ?_⟩
      · intro job member
        rw [received] at member
        rcases List.mem_append.mp member with old | new
        · exact inv.received job old
        · exact posted job new
      · intro user member
        rw [received]
        exact (users user member).append more
      · intro datagram member
        have from_job : ∃ job ∈ st.server.received, ∃ user, Came st.server.received user ∧
            datagram = sendTo job.task user := by
          rcases List.mem_append.mp member with old | new
          · exact inv.answered datagram old
          · exact sent datagram new
        obtain ⟨job, there, user, known, same⟩ := from_job
        rw [received]
        exact ⟨job, List.mem_append_left _ there, user, known.append more, same⟩
      · intro client member line there
        obtain ⟨datagram, sent, same⟩ := inv.shown client member line there
        exact ⟨datagram, List.mem_append_left _ sent, same⟩

/-! ## Every run -/

theorem Inv.authentic (inv : Inv sockfd st) : Authentic st where
  shown := by
    intro client member line there
    obtain ⟨datagram, sent, rfl⟩ := inv.shown client member line there
    obtain ⟨job, received, user, -, rfl⟩ := inv.answered datagram sent
    obtain ⟨addr, payload, posted, becomes⟩ := inv.received job received
    obtain ⟨speaker, present, rfl, said⟩ := inv.posted addr payload posted
    refine ⟨speaker, present, saidBy_of_said said ?_⟩
    rw [sendTo, becomes]
    rfl
  asked := by
    intro datagram sent
    obtain ⟨job, -, user, ⟨other, received, rfl⟩, rfl⟩ := inv.answered datagram sent
    obtain ⟨addr, payload, posted, becomes⟩ := inv.received other received
    obtain ⟨speaker, present, rfl, said⟩ := inv.posted addr payload posted
    refine ⟨speaker, present, ?_, List.ne_nil_of_mem said⟩
    rw [sendTo, becomes]
    rfl

/-- In every run each line that a client shows was said by the client whose address is in
front of its first `#`, and only clients that have said something are sent anything. -/
theorem lines_are_authentic {addrs : List SockAddrIn} {gnum : Nat}
    (reached : Reachable (step sockfd) (start addrs gnum) st) : Authentic st :=
  Inv.authentic (reached.invariant (Inv sockfd)
    (fun _ _ _ inv stepped => inv.stepped (stepped_of_step stepped)) (inv_start addrs gnum))

/-- A client that says the name of another one. -/
theorem lines_are_authentic_impostor : ∃ st : State,
    (st.clients[0]?).map Client.shown = some [ascii "127.0.0.1:1025#127.0.0.1:1024#hi"] ∧
      Authentic st := by
  have ran : Reachable (step 3) (start [(localPeer 0).addr, (localPeer 1).addr] 1) _ :=
    ⟨[.login 0 true, .arrive 0, .serve (.enqueue []), .serve (.lock 0), .serve (.finish 0),
      .login 1 true, .input 1 (ascii "127.0.0.1:1024#hi") true, .arrive 2, .serve (.enqueue []),
      .serve (.lock 0), .serve (.finish 0), .receive 0 1], rfl⟩
  exact ⟨_, rfl, lines_are_authentic ran⟩

end LinuxSystemLearning.ChatNetwork
