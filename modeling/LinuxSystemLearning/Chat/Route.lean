import LinuxSystemLearning.Chat.Address
import LinuxSystemLearning.Library.History
import Mathlib.Data.List.Nodup

/-!
# The routing of chat messages

`Route` keeps a list of the users that are online.  A message is a login, is sent to
everybody in the list, and is a logout if its text is `QUIT`.

`Online` says who ought to be online, from the messages alone; `members` lists these
peers in the order in which they joined.  `DeleteUser` erases the front of the list
whoever has left, so `Route` agrees with them as long as each that leaves is the one
that has been there longest.
-/

set_option autoImplicit false

namespace LinuxSystemLearning.Chat

open LinuxSystemLearning.Cxx
open LinuxSystemLearning.History

/-! ## The code -/

def isExist (peer : InetAddr) : List InetAddr → Bool
  | [] => false
  | user :: users => if user.equals peer then true else isExist peer users

def addUser (peer : InetAddr) (onlineUser : List InetAddr) : List InetAddr :=
  onlineUser ++ [peer]

/-- The loop erases what `begin()` points to and breaks. -/
def deleteUser : List InetAddr → List InetAddr
  | [] => []
  | _ :: users => users

structure Datagram where
  sockfd : Int
  text : Bytes
  dest : SockAddrIn
  deriving DecidableEq

structure Call where
  sockfd : Int
  message : Bytes
  peer : InetAddr
  deriving DecidableEq

def quit : Bytes := ascii "QUIT"

def Call.sendMessage (call : Call) : Bytes :=
  call.peer.stringAddr ++ ascii "#" ++ call.message

def sendTo (call : Call) (user : InetAddr) : Datagram :=
  ⟨call.sockfd, call.sendMessage, user.addr⟩

/-- The users online behind the call and what it sends. -/
def messageRoute (call : Call) (onlineUser : List InetAddr) :
    List InetAddr × List Datagram :=
  let users := if isExist call.peer onlineUser then onlineUser
    else addUser call.peer onlineUser
  let sent := users.map (sendTo call)
  (if call.message = quit then deleteUser users else users, sent)

def onlineUser (calls : List Call) : List InetAddr :=
  calls.foldl (fun users call => (messageRoute call users).1) []

def sent (calls : List Call) (call : Call) : List Datagram :=
  (messageRoute call (onlineUser calls)).2

/-! ## Who ought to be online -/

def lastMessage (peer : InetAddr) (calls : List Call) : Option Bytes :=
  ((calls.filter fun call => call.peer = peer).getLast?).map Call.message

/-- The peer has sent a message since it last sent `QUIT`. -/
def Online (calls : List Call) (peer : InetAddr) : Prop :=
  ∃ message, lastMessage peer calls = some message ∧ message ≠ quit

def join (peer : InetAddr) (users : List InetAddr) : List InetAddr :=
  if peer ∈ users then users else users ++ [peer]

def follow (users : List InetAddr) (call : Call) : List InetAddr :=
  if call.message = quit then (join call.peer users).erase call.peer
  else join call.peer users

/-- The peers that are online behind the calls, the one that joined first in front. -/
def members (calls : List Call) : List InetAddr := calls.foldl follow []

/-- Behind the call the list is that of the peers online, each once, and the call sends
its text once to each that was online in front of it and to its sender. -/
structure RoutesRightly (calls : List Call) (call : Call) : Prop where
  distinct : (onlineUser (calls ++ [call])).Nodup
  exact : ∀ peer, peer ∈ onlineUser (calls ++ [call]) ↔ Online (calls ++ [call]) peer
  once : (sent calls call).Nodup
  toAll : ∀ datagram, datagram ∈ sent calls call ↔
    ∃ peer, (Online calls peer ∨ peer = call.peer) ∧ datagram = sendTo call peer

/-- A peer that quits finds nobody online or has been online longest. -/
def LeavesInTurn (calls : List Call) (call : Call) : Prop :=
  call.message = quit → members calls = [] ∨ (members calls).head? = some call.peer

/-! ## The list of the members -/

theorem lastMessage_concat (peer : InetAddr) (calls : List Call) (call : Call) :
    lastMessage peer (calls ++ [call]) =
      if call.peer = peer then some call.message else lastMessage peer calls := by
  unfold lastMessage
  rw [List.filter_append]
  split
  · rename_i same
    rw [List.filter_singleton, decide_eq_true same]
    simp
  · rename_i different
    rw [List.filter_singleton, decide_eq_false different]
    simp

theorem online_concat (peer : InetAddr) (calls : List Call) (call : Call) :
    Online (calls ++ [call]) peer ↔
      if call.peer = peer then call.message ≠ quit else Online calls peer := by
  unfold Online
  rw [lastMessage_concat]
  split
  · simp
  · exact Iff.rfl

theorem mem_join {peer other : InetAddr} {users : List InetAddr} :
    other ∈ join peer users ↔ other ∈ users ∨ other = peer := by
  unfold join
  split
  · rename_i present
    constructor
    · exact .inl
    · rintro (member | rfl)
      · exact member
      · exact present
  · rw [List.mem_append, List.mem_singleton]

theorem nodup_join {peer : InetAddr} {users : List InetAddr} (distinct : users.Nodup) :
    (join peer users).Nodup := by
  unfold join
  split
  · exact distinct
  · rename_i absent
    exact List.nodup_append.mpr ⟨distinct, List.nodup_singleton peer, by
      intro user member other single same
      rw [List.mem_singleton] at single
      rw [same, single] at member
      exact absent member⟩

theorem members_concat (calls : List Call) (call : Call) :
    members (calls ++ [call]) = follow (members calls) call := by
  rw [members, List.foldl_append]
  rfl

theorem nodup_members (calls : List Call) : (members calls).Nodup := by
  induction calls using List.reverseRecOn with
  | nil => exact List.nodup_nil
  | append_singleton calls call ih =>
      rw [members_concat, follow]
      split
      · exact (nodup_join ih).erase _
      · exact nodup_join ih

theorem mem_members {calls : List Call} {peer : InetAddr} :
    peer ∈ members calls ↔ Online calls peer := by
  induction calls using List.reverseRecOn with
  | nil => simp [members, Online, lastMessage]
  | append_singleton calls call ih =>
      rw [members_concat, online_concat, follow]
      split
      · rename_i leaves
        rw [(nodup_join (nodup_members calls)).mem_erase_iff, mem_join, ih]
        split
        · rename_i same
          exact ⟨fun both => absurd same.symm both.1, fun stays => absurd leaves stays⟩
        · rename_i different
          constructor
          · intro both
            exact both.2.resolve_right fun same => different same.symm
          · intro online
            exact ⟨fun same => different same.symm, .inl online⟩
      · rename_i stays
        rw [mem_join, ih]
        split
        · rename_i same
          exact ⟨fun _ => stays, fun _ => .inr same.symm⟩
        · rename_i different
          exact ⟨fun either => either.resolve_right fun same => different same.symm, .inl⟩

/-! ## One call -/

theorem isExist_iff {peer : InetAddr} {users : List InetAddr} :
    isExist peer users = true ↔ peer ∈ users := by
  induction users with
  | nil => simp [isExist]
  | cons user users ih =>
      unfold isExist
      split
      · rename_i same
        rw [InetAddr.equals_iff.mp same]
        exact ⟨fun _ => List.mem_cons_self, fun _ => rfl⟩
      · rename_i different
        rw [ih, List.mem_cons]
        constructor
        · exact .inr
        · intro either
          refine either.resolve_left fun same => different ?_
          exact InetAddr.equals_iff.mpr same.symm

theorem joined_eq (call : Call) (users : List InetAddr) :
    (if isExist call.peer users then users else addUser call.peer users) =
      join call.peer users := by
  unfold join addUser
  by_cases present : call.peer ∈ users
  · rw [if_pos (isExist_iff.mpr present), if_pos present]
  · rw [if_neg (isExist_iff.not.mpr present), if_neg present]

theorem messageRoute_eq (call : Call) (users : List InetAddr) :
    messageRoute call users =
      (if call.message = quit then deleteUser (join call.peer users)
        else join call.peer users, (join call.peer users).map (sendTo call)) := by
  rw [messageRoute, joined_eq]

theorem onlineUser_concat (calls : List Call) (call : Call) :
    onlineUser (calls ++ [call]) = (messageRoute call (onlineUser calls)).1 := by
  rw [onlineUser, List.foldl_append]
  rfl

/-- Erasing the front of the list is right for the one that has been there longest. -/
theorem deleteUser_join {peer : InetAddr} {users : List InetAddr}
    (longest : users = [] ∨ users.head? = some peer) :
    deleteUser (join peer users) = (join peer users).erase peer := by
  cases users with
  | nil => simp [join, deleteUser]
  | cons user users =>
      have same : user = peer := by simpa using longest
      rw [same]
      simp [join, deleteUser]

/-- Where the list agreed with the members, a call that leaves in turn keeps it so. -/
theorem agrees_concat {calls : List Call} {call : Call}
    (agrees : onlineUser calls = members calls) (inTurn : LeavesInTurn calls call) :
    onlineUser (calls ++ [call]) = members (calls ++ [call]) := by
  rw [onlineUser_concat, members_concat, messageRoute_eq, agrees, follow]
  dsimp only
  split
  · rename_i leaves
    exact deleteUser_join (inTurn leaves)
  · rfl

theorem sendTo_injective (call : Call) : Function.Injective (sendTo call) := by
  intro user peer same
  exact InetAddr.ext_addr (congrArg Datagram.dest same)

theorem routesRightly_of_agrees {calls : List Call} {call : Call}
    (agrees : onlineUser calls = members calls) (inTurn : LeavesInTurn calls call) :
    RoutesRightly calls call := by
  have after := agrees_concat agrees inTurn
  refine ⟨after ▸ nodup_members _, fun peer => after ▸ mem_members, ?_, ?_⟩
  · rw [sent, messageRoute_eq, agrees]
    exact (nodup_join (nodup_members calls)).map (sendTo_injective call)
  · intro datagram
    rw [sent, messageRoute_eq, agrees, List.mem_map]
    constructor
    · intro sends
      obtain ⟨peer, member, rfl⟩ := sends
      rw [mem_join, mem_members] at member
      exact ⟨peer, member, rfl⟩
    · intro wanted
      obtain ⟨peer, member, rfl⟩ := wanted
      rw [← mem_members, ← mem_join] at member
      exact ⟨peer, member, rfl⟩

theorem not_routesRightly_of_agrees {calls : List Call} {call : Call}
    (agrees : onlineUser calls = members calls) (outOfTurn : ¬ LeavesInTurn calls call) :
    ¬ RoutesRightly calls call := by
  intro right
  unfold LeavesInTurn at outOfTurn
  rw [Classical.not_imp, not_or] at outOfTurn
  obtain ⟨leaves, someone, notFirst⟩ := outOfTurn
  obtain ⟨first, rest, shape⟩ := List.exists_cons_of_ne_nil someone
  have different : first ≠ call.peer := by
    intro same
    rw [shape, List.head?_cons, same] at notFirst
    exact notFirst rfl
  -- the sender is online behind the call, for it is not what was erased
  have joined : join call.peer (first :: rest) =
      first :: deleteUser (join call.peer (first :: rest)) := by
    unfold join
    split
    · rfl
    · rfl
  have member : call.peer ∈ join call.peer (first :: rest) := mem_join.mpr (.inr rfl)
  rw [joined, List.mem_cons] at member
  have kept := member.resolve_left fun same => different same.symm
  have online := (right.exact call.peer).mp (by
    rw [onlineUser_concat, messageRoute_eq, agrees, shape]
    dsimp only
    rw [if_pos leaves]
    exact kept)
  rw [online_concat, if_pos rfl] at online
  exact online leaves

/-! ## Every sequence of calls -/

theorem agrees_of_in_turn {calls : List Call} (inTurn : Each LeavesInTurn calls) :
    onlineUser calls = members calls :=
  inTurn.invariant (fun calls => onlineUser calls = members calls) rfl
    fun _ _ agrees inTurn => agrees_concat agrees inTurn

/-- The calls are all routed rightly exactly if whoever quits finds nobody online or has
been online longest. -/
theorem routes_rightly_iff_in_turn (calls : List Call) :
    Each RoutesRightly calls ↔ Each LeavesInTurn calls := by
  refine each_iff (fun calls => onlineUser calls = members calls) rfl
    (fun _ _ agrees inTurn => agrees_concat agrees inTurn) ?_ calls
  intro calls call agrees
  constructor
  · intro right
    by_contra outOfTurn
    exact not_routesRightly_of_agrees agrees outOfTurn right
  · exact routesRightly_of_agrees agrees

def localPeer (low : UInt8) : InetAddr := .ofSockAddr ⟨(4, low), ⟨127, 0, 0, 1⟩⟩

/-- One peer says hi, another one quits: the first is erased, the second stays. -/
theorem quit_erases_another :
    ¬ RoutesRightly [⟨3, ascii "hi", localPeer 0⟩] ⟨3, quit, localPeer 1⟩ := by
  intro right
  have stays : localPeer 1 ∈
      onlineUser ([⟨3, ascii "hi", localPeer 0⟩] ++ [⟨3, quit, localPeer 1⟩]) := by
    decide
  obtain ⟨message, last, other⟩ := (right.exact _).mp stays
  rw [lastMessage_concat] at last
  cases last
  exact other rfl

end LinuxSystemLearning.Chat
