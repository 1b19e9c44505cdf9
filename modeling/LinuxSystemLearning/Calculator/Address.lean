import LinuxSystemLearning.Chat.Address
import LinuxSystemLearning.Cxx.CharArray

/-!
# The address object of the network calculator

`SetAddr` takes the port from its parameter and the text from the member, which it does not
set.  Only the constructor for an address sets the member first.
-/

set_option autoImplicit false

namespace LinuxSystemLearning.Calculator

open LinuxSystemLearning.Cxx
open LinuxSystemLearning.Chat (InAddr SockAddrIn ntohs dot inetNtoa ntohs_injective
  inetNtoa_injective dot_not_mem_stdToString)

/-! ## The code -/

structure InetAddr where
  addr : SockAddrIn
  ip : Bytes
  port : UInt16

def htons (port : UInt16) : UInt8 × UInt8 :=
  (UInt8.ofNat (port.toNat / 256), UInt8.ofNat (port.toNat % 256))

def sizeofAddr : Nat := 16

/-- `inet_ntop` into an array; it fails if the text and its NUL do not fit. -/
def inetNtop (addr : InAddr) (size : Nat) : Option Bytes :=
  if (inetNtoa addr).length < size then some (inetNtoa addr) else none

def octetOf (text : Bytes) : Option UInt8 :=
  let value := digitsValue text
  if value < 256 ∧ stdToString value = text then some (UInt8.ofNat value) else none

def isDot (byte : UInt8) : Bool := byte = dot

def inetPton (text : Bytes) : Option InAddr :=
  match text.splitOnP isDot with
  | [first, second, third, fourth] => do
      some ⟨← octetOf first, ← octetOf second, ← octetOf third, ← octetOf fourth⟩
  | _ => none

namespace InetAddr

/-- `INADDR_ANY`, and what `memset` leaves. -/
def anyAddr : InAddr := ⟨0, 0, 0, 0⟩

/-- The text is taken from the member `addr`; without a text the array is read as it is. -/
def setAddr (peer : InetAddr) (addr : SockAddrIn) : Option InetAddr := do
  let ip ← inetNtop peer.addr.sinAddr sizeofAddr
  some { peer with port := ntohs addr.sinPort, ip := ip }

def ofText (ip : Bytes) (port : UInt16) : InetAddr where
  addr := ⟨htons port, (inetPton (cString ip)).getD anyAddr⟩
  ip := ip
  port := port

def ofPort (port : UInt16) : InetAddr where
  addr := ⟨htons port, anyAddr⟩
  ip := ascii "0"
  port := port

def default : InetAddr := ofPort 8080

def equals (peer other : InetAddr) : Bool := peer.ip == other.ip && peer.port == other.port

end InetAddr

/-! ## What an object should say -/

structure Setting where
  peer : InetAddr
  addr : SockAddrIn

/-- The object says what the address says, and can be built again from its text and port. -/
structure Describes (after : InetAddr) (addr : SockAddrIn) : Prop where
  ip : after.ip = inetNtoa addr.sinAddr
  port : after.port = ntohs addr.sinPort
  netAddr : after.addr = addr
  rebuilt : (InetAddr.ofText after.ip after.port).equals after = true
  rebuiltAddr : (InetAddr.ofText after.ip after.port).addr = addr

/-- Both objects describe their addresses, and differ if these do. -/
def PeersDescribed (one two : Setting) : Prop :=
  ∃ after after', one.peer.setAddr one.addr = some after ∧ two.peer.setAddr two.addr = some after' ∧
    Describes after one.addr ∧ Describes after' two.addr ∧
    (one.addr.sinAddr ≠ two.addr.sinAddr ∨ one.addr.sinPort ≠ two.addr.sinPort →
      after.equals after' = false)

/-! ## Texts and ports there and back -/

theorem length_octet_le (octet : UInt8) : (stdToString octet.toNat).length ≤ 3 :=
  length_stdToString_le (by decide) (Nat.lt_trans octet.toNat_lt (by decide))

/-- The longest text has fifteen characters. -/
theorem inetNtop_eq (addr : InAddr) : inetNtop addr sizeofAddr = some (inetNtoa addr) := by
  have first := length_octet_le addr.first
  have second := length_octet_le addr.second
  have third := length_octet_le addr.third
  have fourth := length_octet_le addr.fourth
  apply if_pos
  simp only [inetNtoa, List.length_append, List.length_cons, sizeofAddr]
  omega

theorem htons_ntohs (port : UInt8 × UInt8) : htons (ntohs port) = port := by
  apply ntohs_injective
  have high := (UInt8.toNat_lt port.1)
  have low := (UInt8.toNat_lt port.2)
  have value : (ntohs port).toNat = port.1.toNat * 256 + port.2.toNat := by
    rw [ntohs, UInt16.toNat_ofNat']
    omega
  apply UInt16.toNat_inj.mp
  rw [value, ntohs, htons, value, UInt16.toNat_ofNat', UInt8.toNat_ofNat', UInt8.toNat_ofNat']
  omega

theorem octetOf_eq (octet : UInt8) : octetOf (stdToString octet.toNat) = some octet := by
  have value := digitsValue_stdToString octet.toNat
  have small : octet.toNat < 256 := octet.toNat_lt
  simp only [octetOf, value, small, true_and, if_true, UInt8.ofNat_toNat]

theorem splitOnP_octet (octet : UInt8) :
    (stdToString octet.toNat).splitOnP isDot = [stdToString octet.toNat] := by
  apply List.splitOnP_eq_singleton
  intro byte member
  refine decide_eq_false ?_
  rintro rfl
  exact dot_not_mem_stdToString _ member

theorem inetPton_inetNtoa (addr : InAddr) : inetPton (inetNtoa addr) = some addr := by
  have separates : isDot dot = true := rfl
  unfold inetPton inetNtoa
  rw [List.splitOnP_append_cons _ _ separates, List.splitOnP_append_cons _ _ separates,
    List.splitOnP_append_cons _ _ separates]
  simp only [splitOnP_octet, List.cons_append, List.nil_append, octetOf_eq, Option.bind_eq_bind,
    Option.bind_some]

theorem nulFree_stdToString (value : Nat) : 0 ∉ stdToString value := by
  intro member
  have digit := isdigit_of_mem_stdToString member
  cases digit

theorem cString_inetNtoa (addr : InAddr) : cString (inetNtoa addr) = inetNtoa addr := by
  rw [cString, List.takeWhile_eq_self_iff]
  intro byte member
  refine decide_eq_true ?_
  rintro rfl
  simp only [inetNtoa, List.mem_append, List.mem_cons, nulFree_stdToString, false_or, or_false]
    at member
  exact absurd member (by decide)

/-! ## Setting an address -/

variable {peer after : InetAddr} {addr : SockAddrIn}

theorem InetAddr.setAddr_eq (peer : InetAddr) (addr : SockAddrIn) :
    peer.setAddr addr = some ⟨peer.addr, inetNtoa peer.addr.sinAddr, ntohs addr.sinPort⟩ := by
  rw [InetAddr.setAddr, inetNtop_eq]
  rfl

theorem describes_of_eq (ip : after.ip = inetNtoa addr.sinAddr)
    (port : after.port = ntohs addr.sinPort) (netAddr : after.addr = addr) :
    Describes after addr where
  ip := ip
  port := port
  netAddr := netAddr
  rebuilt := by simp [InetAddr.ofText, InetAddr.equals]
  rebuiltAddr := by
    rw [InetAddr.ofText, ip, port, cString_inetNtoa, inetPton_inetNtoa, htons_ntohs]
    rfl

theorem describes_setAddr (same : peer.addr = addr) (ran : peer.setAddr addr = some after) :
    Describes after addr := by
  rw [InetAddr.setAddr_eq, same] at ran
  cases ran
  exact describes_of_eq rfl rfl rfl

theorem addr_of_setAddr (ran : peer.setAddr addr = some after) : after.addr = peer.addr := by
  rw [InetAddr.setAddr_eq] at ran
  cases ran
  rfl

theorem Describes.not_equals {other : InetAddr} {addr' : SockAddrIn} (one : Describes after addr)
    (two : Describes other addr')
    (differ : addr.sinAddr ≠ addr'.sinAddr ∨ addr.sinPort ≠ addr'.sinPort) :
    after.equals other = false := by
  rw [Bool.eq_false_iff]
  intro same
  simp only [InetAddr.equals, Bool.and_eq_true, beq_iff_eq] at same
  obtain ⟨ip, port⟩ := same
  rw [one.ip, two.ip] at ip
  rw [one.port, two.port] at port
  rcases differ with sinAddr | sinPort
  · exact sinAddr (inetNtoa_injective ip)
  · exact sinPort (ntohs_injective port)

/-- Objects describe the addresses they are set to exactly if they had them already. -/
theorem peersDescribed_iff (one two : Setting) :
    PeersDescribed one two ↔ one.peer.addr = one.addr ∧ two.peer.addr = two.addr := by
  constructor
  · rintro ⟨after, after', ran, ran', describes, describes', -⟩
    exact ⟨(addr_of_setAddr ran).symm.trans describes.netAddr,
      (addr_of_setAddr ran').symm.trans describes'.netAddr⟩
  · rintro ⟨same, same'⟩
    have ran := one.peer.setAddr_eq one.addr
    have ran' := two.peer.setAddr_eq two.addr
    have describes := describes_setAddr same ran
    have describes' := describes_setAddr same' ran'
    exact ⟨_, _, ran, ran', describes, describes', describes.not_equals describes'⟩

/-- What `Accept` is given, and a peer on the same machine. -/
def accepted : Setting := ⟨.default, ⟨(31, 144), ⟨127, 0, 0, 1⟩⟩⟩

theorem accepted_not_described : ¬ PeersDescribed accepted accepted := by
  rintro ⟨after, after', ran, -, describes, -⟩
  have kept := addr_of_setAddr ran
  rw [describes.netAddr] at kept
  exact absurd kept (by decide)

/-- Behind `Accept` every peer has the text of the address `0.0.0.0`. -/
theorem accept_ip (addr : SockAddrIn) (ran : InetAddr.default.setAddr addr = some after) :
    after.ip = ascii "0.0.0.0" := by
  rw [InetAddr.setAddr_eq] at ran
  cases ran
  have text : inetNtoa InetAddr.anyAddr = ascii "0.0.0.0" := by decide
  exact text

end LinuxSystemLearning.Calculator
