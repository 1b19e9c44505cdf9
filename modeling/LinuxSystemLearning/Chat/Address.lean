import LinuxSystemLearning.Cxx.Text
import LinuxSystemLearning.Library.Lines

/-!
# Addresses of peers

`InetAddr` keeps an address next to its dotted text and its port.  Two are equal when
the texts and the ports are, which is the case only if the addresses are.
-/

set_option autoImplicit false

namespace LinuxSystemLearning.Chat

open LinuxSystemLearning.Cxx
open LinuxSystemLearning.Lines

/-- `struct in_addr`, the octets in the order of the dotted text. -/
structure InAddr where
  first : UInt8
  second : UInt8
  third : UInt8
  fourth : UInt8
  deriving DecidableEq

/-- `struct sockaddr_in` of the family `AF_INET`; the two bytes of the port are in
network order. -/
structure SockAddrIn where
  sinPort : UInt8 × UInt8
  sinAddr : InAddr
  deriving DecidableEq

def ntohs (port : UInt8 × UInt8) : UInt16 :=
  UInt16.ofNat (port.1.toNat * 256 + port.2.toNat)

def dot : UInt8 := 46

def inetNtoa (addr : InAddr) : Bytes :=
  stdToString addr.first.toNat ++ dot :: (stdToString addr.second.toNat ++
    dot :: (stdToString addr.third.toNat ++ dot :: stdToString addr.fourth.toNat))

structure InetAddr where
  addr : SockAddrIn
  ip : Bytes
  port : UInt16
  ip_eq : ip = inetNtoa addr.sinAddr
  port_eq : port = ntohs addr.sinPort

namespace InetAddr

def ofSockAddr (addr : SockAddrIn) : InetAddr :=
  ⟨addr, inetNtoa addr.sinAddr, ntohs addr.sinPort, rfl, rfl⟩

def equals (user peer : InetAddr) : Bool :=
  user.ip == peer.ip && user.port == peer.port

def stringAddr (peer : InetAddr) : Bytes :=
  peer.ip ++ ascii ":" ++ stdToString peer.port.toNat

end InetAddr

/-! ## The texts tell addresses apart -/

theorem ntohs_injective : Function.Injective ntohs := by
  intro port port' same
  have value := congrArg UInt16.toNat same
  have high := port.1.toNat_lt
  have low := port.2.toNat_lt
  have high' := port'.1.toNat_lt
  have low' := port'.2.toNat_lt
  rw [ntohs, ntohs, UInt16.toNat_ofNat', UInt16.toNat_ofNat'] at value
  have one : port.1 = port'.1 := UInt8.toNat_inj.mp (by omega)
  have two : port.2 = port'.2 := UInt8.toNat_inj.mp (by omega)
  exact Prod.ext one two

theorem dot_not_mem_stdToString (value : Nat) : dot ∉ stdToString value := by
  intro member
  have digit := isdigit_of_mem_stdToString member
  cases digit

theorem octet_injective {octet octet' : UInt8}
    (same : stdToString octet.toNat = stdToString octet'.toNat) : octet = octet' :=
  UInt8.toNat_inj.mp (stdToString_injective same)

/-- The text in front of a dot gives the octet, and the text behind it is the rest. -/
theorem octet_dot_injective {octet octet' : UInt8} {rest rest' : Bytes}
    (same : stdToString octet.toNat ++ dot :: rest =
      stdToString octet'.toNat ++ dot :: rest') : octet = octet' ∧ rest = rest' := by
  have parts := cut_injective (dot_not_mem_stdToString _)
    (dot_not_mem_stdToString _) same
  exact ⟨octet_injective parts.1, parts.2⟩

theorem inetNtoa_injective : Function.Injective inetNtoa := by
  intro addr addr' same
  obtain ⟨first, same⟩ := octet_dot_injective same
  obtain ⟨second, same⟩ := octet_dot_injective same
  obtain ⟨third, same⟩ := octet_dot_injective same
  have fourth := octet_injective same
  cases addr
  cases addr'
  cases first
  cases second
  cases third
  cases fourth
  rfl

namespace InetAddr

theorem ext_addr {user peer : InetAddr} (same : user.addr = peer.addr) : user = peer := by
  obtain ⟨addr, ip, port, ip_eq, port_eq⟩ := user
  obtain ⟨addr', ip', port', ip_eq', port_eq'⟩ := peer
  cases same
  cases ip_eq
  cases ip_eq'
  cases port_eq
  cases port_eq'
  rfl

theorem equals_iff {user peer : InetAddr} : user.equals peer = true ↔ user = peer := by
  constructor
  · intro same
    simp only [equals, Bool.and_eq_true, beq_iff_eq] at same
    obtain ⟨ip, port⟩ := same
    rw [user.ip_eq, peer.ip_eq] at ip
    rw [user.port_eq, peer.port_eq] at port
    apply ext_addr
    have sinAddr := inetNtoa_injective ip
    have sinPort := ntohs_injective port
    cases userAddr : user.addr
    cases peerAddr : peer.addr
    rw [userAddr, peerAddr] at sinAddr sinPort
    cases sinAddr
    cases sinPort
    rfl
  · rintro rfl
    simp [equals]

instance : DecidableEq InetAddr := fun _ _ => decidable_of_iff _ equals_iff

end InetAddr

end LinuxSystemLearning.Chat
