import Mathlib.Data.List.Basic
import TapProject.Basic.Memory
import TapProject.Basic.System

set_option autoImplicit false

/-! # Captured frames

The message `ebt_ulog_packet_msg_t` as the program reads it: its version, the names of the
bridge ports, the second of its arrival, the number of captured bytes, and memory from `msg->data`
on. The first `dataLen` bytes of `data` are the captured frame; what follows them is whatever the
receive buffer holds there.

Ethernet addresses are printed by `ether_ntoa` with `"%x:%x:%x:%x:%x:%x"`, without leading
zeros. The printing is injective (`etherNtoa_injective`). -/

namespace TapProject

open Slices

/-! ## Ethernet addresses -/

/-- `struct ether_addr` -/
structure EtherAddr where
  o0 : UInt8
  o1 : UInt8
  o2 : UInt8
  o3 : UInt8
  o4 : UInt8
  o5 : UInt8
  deriving DecidableEq, Repr

def etherNtoa (a : EtherAddr) : CStr :=
  hex a.o0.toNat ++ ':' :: (hex a.o1.toNat ++ ':' :: (hex a.o2.toNat ++ ':' ::
    (hex a.o3.toNat ++ ':' :: (hex a.o4.toNat ++ ':' :: hex a.o5.toNat))))

theorem colon_not_mem_hex (n : Nat) : ':' ∉ hex n :=
  Digits.not_mem_toDigits (by decide) (by decide)

theorem hex_toNat_injective {b c : UInt8} (h : hex b.toNat = hex c.toNat) : b = c :=
  UInt8.toNat_inj.mp (hex_injective h)

/-- The first of the colon-separated numbers can be read off. -/
theorem hex_colon_inj {b c : UInt8} {t u : CStr}
    (h : hex b.toNat ++ ':' :: t = hex c.toNat ++ ':' :: u) : b = c ∧ t = u := by
  obtain ⟨hbc, htu⟩ :=
    Digits.append_cons_inj (colon_not_mem_hex b.toNat) (colon_not_mem_hex c.toNat) h
  exact ⟨hex_toNat_injective hbc, htu⟩

/-- **Different addresses print differently.** -/
theorem etherNtoa_injective : Function.Injective etherNtoa := by
  rintro ⟨a0, a1, a2, a3, a4, a5⟩ ⟨b0, b1, b2, b3, b4, b5⟩ h
  obtain ⟨rfl, h⟩ := hex_colon_inj h
  obtain ⟨rfl, h⟩ := hex_colon_inj h
  obtain ⟨rfl, h⟩ := hex_colon_inj h
  obtain ⟨rfl, h⟩ := hex_colon_inj h
  obtain ⟨rfl, h⟩ := hex_colon_inj h
  obtain rfl := hex_toNat_injective h
  rfl

/-! ## Messages -/

/-- `ebt_ulog_packet_msg_t`, the fields the program reads. -/
structure EbtUlogPacketMsg where
  version : Int
  physindev : CStr
  physoutdev : CStr
  /-- `stamp.tv_sec` -/
  stamp : Int
  dataLen : Nat
  data : Nat → UInt8

/-- The message whose captured frame is `bytes`, with zeros behind it. -/
def EbtUlogPacketMsg.ofBytes (physindev physoutdev : CStr) (bytes : List UInt8) :
    EbtUlogPacketMsg :=
  ⟨1, physindev, physoutdev, 0, bytes.length, fun i => bytes.getD i 0⟩

def SIZE_ETHERNET : Nat := 14

namespace EbtUlogPacketMsg

variable (m : EbtUlogPacketMsg)

/-- The six bytes at `off`. -/
def etherAddr (off : Nat) : EtherAddr :=
  ⟨m.data off, m.data (off + 1), m.data (off + 2), m.data (off + 3), m.data (off + 4),
    m.data (off + 5)⟩

/-- Offsets of `h_dest` and `h_source` in `struct ethhdr`. -/
def hDestOff : Nat := 0
def hSourceOff : Nat := 6

/-- `ehdr->h_dest` -/
def hDest : EtherAddr := m.etherAddr hDestOff

/-- `ehdr->h_source` -/
def hSource : EtherAddr := m.etherAddr hSourceOff

/-- Offset of `h_proto`. -/
def hProtoOff : Nat := 12

/-- `ntohs(ehdr->h_proto)` -/
def ethertype : Nat := be16 m.data hProtoOff

def ETHERTYPE_IP : Nat := 0x0800

/-- Offset of `ip_len` from `msg->data`: the IPv4 header is overlaid behind the Ethernet
header. -/
def ipLenOff : Nat := SIZE_ETHERNET + 2

/-- Offset of `ip6_un1_plen` from `msg->data`: the IPv6 header is overlaid at `msg->data`
itself. -/
def ip6PlenOff : Nat := 4

def ipSrcOff : Nat := SIZE_ETHERNET + 12
def ipDstOff : Nat := SIZE_ETHERNET + 16

/-- `ipv4_addr_temp->ip_src.s_addr` -/
def ipSrc : Nat := le32 m.data ipSrcOff

/-- `ipv4_addr_temp->ip_dst.s_addr` -/
def ipDst : Nat := le32 m.data ipDstOff

/-- The bytes of `write(fd, msg->data, count)`, where the count is the 16-bit field at `off`,
taken as it stands in memory. -/
def counted (off : Nat) : List UInt8 := slice m.data 0 (le16 m.data off)

@[simp] theorem counted_length (off : Nat) : (m.counted off).length = le16 m.data off :=
  slice_length _ _ _

end EbtUlogPacketMsg

end TapProject
