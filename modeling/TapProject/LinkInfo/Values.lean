import TapProject.LinkInfo.Parse
import TapProject.Netlink.Encode

set_option autoImplicit false

/-! # Links as the kernel describes them

What a dump says, without its bytes: messages of links, each with the values of its attributes, and
messages of other types. `bytes` is how the kernel writes them down, and `lines` what there is to
print of them. An attribute of a kind that the program prints has a value of that kind; all others,
and addresses and statistics of another size, are `other`. -/

namespace TapProject.LinkInfo

open Slices
open Netlink (NlMsg encode NLMSG_HDRLEN)

/-! ## Attributes -/

inductive Value
  | ifname (name : List UInt8)
  | mtu (value : UInt32)
  | link (value : UInt32)
  | address (a : EtherAddr)
  | broadcast (a : EtherAddr)
  | stats (rxPackets txPackets : UInt64) (rest : List UInt8)
  | other (type : UInt16) (payload : List UInt8)
  deriving DecidableEq, Repr

def addrBytes (a : EtherAddr) : List UInt8 := [a.o0, a.o1, a.o2, a.o3, a.o4, a.o5]

def bytes64 (n : Nat) : List UInt8 := bytes32 n ++ bytes32 (n / 2 ^ 32)

@[simp] theorem bytes64_length (n : Nat) : (bytes64 n).length = 8 := rfl

namespace Value

/-- `rta_type` -/
def type : Value → Nat
  | ifname _ => IFLA_IFNAME
  | mtu _ => IFLA_MTU
  | link _ => IFLA_LINK
  | address _ => IFLA_ADDRESS
  | broadcast _ => IFLA_BROADCAST
  | stats _ _ _ => IFLA_STATS
  | other type _ => type.toNat

theorem type_lt (v : Value) : v.type < 65536 := by
  cases v with
  | other type _ => exact type.toNat_lt
  | _ => simp [type, IFLA_IFNAME, IFLA_MTU, IFLA_LINK, IFLA_ADDRESS, IFLA_BROADCAST, IFLA_STATS]

def payload : Value → List UInt8
  | ifname name => name ++ [0]
  | mtu value => bytes32 value.toNat
  | link value => bytes32 value.toNat
  | address a => addrBytes a
  | broadcast a => addrBytes a
  | stats rx tx rest => bytes64 rx.toNat ++ (bytes64 tx.toNat ++ rest)
  | other _ payload => payload

/-- A name ends with its NUL, the statistics have all their counters, and any other attribute is
none that the program prints. -/
def Valid : Value → Prop
  | ifname name => 0 ∉ name
  | stats _ _ rest => rest.length = sizeofNetDeviceStats - 16
  | other type payload => type.toNat ≠ IFLA_IFNAME ∧ type.toNat ≠ IFLA_MTU ∧ type.toNat ≠ IFLA_LINK
      ∧ (type.toNat = IFLA_ADDRESS ∨ type.toNat = IFLA_BROADCAST → payload.length ≠ 6)
      ∧ (type.toNat = IFLA_STATS → payload.length ≠ sizeofNetDeviceStats)
  | _ => True

instance : DecidablePred Valid := fun v => by
  cases v <;> unfold Valid <;> infer_instance

/-- What is printed of the attribute. -/
def lines : Value → List CStr
  | ifname name => [" + ".toList ++ name.map fun b => Char.ofNat b.toNat]
  | mtu value => [" + MTU : ".toList ++ signed (narrow value.toNat)]
  | link value => [" + Link Type : ".toList ++ signed (narrow value.toNat)]
  | address a => [" + Address : ".toList ++ MacFilter.macText a]
  | broadcast a => [" + Broadcast : ".toList ++ MacFilter.macText a]
  | stats rx tx _ => [" + stats : rxpkt=".toList ++ signed ((rx.toNat : Int).bmod (2 ^ 64))
      ++ ", txpkt=".toList ++ signed ((tx.toNat : Int).bmod (2 ^ 64))]
  | other _ _ => []

end Value

/-- An attribute of a size that its header can hold. -/
structure Attr where
  value : Value
  valid : value.Valid
  fits : RTA_HDRLEN + value.payload.length < 2 ^ 16

namespace Attr

variable (a : Attr)

/-- `rta_len` -/
def len : Nat := RTA_HDRLEN + a.value.payload.length

def bytes : List UInt8 :=
  bytes16 a.len ++ (bytes16 a.value.type
    ++ (a.value.payload ++ List.replicate (rtaAlign a.len - a.len) 0))

end Attr

/-! ## Messages -/

/-- `struct ifinfomsg`, and the attributes behind it. -/
structure Link where
  family : UInt8
  type : UInt16
  index : UInt32
  flags : UInt32
  change : UInt32
  attrs : List Attr

namespace Link

variable (l : Link)

def ifinfomsg : List UInt8 :=
  [l.family, 0] ++ (bytes16 l.type.toNat ++ (bytes32 l.index.toNat
    ++ (bytes32 l.flags.toNat ++ bytes32 l.change.toNat)))

def bytes : List UInt8 := l.ifinfomsg ++ l.attrs.flatMap Attr.bytes

/-- The families whose links are printed. -/
def Accepted : Prop := l.family.toNat = AF_UNSPEC ∨ l.family.toNat = AF_INET6

instance : Decidable l.Accepted := inferInstanceAs (Decidable (_ ∨ _))

def lines : List CStr :=
  if l.Accepted then
    (" index : ".toList ++ signed (narrow l.index.toNat)) :: l.attrs.flatMap fun a => a.value.lines
  else ["error family : ".toList ++ decimal l.family.toNat]

end Link

/-- A message of a dump: a link, or a message of another type. -/
inductive Entry
  | link (l : Link) (flags : UInt16) (seq pid : UInt32)
  | other (m : NlMsg) (h : m.type.toNat ≠ RTM_NEWLINK)

/-- The message of a link. -/
def Link.msg (l : Link) (flags : UInt16) (seq pid : UInt32) : NlMsg :=
  ⟨UInt16.ofNat RTM_NEWLINK, flags, seq, pid, l.bytes⟩

/-- What is printed of every message. -/
def headerLines (m : NlMsg) : List CStr :=
  ["=================================".toList, "len : ".toList ++ signed (narrow m.len),
    "type : ".toList ++ decimal m.type.toNat]

namespace Entry

def msg : Entry → NlMsg
  | link l flags seq pid => l.msg flags seq pid
  | other m _ => m

/-- What is printed of the message. -/
def lines : Entry → List CStr
  | link l flags seq pid => headerLines (l.msg flags seq pid) ++ l.lines
  | other m _ => headerLines m ++ ["error : ".toList ++ decimal m.type.toNat]

end Entry

/-- The bytes of a dump. -/
def dump (entries : List Entry) : List UInt8 := encode (entries.map Entry.msg)

end TapProject.LinkInfo
