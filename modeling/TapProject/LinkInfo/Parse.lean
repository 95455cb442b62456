import TapProject.Lib.Loops
import TapProject.Netlink.Header
import TapProject.Packet.MacFilter

set_option autoImplicit false

/-! # The link information of `ebtables_test.c`

`main` receives the kernel's answer to `RTM_GETLINK` and walks over it in two nested loops, over
the messages and over the attributes of each `RTM_NEWLINK` message. The loops keep a pointer and
the bytes that are left as an `int`; the macros `NLMSG_OK`, `NLMSG_NEXT`, `RTA_OK` and `RTA_NEXT`
mix that `int` with the unsigned lengths in the data. `parse` is the walk over the memory `buf`
from the start of the receive buffer on, after `recv` returned `n`.

A run is the list of what it does, `Act`, the reads of `buf` among it. A loop that makes more
turns than there are bytes left counts as one that does not end. -/

namespace TapProject.LinkInfo

open Loops
open Netlink (nlmsgLen nlmsgType nlmsgAlign nlmsgData NLMSG_HDRLEN)

/-! ## Integers -/

/-- A value stored in an `int`. -/
def narrow (x : Int) : Int := x.bmod (2 ^ 32)

/-- An `int` compared with an unsigned number. -/
def unsigned (x : Int) : Nat := (x % 2 ^ 32).toNat

/-- The difference of two numbers of type `size_t`. -/
def sizeSub (x y : Nat) : Nat := (((x : Int) - y) % 2 ^ 64).toNat

theorem narrow_eq {x : Int} (hlo : -2 ^ 31 ≤ x) (hhi : x < 2 ^ 31) : narrow x = x := by
  rw [narrow, Int.bmod_eq_of_le] <;> omega

theorem unsigned_eq {x : Int} (hlo : 0 ≤ x) (hhi : x < 2 ^ 31) : (unsigned x : Int) = x := by
  rw [unsigned]
  omega

theorem sizeSub_eq {x y : Nat} (h : y ≤ x) (hx : x < 2 ^ 64) : sizeSub x y = x - y := by
  rw [sizeSub]
  omega

/-! ## Runs -/

/-- What the walk does. `message nlh` and `attr nlh rta` stand at the start of the loop bodies, for
the message at `nlh` and its attribute at `rta`. `load off len` is a read of `len` bytes, and
`printText pre off` prints `pre` and the string at `off`, which it reads up to its NUL. -/
inductive Act
  | message (nlh : Nat)
  | attr (nlh rta : Nat)
  | load (off len : Nat)
  | print (line : CStr)
  | printText (pre : CStr) (off : Nat)
  deriving DecidableEq, Repr

/-- `sizeof(buf)` -/
def BUFSIZE : Nat := 4096

/-- A loop did not end. -/
inductive Endless
  | endless
  deriving DecidableEq, Repr

/-- The pointer of a loop, as an offset into `buf`, and the bytes that are left. -/
structure Cur where
  off : Nat
  len : Int
  deriving DecidableEq, Repr

variable (buf : Nat → UInt8)

/-! ## The macros for messages -/

/-- `NLMSG_OK(nlh, len)` -/
def nlmsgOk (c : Cur) : Prop :=
  (NLMSG_HDRLEN : Int) ≤ c.len ∧ NLMSG_HDRLEN ≤ nlmsgLen buf c.off
    ∧ nlmsgLen buf c.off ≤ unsigned c.len

instance : DecidablePred (nlmsgOk buf) := fun _ => inferInstanceAs (Decidable (_ ∧ _))

/-- What `NLMSG_OK` reads: nothing when the bytes left are no header. -/
def nlmsgOkLoads (c : Cur) : List Act :=
  if (NLMSG_HDRLEN : Int) ≤ c.len then [.load c.off 4] else []

/-- `NLMSG_NEXT(nlh, len)` -/
def nlmsgNext (c : Cur) : Cur :=
  ⟨Netlink.nlmsgNext buf c.off, narrow (c.len - nlmsgAlign (nlmsgLen buf c.off))⟩

/-- `NLMSG_LENGTH(len)` -/
def nlmsgLength (len : Nat) : Nat := len + NLMSG_HDRLEN

/-! ## The macros for attributes -/

def RTA_ALIGNTO : Nat := 4

/-- `RTA_ALIGN`, on 32 bits. -/
def rtaAlign (len : Nat) : Nat :=
  (len + RTA_ALIGNTO - 1) % 2 ^ 32 / RTA_ALIGNTO * RTA_ALIGNTO

/-- `sizeof(struct rtattr)`, which is aligned. -/
def RTA_HDRLEN : Nat := 4

def rtaLen (rta : Nat) : Nat := le16 buf rta
def rtaType (rta : Nat) : Nat := le16 buf (rta + 2)

/-- `RTA_OK(rta, len)` -/
def rtaOk (c : Cur) : Prop :=
  (RTA_HDRLEN : Int) ≤ c.len ∧ RTA_HDRLEN ≤ rtaLen buf c.off ∧ (rtaLen buf c.off : Int) ≤ c.len

instance : DecidablePred (rtaOk buf) := fun _ => inferInstanceAs (Decidable (_ ∧ _))

def rtaOkLoads (c : Cur) : List Act :=
  if (RTA_HDRLEN : Int) ≤ c.len then [.load c.off 2] else []

/-- `RTA_NEXT(rta, len)` -/
def rtaNext (c : Cur) : Cur :=
  ⟨c.off + rtaAlign (rtaLen buf c.off), narrow (c.len - rtaAlign (rtaLen buf c.off))⟩

/-- `RTA_DATA(rta)` -/
def rtaData (rta : Nat) : Nat := rta + RTA_HDRLEN

/-- `RTA_PAYLOAD(rta)`, of type `size_t`. -/
def rtaPayload (rta : Nat) : Nat := sizeSub (rtaLen buf rta) RTA_HDRLEN

/-! ## The body of the inner loop -/

def IFLA_ADDRESS : Nat := 1
def IFLA_BROADCAST : Nat := 2
def IFLA_IFNAME : Nat := 3
def IFLA_MTU : Nat := 4
def IFLA_LINK : Nat := 5
def IFLA_STATS : Nat := 7

/-- `sizeof(struct net_device_stats)`: twenty-three counters. -/
def sizeofNetDeviceStats : Nat := 23 * 8

/-- `*(int *)` of the four bytes at `off`. -/
def intAt (off : Nat) : Int := narrow (le32 buf off)

/-- `%ld` of the counter at `off`. -/
def longAt (off : Nat) : Int :=
  ((le32 buf off + 2 ^ 32 * le32 buf (off + 4) : Nat) : Int).bmod (2 ^ 64)

/-- The `switch` on `rta->rta_type`. -/
def showAttr (rta : Nat) : List Act :=
  .load (rta + 2) 2 ::
    if rtaType buf rta = IFLA_IFNAME then [.printText " + ".toList (rtaData rta)]
    else if rtaType buf rta = IFLA_MTU then
      [.load (rtaData rta) 4, .print (" + MTU : ".toList ++ signed (intAt buf (rtaData rta)))]
    else if rtaType buf rta = IFLA_LINK then
      [.load (rtaData rta) 4,
        .print (" + Link Type : ".toList ++ signed (intAt buf (rtaData rta)))]
    else if rtaType buf rta = IFLA_ADDRESS ∨ rtaType buf rta = IFLA_BROADCAST then
      .load rta 2 ::
        if rtaPayload buf rta = 6 then
          [.load (rta + 2) 2, .load (rtaData rta) 6,
            .print (" + ".toList
              ++ (if rtaType buf rta = IFLA_ADDRESS then "Address".toList else "Broadcast".toList)
              ++ " : ".toList ++ MacFilter.macText (MacFilter.etherAddr buf (rtaData rta)))]
        else []
    else if rtaType buf rta = IFLA_STATS then
      .load rta 2 ::
        if rtaPayload buf rta ≠ sizeofNetDeviceStats then []
        else
          [.load (rtaData rta) 8, .load (rtaData rta + 8) 8,
            .print (" + stats : rxpkt=".toList ++ signed (longAt buf (rtaData rta))
              ++ ", txpkt=".toList ++ signed (longAt buf (rtaData rta + 8)))]
    else []

/-- A turn of the inner loop: the `switch`, and `RTA_NEXT`. -/
def attrTurn (nlh : Nat) (c : Cur) : Except Endless (List Act) :=
  .ok (.attr nlh c.off :: showAttr buf c.off ++ [.load c.off 2])

/-! ## The body of the outer loop -/

def RTM_NEWLINK : Nat := 16
def AF_UNSPEC : Nat := 0
def AF_INET6 : Nat := 10

/-- `sizeof(struct ifinfomsg)`, which is aligned. -/
def sizeofIfinfomsg : Nat := 16

/-- `ifimsg->ifi_family` and `ifimsg->ifi_index` of the message at `nlh`. -/
def ifiFamily (nlh : Nat) : Nat := (buf (nlmsgData nlh)).toNat
def ifiIndex (nlh : Nat) : Int := intAt buf (nlmsgData nlh + 4)

/-- Where the inner loop starts: behind the `ifinfomsg`, with `rtalist_len` bytes left. -/
def attrStart (nlh : Nat) : Cur :=
  ⟨nlmsgData nlh + sizeofIfinfomsg,
    narrow (sizeSub (nlmsgLen buf nlh) (nlmsgLength sizeofIfinfomsg))⟩

def attrLoop (nlh : Nat) : Except Endless (List Act) :=
  forLoop .endless (rtaOk buf) (rtaNext buf) rtaOkLoads (attrTurn buf nlh)
    ((attrStart buf nlh).len.toNat + 1) (attrStart buf nlh)

/-- `ifi_family != AF_UNSPEC && ifi_family != AF_INET6` does not hold. -/
def accepted (nlh : Nat) : Prop := ifiFamily buf nlh = AF_UNSPEC ∨ ifiFamily buf nlh = AF_INET6

instance (nlh : Nat) : Decidable (accepted buf nlh) := inferInstanceAs (Decidable (_ ∨ _))

/-- What is printed of every message. -/
def showHeader (nlh : Nat) : List Act :=
  [.message nlh, .print "=================================".toList,
    .load nlh 4, .print ("len : ".toList ++ signed (narrow (nlmsgLen buf nlh))),
    .load (nlh + 4) 2, .print ("type : ".toList ++ decimal (nlmsgType buf nlh)),
    .load (nlh + 4) 2]

def showMessage (nlh : Nat) : Except Endless (List Act) :=
  if nlmsgType buf nlh ≠ RTM_NEWLINK then
    .ok (showHeader buf nlh
      ++ [.load (nlh + 4) 2, .print ("error : ".toList ++ decimal (nlmsgType buf nlh))])
  else if ¬ accepted buf nlh then
    .ok (showHeader buf nlh ++ [.load (nlmsgData nlh) 1,
      .print ("error family : ".toList ++ decimal (ifiFamily buf nlh))])
  else
    match attrLoop buf nlh with
    | .error e => .error e
    | .ok attrs =>
        .ok (showHeader buf nlh ++ [.load (nlmsgData nlh) 1, .load (nlmsgData nlh + 4) 4,
          .print (" index : ".toList ++ signed (ifiIndex buf nlh)), .load nlh 4] ++ attrs)

/-- A turn of the outer loop: the body, and `NLMSG_NEXT`. -/
def messageTurn (c : Cur) : Except Endless (List Act) :=
  match showMessage buf c.off with
  | .error e => .error e
  | .ok es => .ok (es ++ [.load c.off 4])

def parse (n : Nat) : Except Endless (List Act) :=
  forLoop .endless (nlmsgOk buf) (nlmsgNext buf) nlmsgOkLoads (messageTurn buf) (n + 1) ⟨0, n⟩

end TapProject.LinkInfo
