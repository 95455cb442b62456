import TapProject.MacList.Table
import TapProject.Packet.Message

set_option autoImplicit false

/-! # The group tests of `write_tap_v5.c`

`write_packet_for_multicastadd`, `write_packet_for_broadcastadd` and
`write_packet_for_broadcast_macadd`: each returns 1 for the frames of its class and then has
written the frame to every node of the table. The six-byte and two-byte arrays that hold a
prefix of a printed address are compared by their contents.

`floodOff` and `ipv4Broadcast` are the decisions of the first two, without the writes. -/

namespace TapProject

open EbtUlogPacketMsg

def nul : Char := Char.ofNat 0

/-- `strncpy` into an array of `n` characters: cut off after `n`, filled up with NULs. -/
def strncpy (n : Nat) (s : CStr) : List Char := s.take n ++ List.replicate (n - s.length) nul

def multicastMacaddIpv4 : List Char := "1:0:5e".toList
def multicastMacaddIpv6 : List Char := "33:33:".toList
def broadcastMacaddIpv4 : List Char := "ff".toList

/-- `while(p != MAC_LIST_TAIL){ write(p->tap_fd_num, msg->data, <field>); p = p->mac_list_next; }`
where the field at `off` is read again for every node. -/
def writeAll (m : EbtUlogPacketMsg) (off : Nat) : List MacList → Sys → Sys
  | [], s => s
  | p :: next, s =>
      writeAll m off next (s.emit [.load off 2, .write p.tapFdNum (m.counted off)])

def writePacketForMulticastadd (item : CStr) (m : EbtUlogPacketMsg) (s : Sys) : Int × Sys :=
  let multicastMacaddTemp := strncpy 6 item
  if multicastMacaddTemp = multicastMacaddIpv4 then (1, writeAll m ipLenOff s.listTop s)
  else if multicastMacaddTemp = multicastMacaddIpv6 then (1, writeAll m ip6PlenOff s.listTop s)
  else (0, s)

def writePacketForBroadcastadd (m : EbtUlogPacketMsg) (s : Sys) : Int × Sys :=
  let s := s.emit [.load ipSrcOff 4, .load ipDstOff 4]
  let tempSrc := strncpy 2 (hex m.ipSrc)
  let tempDst := strncpy 2 (hex m.ipDst)
  if broadcastMacaddIpv4 = tempSrc ∨ broadcastMacaddIpv4 = tempDst then
    (1, writeAll m ipLenOff s.listTop s)
  else (0, s)

def writePacketForBroadcastMacadd (m : EbtUlogPacketMsg) (s : Sys) : Int × Sys :=
  (1, writeAll m ipLenOff s.listTop s)

/-! ## The decisions -/

/-- Where the count of the multicast flood of an address is read, `none` for an address that is
not flooded. -/
def floodOff (item : CStr) : Option Nat :=
  if strncpy 6 item = multicastMacaddIpv4 then some ipLenOff
  else if strncpy 6 item = multicastMacaddIpv6 then some ip6PlenOff
  else none

/-- The IP broadcast test. -/
def ipv4Broadcast (m : EbtUlogPacketMsg) : Bool :=
  decide (broadcastMacaddIpv4 = strncpy 2 (hex m.ipSrc)
    ∨ broadcastMacaddIpv4 = strncpy 2 (hex m.ipDst))

theorem writePacketForMulticastadd_some {item : CStr} {off : Nat} (h : floodOff item = some off)
    (m : EbtUlogPacketMsg) (s : Sys) :
    writePacketForMulticastadd item m s = (1, writeAll m off s.listTop s) := by
  unfold floodOff at h
  unfold writePacketForMulticastadd
  split at h
  next h4 => rw [Option.some.injEq] at h; simp only [if_pos h4, h]
  next h4 =>
    split at h
    next h6 => rw [Option.some.injEq] at h; simp only [if_neg h4, if_pos h6, h]
    next => exact absurd h (by simp)

theorem writePacketForMulticastadd_none {item : CStr} (h : floodOff item = none)
    (m : EbtUlogPacketMsg) (s : Sys) : writePacketForMulticastadd item m s = (0, s) := by
  unfold floodOff at h
  unfold writePacketForMulticastadd
  split at h
  next => exact absurd h (by simp)
  next h4 =>
    split at h
    next => exact absurd h (by simp)
    next h6 => simp only [if_neg h4, if_neg h6]

/-- **`write_packet_for_multicastadd` returns 1 exactly for the flooded addresses.** -/
theorem writePacketForMulticastadd_eq_one (item : CStr) (m : EbtUlogPacketMsg) (s : Sys) :
    (writePacketForMulticastadd item m s).1 = 1 ↔ (floodOff item).isSome := by
  cases h : floodOff item with
  | some off => simp [writePacketForMulticastadd_some h]
  | none => simp [writePacketForMulticastadd_none h]

theorem writePacketForBroadcastadd_eq (m : EbtUlogPacketMsg) (s : Sys) :
    writePacketForBroadcastadd m s =
      if ipv4Broadcast m then
        (1, writeAll m ipLenOff s.listTop (s.emit [.load ipSrcOff 4, .load ipDstOff 4]))
      else (0, s.emit [.load ipSrcOff 4, .load ipDstOff 4]) := by
  simp [writePacketForBroadcastadd, ipv4Broadcast]

/-! ## The flood -/

/-- The events of a flood. -/
def floodEvents (m : EbtUlogPacketMsg) (off : Nat) (l : List MacList) : List Event :=
  l.flatMap fun p => [.load off 2, .write p.tapFdNum (m.counted off)]

theorem writeAll_eq (m : EbtUlogPacketMsg) (off : Nat) (l : List MacList) (s : Sys) :
    writeAll m off l s = s.emit (floodEvents m off l) := by
  induction l generalizing s with
  | nil => simp [writeAll, floodEvents, Sys.emit]
  | cons p next ih => rw [writeAll, ih, Sys.emit_emit]; rfl

/-- One write for each node, in table order. -/
theorem writes_floodEvents (m : EbtUlogPacketMsg) (off : Nat) (l : List MacList) :
    writes (floodEvents m off l) = l.map fun p => (p.tapFdNum, m.counted off) := by
  induction l with
  | nil => rfl
  | cons p next ih => simpa [floodEvents, writes] using ih

theorem floodEvents_not_fd (m : EbtUlogPacketMsg) (off : Nat) (l : List MacList) :
    ∀ e ∈ floodEvents m off l, e.isFd = false := by
  intro e he
  obtain ⟨p, _, hp⟩ := List.mem_flatMap.mp he
  simp only [List.mem_cons, List.not_mem_nil, or_false] at hp
  rcases hp with rfl | rfl <;> rfl

end TapProject
