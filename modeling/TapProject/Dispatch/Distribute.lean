import TapProject.MacList.NameBuffers
import TapProject.Packet.Classify

set_option autoImplicit false

/-! # The dispatcher of `write_tap_v5.c`

`distributePacket` is the `DISTRIBUTE_PACKET` block of `main`: the group tests in their order,
each with its own `goto label`, and after them one learn-lookup-write sequence for each of the
two interfaces. `mainBody` is the loop body around it, which also asks for the date of the message.

The block reads the frame in a fixed order; `groupTest` collects what the tests read and, for a
frame that a test sends to `label`, where the count of its flood is read. `distributePacket_eq`
splits the block into this test, the flood and the unicast part. -/

namespace TapProject

open EbtUlogPacketMsg

def interfaceDev : CStr := "vif1.0-emu".toList

def broadcastMac : CStr := "ff:ff:ff:ff:ff:ff".toList

/-- `ether_ntoa` of the address at `off`: the six bytes are read each time it is called. -/
def readAddr (off : Nat) (s : Sys) : Sys := s.emit [.load off 6]

/-- The unicast sequence for the address at `off`: learn it, look it up, write to its node. -/
def learnAndWrite (host : Host) (off : Nat) (m : EbtUlogPacketMsg) (s : Sys) :
    Except Halt Sys :=
  match macListAdd host (etherNtoa (m.etherAddr off)) (readAddr off s) with
  | .error h => .error h
  | .ok s =>
      let s := readAddr off s
      match macListCheck (etherNtoa (m.etherAddr off)) s.listTop with
      | none => .error ⟨.nullDeref, s⟩
      | some p => .ok (s.emit [.load ipLenOff 2, .write p.tapFdNum (m.counted ipLenOff)])

/-- The part of the block after the group tests. -/
def unicast (host : Host) (m : EbtUlogPacketMsg) (s : Sys) : Except Halt Sys :=
  match (if m.physoutdev = interfaceDev then learnAndWrite host hDestOff m s else .ok s) with
  | .error h => .error h
  | .ok s => if m.physindev = interfaceDev then learnAndWrite host hSourceOff m s else .ok s

def distributePacket (host : Host) (m : EbtUlogPacketMsg) (s : Sys) : Except Halt Sys :=
  -- for multicastaddress: the second address is only tested when the first is no group address
  let (r, s) := writePacketForMulticastadd (etherNtoa m.hDest) m (readAddr hDestOff s)
  if r = 1 then .ok (macListPrint s) else
  let (r, s) := writePacketForMulticastadd (etherNtoa m.hSource) m (readAddr hSourceOff s)
  if r = 1 then .ok (macListPrint s) else
  -- the broadcast address, again on both
  let s := readAddr hDestOff s
  if etherNtoa m.hDest = broadcastMac then
    .ok (macListPrint (writePacketForBroadcastMacadd m s).2) else
  let s := readAddr hSourceOff s
  if etherNtoa m.hSource = broadcastMac then
    .ok (macListPrint (writePacketForBroadcastMacadd m s).2) else
  let (r, s) := writePacketForBroadcastadd m s
  if r = 1 then .ok (macListPrint s) else
  -- no group frame
  match unicast host m s with
  | .error h => .error h
  | .ok s => .ok (macListPrint s)

def EBT_ULOG_VERSION : Int := 1

/-- The names formatted so far fit their arrays, or the run ends here. `mac_list_add` above gives a
name the room it needs, so what the block did with the message in which a name did not fit is what
it does with longer arrays. -/
def checkNames (r : Except Halt Sys) : Except Halt Sys :=
  if NamesFit (lastSys r).listTop.length then r else .error ⟨.overrun, lastSys r⟩

/-- The body of `main`'s loop for a message that was received. `localtime` says whether a time has a
date; for one that has none the function returns `NULL`, and `strftime` follows it. -/
def mainBody (localtime : Int → Bool) (host : Host) (m : EbtUlogPacketMsg) (s : Sys) :
    Except Halt Sys :=
  if m.version ≠ EBT_ULOG_VERSION then
    .ok (s.emit [.print ("WRONG VERSION: ".toList ++ signed m.version ++ " INSTEAD OF ".toList
      ++ signed EBT_ULOG_VERSION)])
  else if ¬ localtime m.stamp then .error ⟨.nullDeref, s⟩
  else checkNames (distributePacket host m s)

/-! ## The group tests together -/

/-- What the group tests read, and where the count of the flood is read if one of them sends the
frame to `label`. -/
def groupTest (m : EbtUlogPacketMsg) : List Event × Option Nat :=
  match floodOff (etherNtoa m.hDest) with
  | some off => ([.load hDestOff 6], some off)
  | none =>
    match floodOff (etherNtoa m.hSource) with
    | some off => ([.load hDestOff 6, .load hSourceOff 6], some off)
    | none =>
      if etherNtoa m.hDest = broadcastMac then
        ([.load hDestOff 6, .load hSourceOff 6, .load hDestOff 6], some ipLenOff)
      else
        let macs : List Event :=
          [.load hDestOff 6, .load hSourceOff 6, .load hDestOff 6, .load hSourceOff 6]
        if etherNtoa m.hSource = broadcastMac then (macs, some ipLenOff)
        else (macs ++ [.load ipSrcOff 4, .load ipDstOff 4],
          if ipv4Broadcast m then some ipLenOff else none)

/-- The ways the group tests can end, in the order of the tests. -/
theorem groupTest_cases (m : EbtUlogPacketMsg) :
    (∃ off, floodOff (etherNtoa m.hDest) = some off
      ∧ groupTest m = ([.load hDestOff 6], some off))
    ∨ (∃ off, floodOff (etherNtoa m.hDest) = none ∧ floodOff (etherNtoa m.hSource) = some off
      ∧ groupTest m = ([.load hDestOff 6, .load hSourceOff 6], some off))
    ∨ (floodOff (etherNtoa m.hDest) = none ∧ floodOff (etherNtoa m.hSource) = none
      ∧ etherNtoa m.hDest = broadcastMac
      ∧ groupTest m = ([.load hDestOff 6, .load hSourceOff 6, .load hDestOff 6], some ipLenOff))
    ∨ (floodOff (etherNtoa m.hDest) = none ∧ floodOff (etherNtoa m.hSource) = none
      ∧ etherNtoa m.hDest ≠ broadcastMac ∧ etherNtoa m.hSource = broadcastMac
      ∧ groupTest m = ([.load hDestOff 6, .load hSourceOff 6, .load hDestOff 6,
          .load hSourceOff 6], some ipLenOff))
    ∨ (floodOff (etherNtoa m.hDest) = none ∧ floodOff (etherNtoa m.hSource) = none
      ∧ etherNtoa m.hDest ≠ broadcastMac ∧ etherNtoa m.hSource ≠ broadcastMac
      ∧ groupTest m = ([.load hDestOff 6, .load hSourceOff 6, .load hDestOff 6,
          .load hSourceOff 6, .load ipSrcOff 4, .load ipDstOff 4],
          if ipv4Broadcast m then some ipLenOff else none)) := by
  unfold groupTest
  cases hd : floodOff (etherNtoa m.hDest) with
  | some off => exact Or.inl ⟨off, rfl, rfl⟩
  | none =>
      cases hs : floodOff (etherNtoa m.hSource) with
      | some off => exact Or.inr (Or.inl ⟨off, rfl, rfl, rfl⟩)
      | none =>
          refine Or.inr (Or.inr ?_)
          by_cases hdb : etherNtoa m.hDest = broadcastMac
          · exact Or.inl ⟨rfl, rfl, hdb, by rw [if_pos hdb]⟩
          · refine Or.inr ?_
            by_cases hsb : etherNtoa m.hSource = broadcastMac
            · exact Or.inl ⟨rfl, rfl, hdb, hsb, by rw [if_neg hdb, if_pos hsb]⟩
            · exact Or.inr ⟨rfl, rfl, hdb, hsb, by rw [if_neg hdb, if_neg hsb]; rfl⟩

/-- A frame is a group frame when one of the block's own tests sends it to `label`. -/
def groupFrame (m : EbtUlogPacketMsg) : Prop :=
  (floodOff (etherNtoa m.hDest)).isSome ∨ (floodOff (etherNtoa m.hSource)).isSome
    ∨ etherNtoa m.hDest = broadcastMac ∨ etherNtoa m.hSource = broadcastMac
    ∨ ipv4Broadcast m = true

instance (m : EbtUlogPacketMsg) : Decidable (groupFrame m) := inferInstanceAs (Decidable (_ ∨ _))

theorem groupTest_isSome (m : EbtUlogPacketMsg) : (groupTest m).2.isSome ↔ groupFrame m := by
  unfold groupFrame
  rcases groupTest_cases m with ⟨off, hd, h⟩ | ⟨off, hd, hs, h⟩ | ⟨hd, hs, hdb, h⟩
    | ⟨hd, hs, hdb, hsb, h⟩ | ⟨hd, hs, hdb, hsb, h⟩
  · simp [h, hd]
  · simp [h, hs]
  · simp [h, hdb]
  · simp [h, hsb]
  · cases hb : ipv4Broadcast m <;> simp [h, hd, hs, hdb, hsb, hb]

/-- **The block is the group test, then a flood or the unicast part.** -/
theorem distributePacket_eq (host : Host) (m : EbtUlogPacketMsg) (s : Sys) :
    distributePacket host m s =
      match (groupTest m).2 with
      | some off => .ok (macListPrint (s.emit ((groupTest m).1 ++ floodEvents m off s.listTop)))
      | none =>
          match unicast host m (s.emit (groupTest m).1) with
          | .error h => .error h
          | .ok s => .ok (macListPrint s) := by
  unfold distributePacket
  rcases groupTest_cases m with ⟨off, hd, h⟩ | ⟨off, hd, hs, h⟩ | ⟨hd, hs, hdb, h⟩
    | ⟨hd, hs, hdb, hsb, h⟩ | ⟨hd, hs, hdb, hsb, h⟩
  · simp [h, writePacketForMulticastadd_some hd, writeAll_eq, readAddr]
  · simp [h, writePacketForMulticastadd_none hd, writePacketForMulticastadd_some hs, writeAll_eq,
      readAddr]
  · simp only [writePacketForMulticastadd_none hd, writePacketForMulticastadd_none hs, h]
    simp [hdb, writePacketForBroadcastMacadd, writeAll_eq, readAddr]
  · simp only [writePacketForMulticastadd_none hd, writePacketForMulticastadd_none hs, h]
    simp [hdb, hsb, writePacketForBroadcastMacadd, writeAll_eq, readAddr]
  · simp only [writePacketForMulticastadd_none hd, writePacketForMulticastadd_none hs, h]
    cases hb : ipv4Broadcast m <;>
      simp [hdb, hsb, hb, writePacketForBroadcastadd_eq, writeAll_eq, readAddr]

end TapProject
