import TapProject.Dispatch.OwnBytes
import TapProject.Packet.Prefixes

set_option autoImplicit false

/-! # How much of a frame is forwarded

The count of every `write` of the dispatcher is a 16-bit field of the frame as it stands in
memory: `ip_len` on every path but one, and on the path of the IPv6 multicast addresses two bytes
of the Ethernet header, because the IPv6 header is overlaid at `msg->data`. `WritesCount l m n`
says that each write issued for `m` passes `n` bytes.

`ip_len` is in network order and counts from the IP header on, so no frame of an IPv4 packet is
forwarded whole through it (`ipv4_whole_iff`); of the other frames those are whose bytes at the
offset happen to give their length (`frame_whole_iff`). -/

namespace TapProject

open EbtUlogPacketMsg

/-- Each write that handling `m` with the table `l` issues passes `n` bytes, whatever the system
answers. -/
def WritesCount (l : List MacList) (m : EbtUlogPacketMsg) (n : Nat) : Prop :=
  ∀ (host : Host) (s : Sys), s.listTop = l →
    ∃ es, (lastSys (distributePacket host m s)).trace = s.trace ++ es
      ∧ ∀ w ∈ writes es, w.2.length = n

/-- `e` is no `write`, or one that passes `n` bytes. -/
def Event.passes (n : Nat) (e : Event) : Prop := ∀ fd bytes, e = .write fd bytes → bytes.length = n

theorem Event.passes_of_not_isWrite {e : Event} (h : e.isWrite = false) (n : Nat) : e.passes n := by
  rintro fd bytes rfl
  exact absurd h (by simp [Event.isWrite])

/-- What a frame that is written passes is the field the dispatcher takes the count from. -/
theorem writesCount_iff (l : List MacList) (m : EbtUlogPacketMsg) (n : Nat) :
    WritesCount l m n ↔ (IsWritten l m → le16 m.data (countOff m) = n) := by
  constructor
  · intro h hw
    obtain ⟨es, hes, hcount⟩ := h freshHost ⟨l, [], []⟩ rfl
    obtain ⟨-, fd, hwrite⟩ :=
      mem_distributePacket_of_isWritten freshHost_succeeds (s := ⟨l, [], []⟩) hw
    rw [hes, List.nil_append, ← mem_writes] at hwrite
    have hlen := hcount _ hwrite
    rwa [counted_length] at hlen
  · intro h host s hl
    have hemits : Emits (Event.passes n) s (distributePacket host m s) := by
      apply Emits.distributePacket
      case hP =>
        intro e he
        apply Event.passes_of_not_isWrite
        cases e <;> simp_all [Event.offFrame, Event.isWrite]
      case htest =>
        intro e he
        obtain ⟨off, len, rfl⟩ := groupTest_loads m e he
        exact Event.passes_of_not_isWrite rfl n
      case haddr => exact fun _ _ _ => Event.passes_of_not_isWrite rfl n
      case hfield => exact fun _ => Event.passes_of_not_isWrite rfl n
      case hwrite =>
        intro hw fd fd' bytes heq
        rw [Event.write.injEq] at heq
        rw [← heq.2, counted_length]
        exact h (hl ▸ hw)
    obtain ⟨es, hes, hpasses⟩ := hemits
    exact ⟨es, hes, fun w hw => hpasses _ (mem_writes.mp hw) w.1 w.2 rfl⟩

/-! ## Where the count comes from -/

/-- The IPv6 branch of the multicast test takes the frame: it is tried on the destination first,
and on the source if the destination is no multicast address at all. -/
def ip6Flooded (m : EbtUlogPacketMsg) : Prop :=
  m.hDest.ipv6Multicast ∨ (¬ m.hDest.ipv4Multicast ∧ m.hSource.ipv6Multicast)

instance (m : EbtUlogPacketMsg) : Decidable (ip6Flooded m) := inferInstanceAs (Decidable (_ ∨ _))

theorem countOff_eq (m : EbtUlogPacketMsg) :
    countOff m = if ip6Flooded m then ip6PlenOff else ipLenOff := by
  unfold countOff ip6Flooded
  rw [floodOff_etherNtoa, floodOff_etherNtoa]
  by_cases hd4 : m.hDest.ipv4Multicast
  · simp [hd4, hd4.not_ipv6Multicast]
  · by_cases hd6 : m.hDest.ipv6Multicast
    · simp [hd4, hd6]
    · by_cases hs4 : m.hSource.ipv4Multicast
      · simp [hd4, hd6, hs4, hs4.not_ipv6Multicast]
      · by_cases hs6 : m.hSource.ipv6Multicast <;> simp [hd4, hd6, hs4, hs6]

/-- The IPv6 length, overlaid at `msg->data`, is the end of the destination address. -/
theorem le16_ip6PlenOff (m : EbtUlogPacketMsg) :
    le16 m.data ip6PlenOff = m.hDest.o4.toNat + 256 * m.hDest.o5.toNat := rfl

/-- The frame is dropped: it is no group frame, and it did not pass the interface. -/
def Dropped (m : EbtUlogPacketMsg) : Prop :=
  ¬ groupFrame m ∧ m.physoutdev ≠ interfaceDev ∧ m.physindev ≠ interfaceDev

theorem isWritten_iff_not_dropped {l : List MacList} (hl : l ≠ []) (m : EbtUlogPacketMsg) :
    IsWritten l m ↔ ¬ Dropped m := by
  unfold IsWritten Dropped
  by_cases hg : groupFrame m
  · simp [hg, hl]
  · rw [if_neg hg]
    simp only [hg, not_false_eq_true, true_and, not_and_or, not_not, ne_eq]

/-! ## Frames forwarded whole -/

/-- A captured IPv4 frame: the length field of the packet, in network order, is `len`, which
covers a header, and exactly the Ethernet header and the packet were captured. -/
structure Ipv4Frame (m : EbtUlogPacketMsg) (len : Nat) : Prop where
  ethertype : m.ethertype = ETHERTYPE_IP
  total : be16 m.data ipLenOff = len
  header : 20 ≤ len
  captured : m.dataLen = SIZE_ETHERNET + len

/-- The length field read in the host's order is never the length of the frame. -/
theorem le16_ne_of_be16 (mem : Nat → UInt8) (off : Nat) :
    le16 mem off ≠ SIZE_ETHERNET + be16 mem off := by
  have hlow := (mem off).toNat_lt
  have hhigh := (mem (off + 1)).toNat_lt
  rw [le16, be16, SIZE_ETHERNET]
  omega

/-- **No IPv4 frame is forwarded whole by its length.** With any nonempty table, the writes for
an IPv4 frame pass the Ethernet header and the packet exactly when there are none, or when the
IPv6 branch takes the frame and the end of its destination address is the right number. -/
theorem ipv4_whole_iff {l : List MacList} (hl : l ≠ []) {m : EbtUlogPacketMsg} {len : Nat}
    (hm : Ipv4Frame m len) :
    WritesCount l m (SIZE_ETHERNET + len)
      ↔ Dropped m ∨ (ip6Flooded m
          ∧ m.hDest.o4.toNat + 256 * m.hDest.o5.toNat = SIZE_ETHERNET + len) := by
  rw [writesCount_iff, isWritten_iff_not_dropped hl]
  by_cases h6 : ip6Flooded m
  · rw [countOff_eq, if_pos h6, le16_ip6PlenOff]
    tauto
  · have hne := le16_ne_of_be16 m.data ipLenOff
    rw [hm.total] at hne
    rw [countOff_eq, if_neg h6]
    tauto

/-- A group frame whose count is another number is not forwarded whole. -/
theorem not_writesCount {l : List MacList} (hl : l ≠ []) {m : EbtUlogPacketMsg} {off n : Nat}
    (ht : (groupTest m).2 = some off) (hne : le16 m.data off ≠ n) : ¬ WritesCount l m n := by
  rw [writesCount_iff, isWritten_of_some ht, countOff_of_some ht]
  exact fun h => hne (h hl)

/-- A broadcast packet of 20 bytes, its length field in network order, is written with 5120 bytes
instead of 34. -/
theorem ipv4_not_whole_broadcast :
    Ipv4Frame (broadcastMsg 0) 20
      ∧ (writes (lastSys (distributePacket freshHost (broadcastMsg 0) oneGuest)).trace).map
          (fun w => w.2.length) = [5120]
      ∧ ¬ WritesCount oneGuest.listTop (broadcastMsg 0) 34 := by
  have htest : (groupTest (broadcastMsg 0)).2 = some ipLenOff := by decide
  have hcount : le16 (broadcastMsg 0).data ipLenOff = 5120 := by decide
  refine ⟨⟨by decide, by decide, by decide, by decide⟩, ?_, ?_⟩
  · rw [writes_distributePacket_some freshHost htest]
    simp [oneGuest, writes, hcount]
  · exact not_writesCount (by decide) htest (by rw [hcount]; decide)

/-- An IPv4 packet of 20 bytes behind the destination address 33:33:0:0:22:0, of which 22:0 is
the number 34. -/
def luckyMsg : EbtUlogPacketMsg :=
  .ofBytes [] [] ([0x33, 0x33, 0, 0, 0x22, 0] ++ broadcastFrame.drop 6)

theorem ipv4_whole_lucky : WritesCount oneGuest.listTop luckyMsg (SIZE_ETHERNET + 20) :=
  (ipv4_whole_iff (by decide) ⟨by decide, by decide, by decide, by decide⟩).mpr
    (Or.inr ⟨by decide, by decide⟩)

/-- **Which frames are forwarded whole**, of whatever protocol: with any nonempty table, the
writes for a frame pass all of its captured bytes exactly when there are none, or when the two
bytes the dispatcher takes for a length give this number, the low byte first. -/
theorem frame_whole_iff {l : List MacList} (hl : l ≠ []) (m : EbtUlogPacketMsg) :
    WritesCount l m m.dataLen
      ↔ Dropped m
        ∨ (ip6Flooded m ∧ m.hDest.o4.toNat + 256 * m.hDest.o5.toNat = m.dataLen)
        ∨ (¬ ip6Flooded m ∧ (m.data 16).toNat + 256 * (m.data 17).toNat = m.dataLen) := by
  rw [writesCount_iff, isWritten_iff_not_dropped hl]
  by_cases h6 : ip6Flooded m
  · rw [countOff_eq, if_pos h6, le16_ip6PlenOff]
    tauto
  · have hfield : le16 m.data ipLenOff = (m.data 16).toNat + 256 * (m.data 17).toNat := rfl
    rw [countOff_eq, if_neg h6, hfield]
    tauto

/-- A captured IPv6 frame with `payload` bytes behind the IPv6 header. -/
structure Ipv6Frame (m : EbtUlogPacketMsg) (payload : Nat) : Prop where
  ethertype : m.ethertype = 0x86dd
  length : be16 m.data (SIZE_ETHERNET + 4) = payload
  captured : m.dataLen = SIZE_ETHERNET + 40 + payload

/-- In the IPv6 branch the payload length of the packet plays no part: the destination address
decides how much of the frame is forwarded. -/
theorem ipv6_flooded_whole_iff {l : List MacList} (hl : l ≠ []) {m : EbtUlogPacketMsg}
    {payload : Nat} (hm : Ipv6Frame m payload) (h6 : ip6Flooded m) :
    WritesCount l m (54 + payload) ↔ m.hDest.o4.toNat + 256 * m.hDest.o5.toNat = m.dataLen := by
  have hgroup : IsWritten l m := by
    rw [isWritten_iff_not_dropped hl]
    intro hdropped
    apply hdropped.1
    rcases h6 with hd | ⟨-, hs⟩
    · exact Or.inl (by rw [hd.floodOff_eq]; rfl)
    · exact Or.inr (Or.inl (by rw [hs.floodOff_eq]; rfl))
  rw [writesCount_iff, countOff_eq, if_pos h6, le16_ip6PlenOff, hm.captured, SIZE_ETHERNET]
  exact ⟨fun h => h hgroup, fun h _ => h⟩

/-- An ARP request for a guest, and a neighbour solicitation with a payload of 32 bytes to the
address 33:33:ff:d:`o4`:`o5`. -/
def arpFrame : List UInt8 :=
  [0xff, 0xff, 0xff, 0xff, 0xff, 0xff, 0x00, 0xa0, 0xde, 0xaa, 0x5b, 0x89, 0x08, 0x06,
    0, 1, 8, 0, 6, 4, 0, 1, 0x00, 0xa0, 0xde, 0xaa, 0x5b, 0x89, 192, 168, 0, 2,
    0, 0, 0, 0, 0, 0, 192, 168, 0, 3]

def solicitFrame (o4 o5 : UInt8) : List UInt8 :=
  [0x33, 0x33, 0xff, 0x0d, o4, o5, 0x00, 0xa0, 0xde, 0xaa, 0x5b, 0x89, 0x86, 0xdd,
    0x60, 0, 0, 0, 0, 32, 58, 255] ++ List.replicate 64 0

theorem frame_whole_solicit :
    WritesCount oneGuest.listTop (.ofBytes [] [] (solicitFrame 0x56 0x00)) 86 :=
  (frame_whole_iff (by decide) (.ofBytes [] [] (solicitFrame 0x56 0x00))).mpr
    (Or.inr (Or.inl ⟨by decide, by decide⟩))

/-- Of the ARP request the guest is sent 8 bytes of 42, and for the solicitation to
33:33:ff:d:58:c1 49496 bytes are passed instead of 86. -/
theorem not_whole_arp_solicit :
    (EbtUlogPacketMsg.ofBytes [] [] arpFrame).ethertype = 0x0806
      ∧ ¬ WritesCount oneGuest.listTop (.ofBytes [] [] arpFrame) 42
      ∧ WritesCount oneGuest.listTop (.ofBytes [] [] arpFrame) 8
      ∧ Ipv6Frame (.ofBytes [] [] (solicitFrame 0x58 0xc1)) 32
      ∧ ¬ WritesCount oneGuest.listTop (.ofBytes [] [] (solicitFrame 0x58 0xc1)) 86
      ∧ WritesCount oneGuest.listTop (.ofBytes [] [] (solicitFrame 0x58 0xc1)) 49496 := by
  have harp : (groupTest (.ofBytes [] [] arpFrame)).2 = some ipLenOff := by decide
  have hns : (groupTest (.ofBytes [] [] (solicitFrame 0x58 0xc1))).2 = some ip6PlenOff := by decide
  refine ⟨by decide, not_writesCount (by decide) harp (by decide), ?_,
    ⟨by decide, by decide, by decide⟩, not_writesCount (by decide) hns (by decide), ?_⟩
  · rw [writesCount_iff, countOff_of_some harp]
    exact fun _ => by decide
  · rw [writesCount_iff, countOff_of_some hns]
    exact fun _ => by decide

end TapProject
