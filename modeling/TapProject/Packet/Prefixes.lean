import Mathlib.Tactic.IntervalCases
import TapProject.Packet.Classify

set_option autoImplicit false

/-! # What the group tests decide

The group tests compare the first characters of a printed number with a fixed text, and print
without leading zeros. Both tests come down to the text being a prefix of the printed one
(`strncpy_eq_iff`).

For an Ethernet address the colons keep the digits of neighbouring bytes apart, and the test
decides the right set of addresses (`multicast_decides`). An IP address is printed as one number,
its last octet first; where that octet has no two digits the test looks at digits of the octets
before it (`broadcast_decides_iff`). -/

namespace TapProject

open EbtUlogPacketMsg

/-- An array that was filled to its end holds the first characters of the string. -/
theorem strncpy_eq_iff {n : Nat} {s t : List Char} (hlen : t.length = n) (hnul : nul ∉ t) :
    strncpy n s = t ↔ t <+: s := by
  by_cases hs : n ≤ s.length
  · have hfill : strncpy n s = s.take n := by
      rw [strncpy, Nat.sub_eq_zero_of_le hs, List.replicate_zero, List.append_nil]
    rw [hfill, List.prefix_iff_eq_take, hlen, eq_comm]
  · -- a shorter string leaves a NUL in the array
    constructor
    · intro h
      have hmem : nul ∈ strncpy n s :=
        List.mem_append_right _ (List.mem_replicate.mpr ⟨by omega, rfl⟩)
      exact absurd (h ▸ hmem) hnul
    · intro h
      have := h.length_le
      omega

/-! ## Multicast addresses -/

/-- 01:00:5e:… -/
def EtherAddr.ipv4Multicast (a : EtherAddr) : Prop := a.o0 = 0x01 ∧ a.o1 = 0x00 ∧ a.o2 = 0x5e

/-- 33:33:… -/
def EtherAddr.ipv6Multicast (a : EtherAddr) : Prop := a.o0 = 0x33 ∧ a.o1 = 0x33

instance (a : EtherAddr) : Decidable a.ipv4Multicast := inferInstanceAs (Decidable (_ ∧ _))

instance (a : EtherAddr) : Decidable a.ipv6Multicast := inferInstanceAs (Decidable (_ ∧ _))

/-- No address is in both sets. -/
theorem EtherAddr.ipv4Multicast.not_ipv6Multicast {a : EtherAddr} (h : a.ipv4Multicast) :
    ¬ a.ipv6Multicast := by
  intro h6
  have h0 : (0x01 : UInt8) = 0x33 := h.1.symm.trans h6.1
  exact absurd h0 (by decide)

theorem hex_byte_length_le (b : UInt8) : (hex b.toNat).length ≤ 2 :=
  (Nat.length_toDigits_le_iff (by decide) (by decide)).mpr b.toNat_lt

/-- Two digits in front of a printed byte that ends at a colon are the whole byte. -/
theorem hex_eq_of_append {b : UInt8} {c d : Char} {t u : CStr} (hd : d ≠ ':')
    (h : hex b.toNat ++ ':' :: t = c :: d :: u) : hex b.toNat = [c, d] := by
  have hlen := hex_byte_length_le b
  cases hx : hex b.toNat with
  | nil => exact absurd hx Nat.toDigits_ne_nil
  | cons x xs =>
      rw [hx] at h hlen
      cases xs with
      | nil => exact absurd (List.cons.inj (List.cons.inj h).2).1.symm hd
      | cons y ys =>
          have hys : ys = [] := by
            rw [← List.length_eq_zero_iff]
            simp only [List.length_cons] at hlen
            omega
          rw [hys, (List.cons.inj h).1, (List.cons.inj (List.cons.inj h).2).1]

/-- A byte in front of a printed address that begins with `t` and a colon is printed as `t`. -/
theorem hex_eq_of_colon {b : UInt8} {t u v : CStr} (ht : ':' ∉ t)
    (h : hex b.toNat ++ ':' :: u = t ++ ':' :: v) : hex b.toNat = t ∧ u = v :=
  Digits.append_cons_inj (colon_not_mem_hex b.toNat) ht h

theorem ipv4_prefix_iff (a : EtherAddr) :
    multicastMacaddIpv4 <+: etherNtoa a ↔ a.ipv4Multicast := by
  constructor
  · rintro ⟨u, hu⟩
    have hsplit : ['1'] ++ ':' :: (['0'] ++ ':' :: '5' :: 'e' :: u) = etherNtoa a := hu
    obtain ⟨h0, h⟩ := hex_eq_of_colon (by decide) hsplit.symm
    obtain ⟨h1, h⟩ := hex_eq_of_colon (by decide) h
    have h2 := hex_eq_of_append (by decide) h
    exact ⟨hex_toNat_injective (h0.trans (by decide)), hex_toNat_injective (h1.trans (by decide)),
      hex_toNat_injective (h2.trans (by decide))⟩
  · rintro ⟨h0, h1, h2⟩
    have hx0 : hex a.o0.toNat = ['1'] := by rw [h0]; decide
    have hx1 : hex a.o1.toNat = ['0'] := by rw [h1]; decide
    have hx2 : hex a.o2.toNat = ['5', 'e'] := by rw [h2]; decide
    rw [etherNtoa, hx0, hx1, hx2]
    exact ⟨_, rfl⟩

theorem ipv6_prefix_iff (a : EtherAddr) :
    multicastMacaddIpv6 <+: etherNtoa a ↔ a.ipv6Multicast := by
  constructor
  · rintro ⟨u, hu⟩
    have hsplit : ['3', '3'] ++ ':' :: (['3', '3'] ++ ':' :: u) = etherNtoa a := hu
    obtain ⟨h0, h⟩ := hex_eq_of_colon (by decide) hsplit.symm
    obtain ⟨h1, -⟩ := hex_eq_of_colon (by decide) h
    exact ⟨hex_toNat_injective (h0.trans (by decide)), hex_toNat_injective (h1.trans (by decide))⟩
  · rintro ⟨h0, h1⟩
    have hx0 : hex a.o0.toNat = ['3', '3'] := by rw [h0]; decide
    have hx1 : hex a.o1.toNat = ['3', '3'] := by rw [h1]; decide
    rw [etherNtoa, hx0, hx1]
    exact ⟨_, rfl⟩

theorem tempEqIpv4_iff (a : EtherAddr) :
    strncpy 6 (etherNtoa a) = multicastMacaddIpv4 ↔ a.ipv4Multicast :=
  (strncpy_eq_iff (by decide) (by decide)).trans (ipv4_prefix_iff a)

theorem tempEqIpv6_iff (a : EtherAddr) :
    strncpy 6 (etherNtoa a) = multicastMacaddIpv6 ↔ a.ipv6Multicast :=
  (strncpy_eq_iff (by decide) (by decide)).trans (ipv6_prefix_iff a)

/-- Where the count of a flood is read, by the first bytes of the address. -/
theorem floodOff_etherNtoa (a : EtherAddr) :
    floodOff (etherNtoa a)
      = if a.ipv4Multicast then some ipLenOff
        else if a.ipv6Multicast then some ip6PlenOff
        else none := by
  simp only [floodOff, tempEqIpv4_iff, tempEqIpv6_iff]

theorem EtherAddr.ipv4Multicast.floodOff_eq {a : EtherAddr} (h : a.ipv4Multicast) :
    floodOff (etherNtoa a) = some ipLenOff := by
  rw [floodOff_etherNtoa, if_pos h]

theorem EtherAddr.ipv6Multicast.floodOff_eq {a : EtherAddr} (h : a.ipv6Multicast) :
    floodOff (etherNtoa a) = some ip6PlenOff := by
  rw [floodOff_etherNtoa, if_neg fun h4 => h4.not_ipv6Multicast h, if_pos h]

/-- **`write_packet_for_multicastadd` decides the right sets of addresses.** Its first comparison
succeeds for 01:00:5e:… only and its second for 33:33:… only; it returns 1 after the flood of the
branch taken, and for any other address it returns 0 and does nothing. -/
theorem multicast_decides (a : EtherAddr) (m : EbtUlogPacketMsg) (s : Sys) :
    (strncpy 6 (etherNtoa a) = multicastMacaddIpv4 ↔ a.o0 = 0x01 ∧ a.o1 = 0x00 ∧ a.o2 = 0x5e)
      ∧ (strncpy 6 (etherNtoa a) = multicastMacaddIpv6 ↔ a.o0 = 0x33 ∧ a.o1 = 0x33)
      ∧ writePacketForMulticastadd (etherNtoa a) m s
        = if a.o0 = 0x01 ∧ a.o1 = 0x00 ∧ a.o2 = 0x5e then (1, writeAll m ipLenOff s.listTop s)
          else if a.o0 = 0x33 ∧ a.o1 = 0x33 then (1, writeAll m ip6PlenOff s.listTop s)
          else (0, s) := by
  refine ⟨tempEqIpv4_iff a, tempEqIpv6_iff a, ?_⟩
  show _ = if a.ipv4Multicast then _ else if a.ipv6Multicast then _ else _
  simp only [writePacketForMulticastadd, tempEqIpv4_iff, tempEqIpv6_iff]

/-! ## IP broadcast addresses -/

section

variable (m : EbtUlogPacketMsg) (off : Nat)

/-- The last octet of the IP address at `off` is 255. -/
def EndsIn255 : Prop := m.data (off + 3) = 255

/-- The IP address at `off` ends in a small octet, and what the text of the number begins with
is the `ff` of octets before it: `10.0.250.15` prints as `ffa000a`. -/
def Misread : Prop :=
  (m.data (off + 3) = 15 ∧ 240 ≤ m.data (off + 2))
    ∨ (m.data (off + 3) = 0 ∧ (m.data (off + 2) = 255
      ∨ (m.data (off + 2) = 15 ∧ 240 ≤ m.data (off + 1))
      ∨ (m.data (off + 2) = 0 ∧ (m.data (off + 1) = 255
        ∨ (m.data (off + 1) = 15 ∧ 240 ≤ m.data off)
        ∨ (m.data (off + 1) = 0 ∧ m.data off = 255)))))

instance : Decidable (EndsIn255 m off) := inferInstanceAs (Decidable (_ = _))

instance : Decidable (Misread m off) := inferInstanceAs (Decidable (_ ∨ _))

end

/-- A number of four bytes whose hexadecimal text begins with `ff`. -/
theorem ff_isPrefix_iff {a b c d : Nat} (ha : a < 256) (hb : b < 256) (hc : c < 256)
    (hd : d < 256) :
    broadcastMacaddIpv4 <+: hex (a + 256 * b + 65536 * (c + 256 * d)) ↔
      d = 255 ∨ (d = 15 ∧ 240 ≤ c) ∨ (d = 0 ∧ (c = 255 ∨ (c = 15 ∧ 240 ≤ b)
        ∨ (c = 0 ∧ (b = 255 ∨ (b = 15 ∧ 240 ≤ a) ∨ (b = 0 ∧ a = 255))))) := by
  have hff : broadcastMacaddIpv4 = Nat.toDigits 16 255 := by decide
  rw [hff, hex, Digits.toDigits_isPrefix_iff (by decide) (by decide) (by decide)]
  constructor
  · rintro ⟨i, hi⟩
    -- at most eight digits, of which two are left
    have hi7 : i < 7 := by
      by_contra hge
      have hpow : 16 ^ 7 ≤ 16 ^ i := Nat.pow_le_pow_right (by decide) (by omega)
      have hmul := Nat.div_mul_le_self (a + 256 * b + 65536 * (c + 256 * d)) (16 ^ i)
      rw [hi] at hmul
      omega
    interval_cases i <;> omega
  · rintro (h | h | ⟨h, h' | h' | ⟨h', h'' | h'' | h''⟩⟩)
    · exact ⟨6, by omega⟩
    · exact ⟨5, by omega⟩
    · exact ⟨4, by omega⟩
    · exact ⟨3, by omega⟩
    · exact ⟨2, by omega⟩
    · exact ⟨1, by omega⟩
    · exact ⟨0, by omega⟩

/-- The comparison succeeds for the addresses that end in 255 and for the misread ones. -/
theorem tempEqBroadcast_iff (m : EbtUlogPacketMsg) (off : Nat) :
    broadcastMacaddIpv4 = strncpy 2 (hex (le32 m.data off)) ↔ EndsIn255 m off ∨ Misread m off := by
  have hlt : ∀ i, (m.data i).toNat < 256 := fun i => (m.data i).toNat_lt
  rw [eq_comm, strncpy_eq_iff (by decide) (by decide), le32, le16, le16,
    ff_isPrefix_iff (hlt _) (hlt _) (hlt _) (hlt _)]
  simp only [EndsIn255, Misread, ← UInt8.toNat_inj, UInt8.le_iff_toNat_le]
  rfl

theorem ipv4Broadcast_iff (m : EbtUlogPacketMsg) :
    ipv4Broadcast m = true ↔ (EndsIn255 m ipSrcOff ∨ Misread m ipSrcOff)
      ∨ EndsIn255 m ipDstOff ∨ Misread m ipDstOff := by
  rw [ipv4Broadcast, decide_eq_true_iff, ipSrc, ipDst, tempEqBroadcast_iff, tempEqBroadcast_iff]

theorem writePacketForBroadcastadd_fst (m : EbtUlogPacketMsg) (s : Sys) :
    (writePacketForBroadcastadd m s).1 = if ipv4Broadcast m then 1 else 0 := by
  rw [writePacketForBroadcastadd_eq]
  split <;> rfl

/-- **`write_packet_for_broadcastadd` returns 1 for the addresses that end in 255 and 0 for all
others, exactly on the frames in which one of the two addresses ends in 255 or none is misread.** -/
theorem broadcast_decides_iff (m : EbtUlogPacketMsg) :
    (∀ s, (writePacketForBroadcastadd m s).1
        = if EndsIn255 m ipSrcOff ∨ EndsIn255 m ipDstOff then 1 else 0)
      ↔ (EndsIn255 m ipSrcOff ∨ EndsIn255 m ipDstOff)
        ∨ (¬ Misread m ipSrcOff ∧ ¬ Misread m ipDstOff) := by
  have hiff := ipv4Broadcast_iff m
  constructor
  · intro h
    have hs := h Sys.boot
    rw [writePacketForBroadcastadd_fst] at hs
    by_cases hend : EndsIn255 m ipSrcOff ∨ EndsIn255 m ipDstOff
    · exact Or.inl hend
    · -- the test says no, so no address is misread
      have hno : ¬ ipv4Broadcast m = true := by
        intro hyes
        rw [if_pos hyes, if_neg hend] at hs
        exact absurd hs (by decide)
      rw [hiff] at hno
      exact Or.inr ⟨fun hm => hno (Or.inl (Or.inr hm)), fun hm => hno (Or.inr (Or.inr hm))⟩
  · intro h s
    have hsame : ipv4Broadcast m = true ↔ EndsIn255 m ipSrcOff ∨ EndsIn255 m ipDstOff := by
      rw [hiff]
      tauto
    rw [writePacketForBroadcastadd_fst]
    simp only [hsame]

/-- An IPv4 frame of 34 bytes from 10.0.250.15 to 10.0.0.1. -/
def misreadFrame : List UInt8 :=
  [0x00, 0x16, 0x3e, 0x0d, 0x58, 0xc1, 0x00, 0xa0, 0xde, 0xaa, 0x5b, 0x89, 0x08, 0x00,
    0x45, 0, 0, 20, 0, 0, 0, 0, 64, 17, 0, 0, 10, 0, 250, 15, 10, 0, 0, 1]

/-- Neither address ends in 255, and the test returns 1. -/
theorem misread_broadcast :
    (EbtUlogPacketMsg.ofBytes [] [] misreadFrame).ethertype = ETHERTYPE_IP
      ∧ 34 ≤ (EbtUlogPacketMsg.ofBytes [] [] misreadFrame).dataLen
      ∧ ¬ (EndsIn255 (.ofBytes [] [] misreadFrame) ipSrcOff
        ∨ EndsIn255 (.ofBytes [] [] misreadFrame) ipDstOff)
      ∧ (writePacketForBroadcastadd (.ofBytes [] [] misreadFrame) Sys.boot).1 = 1 := by
  decide

end TapProject
