import TapProject.Packet.Prefixes

set_option autoImplicit false

/-! # The character arrays of the group tests

The texts that the group tests compare fill their arrays to the last character, so that there is
no NUL in `multicast_macadd_ipv4[6]`, `multicast_macadd_ipv6[6]` and `broadcast_macadd_ipv4[2]`,
and none in an array `strncpy` has filled. `multicastStrOps` and `broadcastStrOps` list the calls
of `sprintf`, `strncpy` and `strcmp` that the tests make, each with the arrays it is handed, and
`StrOp.Inside` says that a call stays in them.

A comparison of two full arrays stays inside exactly when it finds a difference
(`strcmp_of_full`), so a test that is to say yes has run past its arrays
(`staysInside_iff`). -/

namespace TapProject

open EbtUlogPacketMsg

/-- `strcmp` of the strings in two arrays: whether they are the same, or `none` when the
comparison runs past the end of an array before it is decided. -/
def strcmp : List Char → List Char → Option Bool
  | c :: s, d :: t => if c ≠ d then some false else if c = nul then some true else strcmp s t
  | _, _ => none

/-- Two arrays of one length of which one holds no NUL. -/
theorem strcmp_of_full {s t : List Char} (hlen : s.length = t.length) (h : nul ∉ s ∨ nul ∉ t) :
    strcmp s t = if s = t then none else some false := by
  induction s generalizing t with
  | nil =>
      have ht : t = [] := List.length_eq_zero_iff.mp hlen.symm
      rw [ht, if_pos rfl]
      rfl
  | cons c s ih =>
      cases t with
      | nil => simp at hlen
      | cons d t =>
          by_cases hcd : c = d
          · subst hcd
            have hc : c ≠ nul := by
              rintro rfl
              exact h.elim (· List.mem_cons_self) (· List.mem_cons_self)
            have htail : nul ∉ s ∨ nul ∉ t :=
              h.imp (fun hs hmem => hs (List.mem_cons_of_mem c hmem))
                (fun ht hmem => ht (List.mem_cons_of_mem c hmem))
            rw [strcmp, if_neg (by simp), if_neg hc, ih (by simpa using hlen) htail]
            simp only [List.cons.injEq, true_and]
          · rw [strcmp, if_pos hcd, if_neg fun heq => hcd (List.cons.inj heq).1]

/-- `strncpy` fills the array. -/
@[simp] theorem strncpy_length (n : Nat) (s : CStr) : (strncpy n s).length = n := by
  rw [strncpy, List.length_append, List.length_take, List.length_replicate]
  omega

/-! ## The calls -/

/-- A call of a string function, with the size of the array it writes or the arrays it reads. -/
inductive StrOp
  | sprintf (size : Nat) (text : CStr)
  | strncpy (size n : Nat) (src : List Char)
  | strcmp (s t : List Char)
  deriving DecidableEq, Repr

/-- The call reads and writes inside the arrays. -/
def StrOp.Inside : StrOp → Prop
  | .sprintf size text => Fits size text
  | .strncpy size n src => n ≤ size ∧ (n ≤ src.length ∨ nul ∈ src)
  | .strcmp s t => (TapProject.strcmp s t).isSome

instance : (op : StrOp) → Decidable op.Inside
  | .sprintf size text => inferInstanceAs (Decidable (Fits size text))
  | .strncpy _ _ _ => inferInstanceAs (Decidable (_ ∧ _))
  | .strcmp _ _ => inferInstanceAs (Decidable (_ = true))

/-- The calls of `write_packet_for_multicastadd`; the second comparison is made when the first
found a difference. -/
def multicastStrOps (item : CStr) : List StrOp :=
  let multicastMacaddTemp := strncpy 6 item
  [.strncpy 6 6 (item ++ [nul]), .strcmp multicastMacaddTemp multicastMacaddIpv4]
    ++ if strcmp multicastMacaddTemp multicastMacaddIpv4 = some false then
        [.strcmp multicastMacaddTemp multicastMacaddIpv6]
      else []

/-- `char buf_src[2]` and `char buf_dst[2]` -/
def BUF : Nat := 2

/-- The calls of `write_packet_for_broadcastadd`; what lies behind a formatting buffer is not
looked at. -/
def broadcastStrOps (m : EbtUlogPacketMsg) : List StrOp :=
  let tempSrc := strncpy 2 (hex m.ipSrc)
  let tempDst := strncpy 2 (hex m.ipDst)
  [.sprintf BUF (hex m.ipSrc), .sprintf BUF (hex m.ipDst),
      .strncpy 2 2 ((hex m.ipSrc ++ [nul]).take BUF), .strncpy 2 2 ((hex m.ipDst ++ [nul]).take BUF),
      .strcmp broadcastMacaddIpv4 tempSrc]
    ++ if strcmp broadcastMacaddIpv4 tempSrc = some false then [.strcmp broadcastMacaddIpv4 tempDst]
      else []

/-- All calls that the tests make for an address text and a frame stay inside their arrays. -/
def StaysInside (item : CStr) (m : EbtUlogPacketMsg) : Prop :=
  (∀ op ∈ multicastStrOps item, op.Inside) ∧ ∀ op ∈ broadcastStrOps m, op.Inside

/-! ## When they stay inside -/

/-- The multicast test stays inside for the texts it does not match. -/
theorem multicastStrOps_inside_iff (item : CStr) :
    (∀ op ∈ multicastStrOps item, op.Inside) ↔ floodOff item = none := by
  have hlen4 : (strncpy 6 item).length = multicastMacaddIpv4.length := strncpy_length 6 item
  have hlen6 : (strncpy 6 item).length = multicastMacaddIpv6.length := strncpy_length 6 item
  have hcmp4 := strcmp_of_full hlen4 (Or.inr (by decide))
  have hcmp6 := strcmp_of_full hlen6 (Or.inr (by decide))
  calc (∀ op ∈ multicastStrOps item, op.Inside)
      ↔ (strcmp (strncpy 6 item) multicastMacaddIpv4).isSome
        ∧ (strcmp (strncpy 6 item) multicastMacaddIpv4 = some false →
          (strcmp (strncpy 6 item) multicastMacaddIpv6).isSome) := by
        -- the copy always stays inside
        simp [multicastStrOps, StrOp.Inside, or_imp, forall_and]
    _ ↔ strncpy 6 item ≠ multicastMacaddIpv4 ∧ strncpy 6 item ≠ multicastMacaddIpv6 := by
        rw [hcmp4, hcmp6]
        split <;> split <;> simp_all
    _ ↔ floodOff item = none := by
        unfold floodOff
        split <;> simp_all

theorem fits_hex_iff (n : Nat) : Fits BUF (hex n) ↔ n < 16 := by
  have hdigit : (hex n).length ≤ 1 ↔ n < 16 := Digits.length_toDigits_le_one_iff (by decide) n
  rw [Fits, BUF]
  omega

/-- A number with one digit is no broadcast prefix. -/
theorem broadcast_ne {n : Nat} (h : n < 16) : broadcastMacaddIpv4 ≠ strncpy 2 (hex n) := by
  intro heq
  have hpre := (strncpy_eq_iff (by decide) (by decide)).mp heq.symm
  have hle : 2 ≤ (hex n).length := hpre.length_le
  have hfits := (fits_hex_iff n).mpr h
  rw [Fits, BUF] at hfits
  omega

theorem strcmp_broadcast {n : Nat} (h : n < 16) :
    strcmp broadcastMacaddIpv4 (strncpy 2 (hex n)) = some false := by
  rw [strcmp_of_full (by rw [strncpy_length]; rfl) (Or.inl (by decide)), if_neg (broadcast_ne h)]

/-- The IP broadcast test stays inside for two numbers with one digit. -/
theorem broadcastStrOps_inside_iff (m : EbtUlogPacketMsg) :
    (∀ op ∈ broadcastStrOps m, op.Inside) ↔ m.ipSrc < 16 ∧ m.ipDst < 16 := by
  constructor
  · intro h
    have hsrc : Fits BUF (hex m.ipSrc) := h (.sprintf BUF (hex m.ipSrc)) (by simp [broadcastStrOps])
    have hdst : Fits BUF (hex m.ipDst) := h (.sprintf BUF (hex m.ipDst)) (by simp [broadcastStrOps])
    exact ⟨(fits_hex_iff _).mp hsrc, (fits_hex_iff _).mp hdst⟩
  · rintro ⟨hsrc, hdst⟩
    have hcopy : ∀ n, (StrOp.strncpy 2 2 ((hex n ++ [nul]).take BUF)).Inside := fun n => by
      have hpos : 0 < (hex n).length := Nat.length_toDigits_pos
      refine ⟨le_refl _, Or.inl ?_⟩
      rw [List.length_take, List.length_append, List.length_singleton, BUF]
      omega
    intro op hop
    simp only [broadcastStrOps, strcmp_broadcast hsrc, if_true, List.cons_append, List.nil_append,
      List.mem_cons, List.not_mem_nil, or_false] at hop
    rcases hop with rfl | rfl | rfl | rfl | rfl | rfl
    · exact (fits_hex_iff _).mpr hsrc
    · exact (fits_hex_iff _).mpr hdst
    · exact hcopy _
    · exact hcopy _
    · exact Option.isSome_of_eq_some (strcmp_broadcast hsrc)
    · exact Option.isSome_of_eq_some (strcmp_broadcast hdst)

/-- **The string operations stay inside their arrays exactly for an address that is no multicast
address and a frame whose IP addresses print with one digit.** -/
theorem staysInside_iff (a : EtherAddr) (m : EbtUlogPacketMsg) :
    StaysInside (etherNtoa a) m
      ↔ (¬ a.ipv4Multicast ∧ ¬ a.ipv6Multicast) ∧ m.ipSrc < 16 ∧ m.ipDst < 16 := by
  rw [StaysInside, multicastStrOps_inside_iff, broadcastStrOps_inside_iff, floodOff_etherNtoa]
  by_cases h4 : a.ipv4Multicast
  · simp [h4]
  · by_cases h6 : a.ipv6Multicast <;> simp [h4, h6]

/-- So where nothing is read behind an array, both tests say no. -/
theorem returns_zero_of_staysInside {item : CStr} {m : EbtUlogPacketMsg} (h : StaysInside item m)
    (s : Sys) :
    writePacketForMulticastadd item m s = (0, s) ∧ (writePacketForBroadcastadd m s).1 = 0 := by
  have hnone : floodOff item = none := (multicastStrOps_inside_iff item).mp h.1
  obtain ⟨hsrc, hdst⟩ := (broadcastStrOps_inside_iff m).mp h.2
  constructor
  · exact writePacketForMulticastadd_none hnone m s
  · rw [writePacketForBroadcastadd_fst, if_neg]
    simp [ipv4Broadcast, broadcast_ne hsrc, broadcast_ne hdst]

/-- The comparison of 1:0:5e:0:0:fb runs past the array, and `ffa000a` does not fit `buf_src`. -/
theorem not_staysInside_mdns :
    strcmp (strncpy 6 (etherNtoa ⟨0x01, 0x00, 0x5e, 0, 0, 0xfb⟩)) multicastMacaddIpv4 = none
      ∧ ¬ Fits BUF (hex (EbtUlogPacketMsg.ofBytes [] [] misreadFrame).ipSrc)
      ∧ ¬ StaysInside (etherNtoa ⟨0x01, 0x00, 0x5e, 0, 0, 0xfb⟩) (.ofBytes [] [] misreadFrame) := by
  exact ⟨by decide, by decide, fun h => absurd h.2 (by decide)⟩

end TapProject
