import TapProject.Packet.Message

set_option autoImplicit false

/-! # The MAC filters of the capture programs

`start_pktfunc` of `write_to_tap_v3.c` and of `pcap_test.c` acts on a frame when one of two
texts is the text of the filter address. Both texts are printed from `ether_dhost`, the second
one into the buffer `smac`; what that means for a filter on both addresses of the frame is
`twoSided_iff`.

`convmac_tostr` prints the six bytes with two digits each, so its text is of fixed length and
fits the buffer (`convmacTostr_eq`), and different addresses have different texts
(`macText_injective`). -/

namespace TapProject.MacFilter

open Slices

/-! ## Addresses as text -/

/-- `%02x` -/
def hex02 (b : UInt8) : CStr := if b.toNat < 16 then '0' :: hex b.toNat else hex b.toNat

/-- `%02x:%02x:%02x:%02x:%02x:%02x` of the six bytes. -/
def macText (a : EtherAddr) : CStr :=
  hex02 a.o0 ++ ':' :: (hex02 a.o1 ++ ':' :: (hex02 a.o2 ++ ':' ::
    (hex02 a.o3 ++ ':' :: (hex02 a.o4 ++ ':' :: hex02 a.o5))))

/-- `convmac_tostr(hwaddr, mac, size)`: the text in `mac` afterwards. `snprintf` cuts its text so
that the NUL fits too, and writes nothing to a buffer of no bytes. -/
def convmacTostr (hwaddr : EtherAddr) (mac : CStr) (size : Nat) : CStr :=
  if size = 0 then mac else (macText hwaddr).take (size - 1)

/-- Two digits, whatever the byte. -/
theorem hex02_eq (b : UInt8) :
    hex02 b = [Nat.digitChar (b.toNat / 16), Nat.digitChar (b.toNat % 16)] := by
  have hb : b.toNat / 16 < 16 := by have := b.toNat_lt; omega
  unfold hex02 hex
  rw [Nat.toDigits_eq_if (by decide)]
  split
  next h => rw [Nat.div_eq_of_lt h, Nat.mod_eq_of_lt h]; rfl
  next h => rw [Nat.toDigits_eq_if (by decide), if_pos hb]; rfl

theorem hex02_length (b : UInt8) : (hex02 b).length = 2 := by
  rw [hex02_eq]
  rfl

theorem hex02_injective : Function.Injective hex02 := by
  intro b c h
  have hb := b.toNat_lt
  have hc := c.toNat_lt
  rw [hex02_eq, hex02_eq, List.cons.injEq, List.cons.injEq] at h
  have hdiv : b.toNat / 16 = c.toNat / 16 := Digits.digitChar_inj (by omega) (by omega) h.1
  have hmod : b.toNat % 16 = c.toNat % 16 := Digits.digitChar_inj (by omega) (by omega) h.2.1
  apply UInt8.toNat_inj.mp
  omega

/-- The first of the colon-separated bytes can be read off. -/
theorem hex02_colon_inj {b c : UInt8} {t u : CStr} (h : hex02 b ++ ':' :: t = hex02 c ++ ':' :: u) :
    b = c ∧ t = u := by
  obtain ⟨hbc, htu⟩ := List.append_inj h (by rw [hex02_length, hex02_length])
  exact ⟨hex02_injective hbc, List.tail_eq_of_cons_eq htu⟩

/-- **Different addresses print differently.** -/
theorem macText_injective : Function.Injective macText := by
  rintro ⟨a0, a1, a2, a3, a4, a5⟩ ⟨b0, b1, b2, b3, b4, b5⟩ h
  obtain ⟨rfl, h⟩ := hex02_colon_inj h
  obtain ⟨rfl, h⟩ := hex02_colon_inj h
  obtain ⟨rfl, h⟩ := hex02_colon_inj h
  obtain ⟨rfl, h⟩ := hex02_colon_inj h
  obtain ⟨rfl, h⟩ := hex02_colon_inj h
  obtain rfl := hex02_injective h
  rfl

theorem macText_length (a : EtherAddr) : (macText a).length = 17 := by
  simp [macText, hex02_length]

/-- Eighteen bytes hold the whole text. -/
theorem convmacTostr_eq (a : EtherAddr) (mac : CStr) : convmacTostr a mac 18 = macText a := by
  rw [convmacTostr, if_neg (by decide), List.take_of_length_le (by rw [macText_length])]

/-! ## The programs -/

/-- The six bytes at `off`. -/
def etherAddr (packet : Nat → UInt8) (off : Nat) : EtherAddr :=
  ⟨packet off, packet (off + 1), packet (off + 2), packet (off + 3), packet (off + 4),
    packet (off + 5)⟩

section

-- the captured frame, and the memory behind it
variable (packet : Nat → UInt8)

/-- `eth_hdr->ether_dhost` -/
def etherDhost : EtherAddr := etherAddr packet 0

/-- `eth_hdr->ether_shost` -/
def etherShost : EtherAddr := etherAddr packet 6

/-- The condition of the `if` in both programs, and what is read for it. -/
def filterTest (filterMac : CStr) : Bool × List Event :=
  let dmac := convmacTostr (etherDhost packet) [] 18
  if dmac = filterMac then (true, [.load 0 6]) else
  -- the buffer is `smac`, the address again the one at offset 0
  let smac := convmacTostr (etherDhost packet) [] 18
  (decide (smac = filterMac), [.load 0 6, .load 0 6])

/-- `filter_mac` of `write_to_tap_v3.c`. -/
def tapFilterMac : CStr := "00:16:3e:0d:58:00".toList

/-- `start_pktfunc` of `write_to_tap_v3.c`; `ip_addr->ip_len` is read as it stands in memory. -/
def startPktfuncTap (tapFd : Int) : List Event :=
  let (found, es) := filterTest packet tapFilterMac
  if found then
    es ++ [.load (SIZE_ETHERNET + 2) 2,
      .write tapFd (slice packet 0 (le16 packet (SIZE_ETHERNET + 2)))]
  else es

/-- The text that `pcap_test.c` compares with. -/
def pcapFilterMac : CStr := "00:16:3e:0d:58:c1".toList

/-- `start_pktfunc` of `pcap_test.c`. -/
def startPktfuncPcap : List Event :=
  let (found, es) := filterTest packet pcapFilterMac
  if found then
    es ++ [.print "ether header---------".toList,
      .load 0 6, .print ("dest mac ".toList ++ convmacTostr (etherDhost packet) [] 18),
      .load 6 6, .print ("src mac ".toList ++ convmacTostr (etherShost packet) [] 18),
      .load 12 2, .print ("ether type ".toList ++ hex (be16 packet 12)), .print []]
  else es

/-- The frame is written to the descriptor. -/
def WritesFrame (tapFd : Int) (es : List Event) : Prop :=
  .write tapFd (slice packet 0 (le16 packet (SIZE_ETHERNET + 2))) ∈ es

/-- The addresses of the frame are printed. -/
def PrintsFrame (es : List Event) : Prop :=
  .print ("dest mac ".toList ++ macText (etherDhost packet)) ∈ es
    ∧ .print ("src mac ".toList ++ macText (etherShost packet)) ∈ es

/-- A filter on both addresses: `acts` holds of the frames to or from `a`. -/
def TwoSided (a : EtherAddr) (acts : Prop) : Prop :=
  acts ↔ etherDhost packet = a ∨ etherShost packet = a

end

/-! ## What the filters let through -/

/-- The addresses the filters are set to. -/
def tapFilterAddr : EtherAddr := ⟨0x00, 0x16, 0x3e, 0x0d, 0x58, 0x00⟩
def pcapFilterAddr : EtherAddr := ⟨0x00, 0x16, 0x3e, 0x0d, 0x58, 0xc1⟩

theorem macText_tapFilterAddr : macText tapFilterAddr = tapFilterMac := by decide
theorem macText_pcapFilterAddr : macText pcapFilterAddr = pcapFilterMac := by decide

section

variable {packet : Nat → UInt8} {a : EtherAddr} {acts : Prop}

/-- The test looks at the destination only. -/
theorem filterTest_iff : (filterTest packet (macText a)).1 = true ↔ etherDhost packet = a := by
  simp only [filterTest, convmacTostr_eq]
  by_cases h : macText (etherDhost packet) = macText a
  · rw [if_pos h]
    exact ⟨fun _ => macText_injective h, fun _ => rfl⟩
  · rw [if_neg h]
    simp only [decide_eq_true_eq]
    exact ⟨fun h' => absurd h' h, fun h' => by rw [h']⟩

theorem filterTest_loads (filterMac : CStr) :
    ∀ e ∈ (filterTest packet filterMac).2, e = .load 0 6 := by
  simp only [filterTest]
  split <;> simp

/-- A filter on the destination is one on both addresses for the frames whose source is not the
filter address or whose destination is that address too. -/
theorem twoSided_iff_of_dest (h : acts ↔ etherDhost packet = a) :
    TwoSided packet a acts ↔ (etherShost packet = a → etherDhost packet = a) := by
  rw [TwoSided, h]
  constructor
  · intro hboth hsrc
    exact hboth.mpr (Or.inr hsrc)
  · intro hsrc
    exact ⟨Or.inl, fun hor => hor.elim id hsrc⟩

theorem writesFrame_iff (packet : Nat → UInt8) (tapFd : Int) :
    WritesFrame packet tapFd (startPktfuncTap packet tapFd)
      ↔ etherDhost packet = tapFilterAddr := by
  rw [← filterTest_iff, macText_tapFilterAddr]
  unfold WritesFrame startPktfuncTap
  constructor
  · intro hmem
    by_contra hnot
    simp only [if_neg hnot] at hmem
    exact absurd (filterTest_loads _ _ hmem) (by simp)
  · intro hfound
    simp [hfound]

theorem printsFrame_iff (packet : Nat → UInt8) :
    PrintsFrame packet (startPktfuncPcap packet) ↔ etherDhost packet = pcapFilterAddr := by
  rw [← filterTest_iff, macText_pcapFilterAddr]
  unfold PrintsFrame startPktfuncPcap
  constructor
  · rintro ⟨hmem, -⟩
    by_contra hnot
    simp only [if_neg hnot] at hmem
    exact absurd (filterTest_loads _ _ hmem) (by simp)
  · intro hfound
    simp [hfound, convmacTostr_eq]

end

/-- **When the filters are filters on both addresses.** On a frame from the filter address they
are exactly if it also goes there; on every other frame they are. -/
theorem twoSided_iff (packet : Nat → UInt8) (tapFd : Int) :
    (TwoSided packet tapFilterAddr (WritesFrame packet tapFd (startPktfuncTap packet tapFd))
        ↔ (etherShost packet = tapFilterAddr → etherDhost packet = tapFilterAddr))
      ∧ (TwoSided packet pcapFilterAddr (PrintsFrame packet (startPktfuncPcap packet))
        ↔ (etherShost packet = pcapFilterAddr → etherDhost packet = pcapFilterAddr)) :=
  ⟨twoSided_iff_of_dest (writesFrame_iff packet tapFd),
    twoSided_iff_of_dest (printsFrame_iff packet)⟩

/-- A broadcast frame from the address with the last byte `b`. -/
def broadcastFrom (b : UInt8) : List UInt8 :=
  [0xff, 0xff, 0xff, 0xff, 0xff, 0xff, 0x00, 0x16, 0x3e, 0x0d, 0x58, b, 0x08, 0x00]

/-- The broadcasts of the filtered hosts are not let through. -/
theorem not_twoSided_broadcast :
    ¬ TwoSided (fun i => (broadcastFrom 0x00).getD i 0) tapFilterAddr
        (WritesFrame (fun i => (broadcastFrom 0x00).getD i 0) 3
          (startPktfuncTap (fun i => (broadcastFrom 0x00).getD i 0) 3))
      ∧ ¬ TwoSided (fun i => (broadcastFrom 0xc1).getD i 0) pcapFilterAddr
        (PrintsFrame (fun i => (broadcastFrom 0xc1).getD i 0)
          (startPktfuncPcap fun i => (broadcastFrom 0xc1).getD i 0)) := by
  constructor
  · rw [twoSided_iff_of_dest (writesFrame_iff _ 3)]
    decide
  · rw [twoSided_iff_of_dest (printsFrame_iff _)]
    decide

end TapProject.MacFilter
