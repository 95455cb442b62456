import Mathlib.Data.List.Basic
import TapProject.Basic.Memory
import TapProject.Lib.Cursor

set_option autoImplicit false

/-! # Netlink messages in a buffer

The fields of `struct nlmsghdr` and the `NLMSG_*` macros, over the memory `buf` from the start of
the receive buffer on. A message is named by the offset of its header. `nextHeader` is where
`ulog_get_packet` goes from a header, and `WellFormed` says of a datagram that every header
reached in it this way starts a message that lies inside. -/

namespace TapProject.Netlink

open Cursor

/-! ## Headers -/

def NLMSG_ALIGNTO : Nat := 4

/-- `NLMSG_ALIGN`, on 32 bits. -/
def nlmsgAlign (len : Nat) : Nat :=
  (len + NLMSG_ALIGNTO - 1) % 2 ^ 32 / NLMSG_ALIGNTO * NLMSG_ALIGNTO

/-- `sizeof(struct nlmsghdr)`, which is aligned. -/
def NLMSG_HDRLEN : Nat := 16

def NLM_F_MULTI : Nat := 0x2
def NLMSG_DONE : Nat := 0x3

variable (buf : Nat → UInt8)

def nlmsgLen (nlh : Nat) : Nat := le32 buf nlh
def nlmsgType (nlh : Nat) : Nat := le16 buf (nlh + 4)
def nlmsgFlags (nlh : Nat) : Nat := le16 buf (nlh + 6)

/-- `NLMSG_OK(nlh, len)` -/
def nlmsgOk (nlh len : Nat) : Prop :=
  NLMSG_HDRLEN ≤ len ∧ NLMSG_HDRLEN ≤ nlmsgLen buf nlh ∧ nlmsgLen buf nlh ≤ len

instance (nlh len : Nat) : Decidable (nlmsgOk buf nlh len) := inferInstanceAs (Decidable (_ ∧ _))

/-- `NLMSG_DATA(nlh)` -/
def nlmsgData (nlh : Nat) : Nat := nlh + NLMSG_HDRLEN

/-- The header that `NLMSG_NEXT(nlh, len)` moves to. -/
def nlmsgNext (nlh : Nat) : Nat := nlh + nlmsgAlign (nlmsgLen buf nlh)

/-- `nlh->nlmsg_flags & NLM_F_MULTI && nlh->nlmsg_type != NLMSG_DONE` -/
def isMulti (nlh : Nat) : Prop :=
  nlmsgFlags buf nlh &&& NLM_F_MULTI ≠ 0 ∧ nlmsgType buf nlh ≠ NLMSG_DONE

instance (nlh : Nat) : Decidable (isMulti buf nlh) := inferInstanceAs (Decidable (_ ∧ _))

/-- The header after `nlh`, if it announces one. -/
def nextHeader (nlh : Nat) : Option Nat :=
  if isMulti buf nlh then some (nlmsgNext buf nlh) else none

/-- The message at `nlh` lies inside the first `len` bytes, header included. -/
def Inside (len : Nat) (nlh : Nat) : Prop :=
  NLMSG_HDRLEN ≤ nlmsgLen buf nlh ∧ nlh + nlmsgLen buf nlh ≤ len

instance (len nlh : Nat) : Decidable (Inside buf len nlh) := inferInstanceAs (Decidable (_ ∧ _))

variable {buf} {buf' : Nat → UInt8} {len : Nat}

theorem Inside.header_le {nlh : Nat} (h : Inside buf len nlh) : nlh + NLMSG_HDRLEN ≤ len := by
  have := h.1
  have := h.2
  omega

theorem le_nlmsgAlign {l : Nat} (h : l + 3 < 2 ^ 32) : l ≤ nlmsgAlign l := by
  simp only [nlmsgAlign, NLMSG_ALIGNTO]
  rw [Nat.mod_eq_of_lt (by omega)]
  omega

/-- From a message inside a buffer of less than 2³² bytes the next header is further on. -/
theorem Inside.lt_nlmsgNext {nlh : Nat} (h : Inside buf len nlh) (hlen : len + 3 < 2 ^ 32) :
    nlh < nlmsgNext buf nlh := by
  have hle : nlmsgLen buf nlh ≤ nlmsgAlign (nlmsgLen buf nlh) :=
    le_nlmsgAlign (by have := h.2; omega)
  have hpos := h.1
  simp only [NLMSG_HDRLEN, nlmsgNext] at *
  omega

/-! ## Buffers with the same header bytes -/

section

variable {nlh : Nat} (h : ∀ i, nlh ≤ i → i < nlh + NLMSG_HDRLEN → buf i = buf' i)

include h

theorem nlmsgLen_congr : nlmsgLen buf nlh = nlmsgLen buf' nlh :=
  le32_congr fun i hi hi' => h i hi (by simp only [NLMSG_HDRLEN]; omega)

theorem nextHeader_congr : nextHeader buf nlh = nextHeader buf' nlh := by
  have htype : nlmsgType buf nlh = nlmsgType buf' nlh :=
    le16_congr fun i hi hi' => h i (by omega) (by simp only [NLMSG_HDRLEN]; omega)
  have hflags : nlmsgFlags buf nlh = nlmsgFlags buf' nlh :=
    le16_congr fun i hi hi' => h i (by omega) (by simp only [NLMSG_HDRLEN]; omega)
  have hmulti : isMulti buf nlh ↔ isMulti buf' nlh := by rw [isMulti, isMulti, htype, hflags]
  unfold nextHeader nlmsgNext
  rw [nlmsgLen_congr h]
  by_cases hm : isMulti buf' nlh
  · rw [if_pos hm, if_pos (hmulti.mpr hm)]
  · rw [if_neg hm, if_neg (mt hmulti.mp hm)]

end

/-! ## Datagrams -/

/-- The buffer after the bytes `d` were received into it. -/
def fill (d : List UInt8) (buf : Nat → UInt8) : Nat → UInt8 := fun i => d.getD i (buf i)

theorem fill_of_lt {d : List UInt8} {i : Nat} (h : i < d.length) (buf buf' : Nat → UInt8) :
    fill d buf i = fill d buf' i := by
  simp [fill, h]

/-- The datagram `d` is made of the messages at the offsets `offs`, back to back at aligned
offsets: each lies inside the datagram, and all but the last announce another one. -/
def Layout (d : List UInt8) (offs : List Nat) : Prop :=
  Walk (Inside (fill d fun _ => 0) d.length) (nextHeader (fill d fun _ => 0)) 0 offs

def WellFormed (d : List UInt8) : Prop := ∃ offs, Layout d offs

/-- Whether a message lies inside a datagram does not depend on what the buffer held before. -/
theorem Inside.fill {d : List UInt8} {nlh : Nat} {buf : Nat → UInt8}
    (h : Inside (fill d buf) d.length nlh) (buf' : Nat → UInt8) :
    Inside (fill d buf') d.length nlh := by
  have hle := h.header_le
  have hlen : nlmsgLen (Netlink.fill d buf') nlh = nlmsgLen (Netlink.fill d buf) nlh :=
    nlmsgLen_congr fun i _ hi => fill_of_lt (by omega) buf' buf
  unfold Inside at h ⊢
  rwa [hlen]

theorem Inside.nextHeader_fill {d : List UInt8} {nlh : Nat} {buf : Nat → UInt8}
    (h : Inside (Netlink.fill d buf) d.length nlh) (buf' : Nat → UInt8) :
    nextHeader (Netlink.fill d buf') nlh = nextHeader (Netlink.fill d buf) nlh := by
  have hle := h.header_le
  exact nextHeader_congr fun i _ hi => fill_of_lt (by omega) buf' buf

/-- The messages of a datagram are where its layout says, whatever the buffer held before. -/
theorem walk_fill_iff {d : List UInt8} {nlh : Nat} {offs : List Nat} (buf buf' : Nat → UInt8) :
    Walk (Inside (fill d buf) d.length) (nextHeader (fill d buf)) nlh offs
      ↔ Walk (Inside (fill d buf') d.length) (nextHeader (fill d buf')) nlh offs :=
  ⟨fun h => h.imp (fun _ hb => hb.fill buf') fun _ hb => hb.nextHeader_fill buf',
    fun h => h.imp (fun _ hb => hb.fill buf) fun _ hb => hb.nextHeader_fill buf⟩

end TapProject.Netlink
