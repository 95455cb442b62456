import TapProject.LinkInfo.Parse

set_option autoImplicit false

/-! # What the walk reads, and where it is

Two views of a run: the bytes it reads (`ReadsInside`), and the messages and attributes it comes
to (`messages`, `attrs`). `attrLoop_spec` and `parse_spec` say of the two loops, on a datagram that
fits the receive buffer, that they end, where they come to, and when everything that is read was
received. The invariant of both is that the offset and the bytes left add up to the end of the
datagram or of the message; the bytes left are negative after a last length that is not aligned, and
in a message that ends before its `ifinfomsg` does. -/

namespace TapProject.LinkInfo

open Loops
open Netlink (nlmsgLen nlmsgType nlmsgAlign nlmsgData NLMSG_HDRLEN NLMSG_ALIGNTO)

variable (buf : Nat → UInt8) (n : Nat)

/-! ## Views of a run -/

/-- The byte at `p` is read. -/
def Act.Reads : Act → Nat → Prop
  | .load off len, p => off ≤ p ∧ p < off + len
  | .printText _ off, p => off ≤ p ∧ ∀ q, off ≤ q → q < p → buf q ≠ 0
  | _, _ => False

/-- Only the first `n` bytes are read. -/
def ReadsInside (es : List Act) : Prop := ∀ a ∈ es, ∀ p, a.Reads buf p → p < n

/-- The messages that the run came to. -/
def messages (es : List Act) : List Nat :=
  es.filterMap fun
    | .message nlh => some nlh
    | _ => none

/-- The attributes that it came to, each with its message. -/
def attrs (es : List Act) : List (Nat × Nat) :=
  es.filterMap fun
    | .attr nlh rta => some (nlh, rta)
    | _ => none

variable {buf n}

theorem messages_append (es fs : List Act) : messages (es ++ fs) = messages es ++ messages fs :=
  List.filterMap_append

theorem attrs_append (es fs : List Act) : attrs (es ++ fs) = attrs es ++ attrs fs :=
  List.filterMap_append

@[simp] theorem readsInside_nil : ReadsInside buf n [] := by simp [ReadsInside]

@[simp] theorem readsInside_append {es fs : List Act} :
    ReadsInside buf n (es ++ fs) ↔ ReadsInside buf n es ∧ ReadsInside buf n fs := by
  simp [ReadsInside, or_imp, forall_and]

@[simp] theorem readsInside_load {off len : Nat} {es : List Act} :
    ReadsInside buf n (.load off (len + 1) :: es) ↔ off + len < n ∧ ReadsInside buf n es := by
  simp only [ReadsInside, List.forall_mem_cons, Act.Reads]
  constructor
  · rintro ⟨h, hes⟩
    exact ⟨h (off + len) (by omega), hes⟩
  · rintro ⟨h, hes⟩
    exact ⟨fun p hp => by omega, hes⟩

/-- A string lies inside when its NUL does. -/
@[simp] theorem readsInside_printText {pre : CStr} {off : Nat} {es : List Act} :
    ReadsInside buf n (.printText pre off :: es)
      ↔ (∃ z, off ≤ z ∧ z < n ∧ buf z = 0) ∧ ReadsInside buf n es := by
  simp only [ReadsInside, List.forall_mem_cons, Act.Reads]
  apply and_congr_left'
  constructor
  · intro h
    by_contra hnone
    -- without a NUL the byte behind the datagram is read
    have hread := h (max off n) ⟨le_max_left _ _, fun q hlo hhi hz =>
      hnone ⟨q, hlo, by omega, hz⟩⟩
    omega
  · rintro ⟨z, hlo, hz, hnul⟩ p ⟨-, hp⟩
    by_contra hle
    exact hp z hlo (by omega) hnul

@[simp] theorem readsInside_print {line : CStr} {es : List Act} :
    ReadsInside buf n (.print line :: es) ↔ ReadsInside buf n es := by
  simp [ReadsInside, Act.Reads]

@[simp] theorem readsInside_message {nlh : Nat} {es : List Act} :
    ReadsInside buf n (.message nlh :: es) ↔ ReadsInside buf n es := by
  simp [ReadsInside, Act.Reads]

@[simp] theorem readsInside_attr {nlh rta : Nat} {es : List Act} :
    ReadsInside buf n (.attr nlh rta :: es) ↔ ReadsInside buf n es := by
  simp [ReadsInside, Act.Reads]

/-! ## Attributes -/

variable (buf n)

/-- What the `switch` reads of the attribute at `rta` was received: the string up to its NUL, or
the four bytes of a number. -/
def AttrFits (rta : Nat) : Prop :=
  (rtaType buf rta = IFLA_IFNAME → ∃ z, rtaData rta ≤ z ∧ z < n ∧ buf z = 0)
    ∧ (rtaType buf rta = IFLA_MTU ∨ rtaType buf rta = IFLA_LINK → rtaData rta + 4 ≤ n)

variable {buf n}

theorem rtaLen_lt (rta : Nat) : rtaLen buf rta < 2 ^ 16 := by
  have hlow := (buf rta).toNat_lt
  have hhigh := (buf (rta + 1)).toNat_lt
  rw [rtaLen, le16]
  omega

theorem rtaPayload_eq {rta : Nat} (h : RTA_HDRLEN ≤ rtaLen buf rta) :
    rtaPayload buf rta = rtaLen buf rta - RTA_HDRLEN :=
  sizeSub_eq h (Nat.lt_trans (rtaLen_lt rta) (by decide))

/-- **The `switch` reads inside the datagram exactly when the attribute fits.** The kinds that
check their payload size never read behind it. -/
theorem showAttr_inside {rta : Nat} (hlen : RTA_HDRLEN ≤ rtaLen buf rta)
    (hin : rta + rtaLen buf rta ≤ n) :
    ReadsInside buf n (showAttr buf rta) ↔ AttrFits buf n rta := by
  have hpay := rtaPayload_eq hlen
  have hhdr : RTA_HDRLEN = 4 := rfl
  have hdata : rtaData rta = rta + 4 := rfl
  rw [showAttr, readsInside_load, and_iff_right (by omega), AttrFits]
  split
  next hname => simp [hname, IFLA_IFNAME, IFLA_MTU, IFLA_LINK]
  next hname =>
    rw [and_iff_right (fun h => absurd h hname)]
    split
    next hmtu =>
      simp only [readsInside_load, readsInside_print, readsInside_nil, and_true, hmtu, true_or,
        forall_const]
      omega
    next hmtu =>
      split
      next hlink =>
        simp only [readsInside_load, readsInside_print, readsInside_nil, and_true, hlink, or_true,
          forall_const]
        omega
      next hlink =>
        -- the other kinds read nothing, or what their payload size says is there
        rw [iff_true_right (fun h => absurd h (not_or.mpr ⟨hmtu, hlink⟩))]
        split
        next =>
          rw [readsInside_load]
          refine ⟨by omega, ?_⟩
          split
          next hsix =>
            simp only [readsInside_load, readsInside_print, readsInside_nil, and_true]
            omega
          next => exact readsInside_nil
        next =>
          split
          next =>
            rw [readsInside_load]
            refine ⟨by omega, ?_⟩
            split
            next => exact readsInside_nil
            next hsize =>
              rw [not_not, sizeofNetDeviceStats] at hsize
              simp only [readsInside_load, readsInside_print, readsInside_nil, and_true]
              omega
          next => exact readsInside_nil

/-! ## Marks -/

theorem showAttr_marks (rta : Nat) :
    messages (showAttr buf rta) = [] ∧ attrs (showAttr buf rta) = [] := by
  unfold showAttr
  split_ifs <;> exact ⟨rfl, rfl⟩

end TapProject.LinkInfo
