import TapProject.Basic.System
import TapProject.Lib.Strtoul

set_option autoImplicit false

/-! # The group number on the command line

The part of `main` that reads `argv[1]`, the same in `write_tap_v5.c` and
`write_tap_v5_hyper.c`, up to the call of `bind`. What the range check does about a bad number is
selected by the switch `PRINTF`, and as the programs are built, with `PRINTF` not defined, it does
nothing: the shift is evaluated whatever was read.

`GroupHandled` says that a bad argument stops the program and a good one selects its group.
Without the check this holds exactly for the good ones (`group_handled_iff`); with it, it holds
but for the numbers that are good only after the narrowing to `int`
(`group_handled_printf_iff`). -/

namespace TapProject.Netlink

open Strtoul

/-- How the part of `main` ends: an exit, a shift by an undefined count, or the call of `bind`
with the groups of the two addresses. -/
inductive Started
  | exit (code : Int)
  | badShift (count : Int)
  | bind (saLocalGroups saKernelGroups : UInt32)
  deriving DecidableEq, Repr

/-- The conversion of an `unsigned long` to `int`. -/
def toInt (n : Nat) : Int := (n : Int).bmod (2 ^ 32)

/-- `1 << count` -/
def shiftOne (count : Int) : Option UInt32 :=
  if 0 ≤ count ∧ count < 32 then some (1 <<< UInt32.ofNat count.toNat) else none

/-- From `argv[1]` to `bind`; `sfd` is what `socket` returns. -/
def groupArgument (PRINTF : Bool) (sfd : Int) (argv1 : CStr) : Started :=
  let (n, ctmp) := strtoul argv1
  let i := toInt n
  if (ctmp ≠ [] ∨ i < 1 ∨ 32 < i) ∧ PRINTF then .exit 0
  else
    match shiftOne (i - 1) with
    | none => .badShift (i - 1)
    | some groups =>
        -- `if (!sfd)`
        if sfd = 0 then .exit (-1) else .bind groups groups

/-- The program stops before `bind`, or the whole argument is a number between 1 and 32, and both
addresses have the bit of this group set and no other. -/
def GroupHandled (argv1 : CStr) : Started → Prop
  | .exit _ => True
  | .badShift _ => False
  | .bind saLocalGroups saKernelGroups =>
      ∃ g, strtoul argv1 = (g, []) ∧ 1 ≤ g ∧ g ≤ 32
        ∧ saLocalGroups.toNat = 2 ^ (g - 1) ∧ saKernelGroups.toNat = 2 ^ (g - 1)

/-- White space, a sign and digits that make a number between 1 and 32; behind a minus sign, one
of the numbers that negate to it. -/
def IsGroupNumber (argv1 : CStr) : Prop :=
  ∃ sign digits, IsNumeral argv1 sign digits
    ∧ if sign = ['-'] then
        2 ^ 64 - 32 ≤ Nat.ofDigitChars 10 digits 0 ∧ Nat.ofDigitChars 10 digits 0 < 2 ^ 64
      else 1 ≤ Nat.ofDigitChars 10 digits 0 ∧ Nat.ofDigitChars 10 digits 0 ≤ 32

theorem groupArgument_eq (PRINTF : Bool) (sfd : Int) {argv1 ctmp : CStr} {n : Nat}
    (h : strtoul argv1 = (n, ctmp)) :
    groupArgument PRINTF sfd argv1
      = if (ctmp ≠ [] ∨ toInt n < 1 ∨ 32 < toInt n) ∧ PRINTF then .exit 0
        else
          match shiftOne (toInt n - 1) with
          | none => .badShift (toInt n - 1)
          | some groups => if sfd = 0 then .exit (-1) else .bind groups groups := by
  rw [groupArgument, h]

/-! ## Good numbers -/

theorem value_mem_range_iff (sign digits : List Char) :
    (1 ≤ value sign digits ∧ value sign digits ≤ 32)
      ↔ if sign = ['-'] then
          2 ^ 64 - 32 ≤ Nat.ofDigitChars 10 digits 0 ∧ Nat.ofDigitChars 10 digits 0 < 2 ^ 64
        else 1 ≤ Nat.ofDigitChars 10 digits 0 ∧ Nat.ofDigitChars 10 digits 0 ≤ 32 := by
  obtain ⟨n, hn⟩ : ∃ n, n = Nat.ofDigitChars 10 digits 0 := ⟨_, rfl⟩
  simp only [value, ULONG_MAX, ← hn]
  by_cases hbig : 2 ^ 64 - 1 < n
  · rw [if_pos hbig]
    split <;> omega
  · rw [if_neg hbig]
    split <;> omega

theorem isGroupNumber_iff (argv1 : CStr) :
    IsGroupNumber argv1 ↔ ∃ g, strtoul argv1 = (g, []) ∧ 1 ≤ g ∧ g ≤ 32 := by
  constructor
  · rintro ⟨sign, digits, hnum, hrange⟩
    exact ⟨_, strtoul_of_isNumeral hnum, (value_mem_range_iff sign digits).mpr hrange⟩
  · rintro ⟨g, hread, hrange⟩
    obtain ⟨sign, digits, hnum⟩ := exists_isNumeral (s := argv1) (by rw [hread])
      (by rw [hread]; show g ≠ 0; omega)
    have hg : g = value sign digits := by
      rw [strtoul_of_isNumeral hnum, Prod.mk.injEq] at hread
      exact hread.1.symm
    exact ⟨sign, digits, hnum, (value_mem_range_iff sign digits).mp (hg ▸ hrange)⟩

theorem toInt_of_le {g : Nat} (h : g ≤ 32) : toInt g = g :=
  Int.bmod_eq_of_le (by omega) (by omega)

theorem shiftOne_toNat {g : Nat} (hlo : 1 ≤ g) (hhi : g ≤ 32) :
    ∃ groups, shiftOne (g - 1) = some groups ∧ groups.toNat = 2 ^ (g - 1) := by
  refine ⟨1 <<< UInt32.ofNat (g - 1), ?_, ?_⟩
  · rw [shiftOne, if_pos (by omega)]
    congr
    omega
  · have key : ∀ k < 32, (1 <<< UInt32.ofNat k : UInt32).toNat = 2 ^ k := by decide
    exact key (g - 1) (by omega)

/-- A good number reaches `bind` with its bit set, unless the program stops. -/
theorem groupHandled_of_isGroupNumber (PRINTF : Bool) (sfd : Int) {argv1 : CStr}
    (h : IsGroupNumber argv1) : GroupHandled argv1 (groupArgument PRINTF sfd argv1) := by
  obtain ⟨g, hread, hlo, hhi⟩ := (isGroupNumber_iff argv1).mp h
  obtain ⟨groups, hshift, hbits⟩ := shiftOne_toNat hlo hhi
  have hcheck : ¬ ((([] : CStr) ≠ [] ∨ (g : Int) < 1 ∨ 32 < (g : Int)) ∧ PRINTF = true) := by
    rintro ⟨hnil | hlt | hlt, -⟩
    · exact hnil rfl
    · omega
    · omega
  rw [groupArgument_eq PRINTF sfd hread, toInt_of_le hhi, if_neg hcheck, hshift]
  by_cases hsfd : sfd = 0
  · simp only [if_pos hsfd]
    trivial
  · simp only [if_neg hsfd]
    exact ⟨g, hread, hlo, hhi, hbits, hbits⟩

/-- An argument that gets past the check is handled only if it is a good number. -/
theorem isGroupNumber_of_groupHandled {PRINTF : Bool} {argv1 ctmp : CStr} {n : Nat}
    (hread : strtoul argv1 = (n, ctmp))
    (hcheck : ¬ ((ctmp ≠ [] ∨ toInt n < 1 ∨ 32 < toInt n) ∧ PRINTF = true))
    (h : GroupHandled argv1 (groupArgument PRINTF 3 argv1)) : IsGroupNumber argv1 := by
  rw [groupArgument_eq PRINTF 3 hread, if_neg hcheck] at h
  cases hshift : shiftOne (toInt n - 1) with
  | none =>
      rw [hshift] at h
      exact h.elim
  | some groups =>
      rw [hshift] at h
      obtain ⟨g, hg, hlo, hhi, -⟩ := h
      exact (isGroupNumber_iff argv1).mpr ⟨g, hg, hlo, hhi⟩

/-- **As the programs are built, the argument is handled as it should exactly when it is a number
between 1 and 32**, whatever `socket` returns: nothing stops the program on any other. -/
theorem group_handled_iff (argv1 : CStr) :
    (∀ sfd, GroupHandled argv1 (groupArgument false sfd argv1)) ↔ IsGroupNumber argv1 := by
  constructor
  · intro h
    cases hread : strtoul argv1 with
    | mk n ctmp => exact isGroupNumber_of_groupHandled hread (by simp) (h 3)
  · intro h sfd
    exact groupHandled_of_isGroupNumber false sfd h

/-- `0` is shifted by -1 places, `33` by 32, and of `5x` the five is taken. -/
theorem not_group_handled :
    groupArgument false 3 "0".toList = .badShift (-1)
      ∧ groupArgument false 3 "33".toList = .badShift 32
      ∧ groupArgument false 3 "5x".toList = .bind 16 16
      ∧ ¬ GroupHandled "0".toList (groupArgument false 3 "0".toList)
      ∧ ¬ GroupHandled "5x".toList (groupArgument false 3 "5x".toList) := by
  have hzero : groupArgument false 3 "0".toList = .badShift (-1) := by decide
  have hfive : groupArgument false 3 "5x".toList = .bind 16 16 := by decide
  have hread : strtoul "5x".toList = (5, ['x']) := by decide
  refine ⟨hzero, by decide, hfive, ?_, ?_⟩
  · rw [hzero]
    exact id
  · rw [hfive]
    rintro ⟨g, hg, -⟩
    rw [hread] at hg
    exact absurd (Prod.mk.inj hg).2 (by decide)

/-- With the check, only a number that the narrowing to `int` makes a good one is not handled. -/
theorem group_handled_printf_iff {argv1 ctmp : CStr} {n : Nat}
    (hread : strtoul argv1 = (n, ctmp)) :
    (∀ sfd, GroupHandled argv1 (groupArgument true sfd argv1))
      ↔ (ctmp = [] → 1 ≤ toInt n → toInt n ≤ 32 → n ≤ 32) := by
  constructor
  · intro h hend hlo hhi
    have hcheck : ¬ ((ctmp ≠ [] ∨ toInt n < 1 ∨ 32 < toInt n) ∧ true = true) := by
      rintro ⟨hne | hlt | hlt, -⟩
      · exact hne hend
      · omega
      · omega
    obtain ⟨g, hg, -, hle⟩ :=
      (isGroupNumber_iff argv1).mp (isGroupNumber_of_groupHandled hread hcheck (h 3))
    rw [hread, Prod.mk.injEq] at hg
    omega
  · intro h sfd
    by_cases hcheck : ctmp ≠ [] ∨ toInt n < 1 ∨ 32 < toInt n
    · rw [groupArgument_eq true sfd hread, if_pos ⟨hcheck, rfl⟩]
      trivial
    · simp only [not_or, not_not, not_lt] at hcheck
      obtain ⟨hend, hlo, hhi⟩ := hcheck
      have hn := h hend hlo hhi
      rw [toInt_of_le hn] at hlo
      apply groupHandled_of_isGroupNumber
      rw [isGroupNumber_iff]
      exact ⟨n, by rw [hread, hend], by omega, hn⟩

end TapProject.Netlink
