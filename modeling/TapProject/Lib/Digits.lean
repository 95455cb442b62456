import Mathlib.Algebra.Group.Nat.Defs
import Mathlib.Data.List.Basic

set_option autoImplicit false

/-! # Printed numbers

Facts about the digits `Nat.toDigits b n` a number is printed with, for a base `b` of at most
sixteen: the printing is injective (`toDigits_injective`) and uses digit characters only
(`mem_toDigits`), so that printed numbers joined by a separator that is no digit can be read
apart again (`append_cons_inj`). A number's text begins with another's exactly when some of its
last digits can be cut off to leave that other number (`toDigits_isPrefix_iff`). -/

namespace Digits

/-- The characters of the sixteen digits are different. -/
theorem digitChar_inj {m n : Nat} (hm : m < 16) (hn : n < 16)
    (h : Nat.digitChar m = Nat.digitChar n) : m = n := by
  have key : ∀ m < 16, ∀ n < 16, Nat.digitChar m = Nat.digitChar n → m = n := by decide
  exact key m hm n hn h

theorem mem_toDigits {b n : Nat} (hb : 1 < b) {c : Char} (hc : c ∈ Nat.toDigits b n) :
    ∃ d < b, c = Nat.digitChar d := by
  induction n using Nat.strongRecOn with
  | ind n ih =>
      rw [Nat.toDigits_eq_if hb] at hc
      by_cases hn : n < b
      · rw [if_pos hn, List.mem_singleton] at hc
        exact ⟨n, hn, hc⟩
      · rw [if_neg hn, List.mem_append, List.mem_singleton] at hc
        rcases hc with hc | hc
        · exact ih (n / b) (Nat.div_lt_self (by omega) hb) hc
        · exact ⟨n % b, Nat.mod_lt n (by omega), hc⟩

theorem length_toDigits_le_one_iff {b : Nat} (hb : 1 < b) (n : Nat) :
    (Nat.toDigits b n).length ≤ 1 ↔ n < b := by
  rw [Nat.length_toDigits_le_iff hb Nat.one_pos, pow_one]

/-- **Two numbers printed alike are equal.** -/
theorem toDigits_injective {b : Nat} (hb : 1 < b) (hb16 : b ≤ 16) :
    Function.Injective (Nat.toDigits b) := by
  intro m
  induction m using Nat.strongRecOn with
  | ind m ih =>
      intro n h
      have hone : m < b ↔ n < b := by
        rw [← length_toDigits_le_one_iff hb, ← length_toDigits_le_one_iff hb, h]
      rw [Nat.toDigits_eq_if hb (n := m), Nat.toDigits_eq_if hb (n := n)] at h
      by_cases hm : m < b
      · have hn : n < b := hone.mp hm
        rw [if_pos hm, if_pos hn, List.singleton_inj] at h
        exact digitChar_inj (by omega) (by omega) h
      · have hn : ¬ n < b := fun hn => hm (hone.mpr hn)
        rw [if_neg hm, if_neg hn] at h
        obtain ⟨hdiv, hmod⟩ := List.append_inj' h rfl
        have hdiv' : m / b = n / b := ih (m / b) (Nat.div_lt_self (by omega) hb) hdiv
        have hm16 : m % b < 16 := Nat.lt_of_lt_of_le (Nat.mod_lt m (by omega)) hb16
        have hn16 : n % b < 16 := Nat.lt_of_lt_of_le (Nat.mod_lt n (by omega)) hb16
        have hmod' : m % b = n % b := digitChar_inj hm16 hn16 (List.singleton_inj.mp hmod)
        rw [← Nat.div_add_mod m b, ← Nat.div_add_mod n b, hdiv', hmod']

/-- Cutting digits off `n` leaves `n` itself or what cutting leaves of `n / b`. -/
theorem exists_div_pow_iff (b d n : Nat) :
    (∃ i, n / b ^ i = d) ↔ n = d ∨ ∃ i, n / b / b ^ i = d := by
  have hcut : ∀ i, n / b / b ^ i = n / b ^ (i + 1) := fun i => by
    rw [Nat.div_div_eq_div_mul, pow_succ, Nat.mul_comm]
  constructor
  · rintro ⟨i, hi⟩
    cases i with
    | zero => exact Or.inl (by simpa using hi)
    | succ i => exact Or.inr ⟨i, by rw [hcut, hi]⟩
  · rintro (hnd | ⟨i, hi⟩)
    · exact ⟨0, by rw [pow_zero, Nat.div_one, hnd]⟩
    · exact ⟨i + 1, by rw [← hcut, hi]⟩

/-- **The text of `n` begins with the text of `d` iff `d` is left when digits of `n` are cut
off.** -/
theorem toDigits_isPrefix_iff {b d : Nat} (hb : 1 < b) (hb16 : b ≤ 16) (hd : 0 < d) (n : Nat) :
    Nat.toDigits b d <+: Nat.toDigits b n ↔ ∃ i, n / b ^ i = d := by
  induction n using Nat.strongRecOn with
  | ind n ih =>
      have hinj : Nat.toDigits b d = Nat.toDigits b n ↔ n = d :=
        (toDigits_injective hb hb16).eq_iff.trans eq_comm
      rw [exists_div_pow_iff]
      by_cases hn : n < b
      · -- a single digit, of which nothing can be cut off
        have hone : Nat.toDigits b n = [] ++ [Nat.digitChar n] := by
          rw [Nat.toDigits_of_lt_base hn, List.nil_append]
        have hnil : ¬ Nat.toDigits b d <+: [] := fun h =>
          Nat.toDigits_ne_nil (List.prefix_nil.mp h)
        have hzero : ¬ ∃ i, n / b / b ^ i = d := by
          rintro ⟨i, hi⟩
          rw [Nat.div_eq_of_lt hn, Nat.zero_div] at hi
          omega
        rw [hone, List.prefix_concat_iff, ← hone, hinj, or_iff_left hnil, or_iff_left hzero]
      · have hsplit : Nat.toDigits b n = Nat.toDigits b (n / b) ++ [Nat.digitChar (n % b)] :=
          Nat.toDigits_of_base_le hb (by omega)
        rw [hsplit, List.prefix_concat_iff, ← hsplit, hinj,
          ih (n / b) (Nat.div_lt_self (by omega) hb)]

/-- A character that is none of the first `b` digits does not occur in a number printed in
base `b`. -/
theorem not_mem_toDigits {b n : Nat} (hb : 1 < b) {c : Char}
    (hc : ∀ d < b, Nat.digitChar d ≠ c) : c ∉ Nat.toDigits b n := by
  intro h
  obtain ⟨d, hd, rfl⟩ := mem_toDigits hb h
  exact hc d hd rfl

/-- Two texts that end at their first separator can be read apart. -/
theorem append_cons_inj {α : Type*} {s : α} {a a' b b' : List α} (ha : s ∉ a) (ha' : s ∉ a')
    (h : a ++ s :: b = a' ++ s :: b') : a = a' ∧ b = b' := by
  induction a generalizing a' with
  | nil =>
      cases a' with
      | nil => exact ⟨rfl, List.tail_eq_of_cons_eq h⟩
      | cons y a' => exact absurd (List.head_eq_of_cons_eq h) (List.ne_of_not_mem_cons ha')
  | cons x a ih =>
      cases a' with
      | nil => exact absurd (List.head_eq_of_cons_eq h).symm (List.ne_of_not_mem_cons ha)
      | cons y a' =>
          obtain ⟨rfl, h'⟩ := List.cons.inj h
          obtain ⟨rfl, hb⟩ := ih (fun hs => ha (List.mem_cons_of_mem _ hs))
            (fun hs => ha' (List.mem_cons_of_mem _ hs)) h'
          exact ⟨rfl, hb⟩

end Digits
