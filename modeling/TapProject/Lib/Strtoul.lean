import Mathlib.Algebra.Group.Nat.Defs
import Mathlib.Data.List.TakeWhile

set_option autoImplicit false

/-! # `strtoul` in base ten

The function of the C library on a 64-bit `unsigned long`, in the C locale: it skips white space,
takes an optional sign and the longest run of digits after it, and returns the number with what
follows the digits. Without a digit it returns 0 and the whole string; a number too large is
`ULONG_MAX`, whatever its sign, and a minus sign negates modulo `2 ^ 64`.

`IsNumeral` is the grammar of the strings that are read to their end as a number
(`strtoul_of_isNumeral`, `exists_isNumeral`). -/

namespace Strtoul

def ULONG_MAX : Nat := 2 ^ 64 - 1

def isSpace (c : Char) : Bool := c = ' ' ∨ (9 ≤ c.toNat ∧ c.toNat ≤ 13)

/-- The optional sign and what follows it. -/
def takeSign : List Char → List Char × List Char
  | [] => ([], [])
  | c :: t => if c = '+' ∨ c = '-' then ([c], t) else ([], c :: t)

/-- The number that a sign and a run of digits stand for. -/
def value (sign digits : List Char) : Nat :=
  let n := Nat.ofDigitChars 10 digits 0
  if ULONG_MAX < n then ULONG_MAX else if sign = ['-'] then (2 ^ 64 - n) % 2 ^ 64 else n

/-- The number read, and the string from the end pointer on. -/
def strtoul (s : List Char) : Nat × List Char :=
  let t := takeSign (s.dropWhile isSpace)
  let digits := t.2.takeWhile Char.isDigit
  if digits = [] then (0, s) else (value t.1 digits, t.2.dropWhile Char.isDigit)

/-! ## What is read to the end -/

/-- White space, a sign or none, and digits. -/
structure IsNumeral (s sign digits : List Char) : Prop where
  shape : ∃ blank, s = blank ++ (sign ++ digits) ∧ ∀ c ∈ blank, isSpace c = true
  sign : sign = [] ∨ sign = ['+'] ∨ sign = ['-']
  digits_ne_nil : digits ≠ []
  digits : ∀ c ∈ digits, c.isDigit = true

theorem isSpace_of_isDigit {c : Char} (h : c.isDigit = true) : isSpace c = false := by
  have hlo : 48 ≤ c.toNat := by
    simp only [Char.isDigit, Bool.and_eq_true, decide_eq_true_eq] at h
    exact h.1
  have hne : c ≠ ' ' := by
    rintro rfl
    exact absurd hlo (by decide)
  simp only [isSpace, hne, false_or, decide_eq_false_iff_not]
  omega

theorem ne_sign_of_isDigit {c : Char} (h : c.isDigit = true) : ¬ (c = '+' ∨ c = '-') := by
  rintro (rfl | rfl)
  · exact absurd h (by decide)
  · exact absurd h (by decide)

theorem dropWhile_append_of_head {p : Char → Bool} {xs ys : List Char}
    (hxs : ∀ c ∈ xs, p c = true) (hys : ∀ c ∈ ys.head?, p c = false) :
    (xs ++ ys).dropWhile p = ys := by
  rw [List.dropWhile_append_of_pos hxs]
  cases ys with
  | nil => rfl
  | cons y ys => rw [List.dropWhile_cons_of_neg (by simp [hys y rfl])]

/-- **A numeral is read to its end.** -/
theorem strtoul_of_isNumeral {s sign digits : List Char} (h : IsNumeral s sign digits) :
    strtoul s = (value sign digits, []) := by
  obtain ⟨blank, rfl, hblank⟩ := h.shape
  obtain ⟨d, ds, hd⟩ := List.exists_cons_of_ne_nil h.digits_ne_nil
  have hdigit : d.isDigit = true := h.digits d (by simp [hd])
  have hskip : (blank ++ (sign ++ digits)).dropWhile isSpace = sign ++ digits := by
    apply dropWhile_append_of_head hblank
    intro c hc
    rcases h.sign with rfl | rfl | rfl
    · rw [hd, List.nil_append, List.head?_cons, Option.mem_some_iff] at hc
      rw [← hc]
      exact isSpace_of_isDigit hdigit
    · obtain rfl : '+' = c := by simpa using hc
      decide
    · obtain rfl : '-' = c := by simpa using hc
      decide
  have hsign : takeSign (sign ++ digits) = (sign, digits) := by
    rcases h.sign with rfl | rfl | rfl
    · rw [hd, List.nil_append, takeSign, if_neg (ne_sign_of_isDigit hdigit)]
    · rfl
    · rfl
  have htake : digits.takeWhile Char.isDigit = digits := List.takeWhile_eq_self_iff.mpr h.digits
  have hdrop : digits.dropWhile Char.isDigit = [] := List.dropWhile_eq_nil_iff.mpr h.digits
  simp only [strtoul, hskip, hsign, htake, hdrop, if_neg h.digits_ne_nil]

/-- What `takeSign` takes off. -/
theorem takeSign_append (t : List Char) :
    (takeSign t).1 ++ (takeSign t).2 = t
      ∧ ((takeSign t).1 = [] ∨ (takeSign t).1 = ['+'] ∨ (takeSign t).1 = ['-']) := by
  cases t with
  | nil => exact ⟨rfl, Or.inl rfl⟩
  | cons c t =>
      by_cases h : c = '+' ∨ c = '-'
      · rw [takeSign, if_pos h]
        refine ⟨rfl, Or.inr ?_⟩
        rcases h with rfl | rfl
        · exact Or.inl rfl
        · exact Or.inr rfl
      · rw [takeSign, if_neg h]
        exact ⟨rfl, Or.inl rfl⟩

/-- **Only numerals are read to their end**, but for strings that give 0. -/
theorem exists_isNumeral {s : List Char} (hend : (strtoul s).2 = []) (hne : (strtoul s).1 ≠ 0) :
    ∃ sign digits, IsNumeral s sign digits := by
  obtain ⟨happend, hsign⟩ := takeSign_append (s.dropWhile isSpace)
  simp only [strtoul] at hend hne
  split at hne
  next => exact absurd rfl hne
  next hdigits =>
    rw [if_neg hdigits, List.dropWhile_eq_nil_iff] at hend
    have hall : (takeSign (s.dropWhile isSpace)).2.takeWhile Char.isDigit
        = (takeSign (s.dropWhile isSpace)).2 := List.takeWhile_eq_self_iff.mpr hend
    rw [hall] at hdigits
    refine ⟨_, _, ⟨s.takeWhile isSpace, ?_, ?_⟩, hsign, hdigits, hend⟩
    · rw [happend, List.takeWhile_append_dropWhile]
    · exact fun c hc => List.mem_takeWhile_imp hc

end Strtoul
