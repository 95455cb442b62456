import Mathlib.Data.List.Basic
import Mathlib.Data.List.Induction
import Mathlib.Algebra.BigOperators.Group.List.Basic

set_option autoImplicit false

/-! # Contiguous slices

A block of memory cut into consecutive slices of given sizes: `offset size i` is where the
`i`-th slice starts and `slice mem off len` what it holds. Slices that follow one another join
up to the slice of their total length (`slice_append`), so the slices of the first `n` sizes
are together the first `offset size n` cells (`flatMap_slice`).

`Holds mem off xs` says that the memory has the list `xs` at `off`. A list put together from parts
is taken apart again by `holds_append`, so what was encoded part by part is read part by part. -/

namespace Slices

variable {α : Type*}

/-- The `len` cells of `mem` from `off` on. -/
def slice (mem : Nat → α) (off len : Nat) : List α := (List.range len).map fun i => mem (off + i)

/-- Where the `i`-th slice starts: after all the slices before it. -/
def offset (size : Nat → Nat) : Nat → Nat
  | 0 => 0
  | i + 1 => offset size i + size i

@[simp] theorem slice_length (mem : Nat → α) (off len : Nat) :
    (slice mem off len).length = len := by
  simp [slice]

theorem slice_append (mem : Nat → α) (off k l : Nat) :
    slice mem off k ++ slice mem (off + k) l = slice mem off (k + l) := by
  simp only [slice, List.range_add, List.map_append, List.map_map, Function.comp_def, Nat.add_assoc]

theorem slice_getElem (mem : Nat → α) (off len i : Nat) (h : i < (slice mem off len).length) :
    (slice mem off len)[i] = mem (off + i) := by
  simp [slice]

theorem slice_take (mem : Nat → α) (off : Nat) {k len : Nat} (h : k ≤ len) :
    (slice mem off len).take k = slice mem off k := by
  rw [slice, ← List.map_take, List.take_range, Nat.min_eq_left h, slice]

/-- A slice only depends on the cells it covers. -/
theorem slice_congr {mem mem' : Nat → α} {off len : Nat}
    (h : ∀ i, off ≤ i → i < off + len → mem i = mem' i) :
    slice mem off len = slice mem' off len := by
  apply List.map_congr_left
  intro i hi
  have := List.mem_range.mp hi
  exact h (off + i) (by omega) (by omega)

theorem offset_mono (size : Nat → Nat) {i j : Nat} (h : i ≤ j) : offset size i ≤ offset size j := by
  induction h with
  | refl => exact Nat.le_refl _
  | step _ ih => exact Nat.le_trans ih (Nat.le_add_right _ _)

/-- The end of a slice is at most the start of every later one. -/
theorem offset_add_size_le (size : Nat → Nat) {i n : Nat} (h : i < n) :
    offset size i + size i ≤ offset size n :=
  offset_mono size (Nat.succ_le_of_lt h)

/-- **The slices of the first `n` sizes are the first `offset size n` cells.** -/
theorem flatMap_slice (mem : Nat → α) (size : Nat → Nat) (n : Nat) :
    ((List.range n).flatMap fun i => slice mem (offset size i) (size i))
      = slice mem 0 (offset size n) := by
  induction n with
  | zero => rfl
  | succ n ih =>
      have hlast := slice_append mem 0 (offset size n) (size n)
      rw [Nat.zero_add] at hlast
      calc ((List.range (n + 1)).flatMap fun i => slice mem (offset size i) (size i))
          = slice mem 0 (offset size n) ++ slice mem (offset size n) (size n) := by
            rw [List.range_succ, List.flatMap_append, ih, List.flatMap_singleton]
        _ = slice mem 0 (offset size (n + 1)) := hlast

/-! ## Lists in memory -/

/-- The cells from `off` on hold `xs`. -/
def Holds (mem : Nat → α) (off : Nat) (xs : List α) : Prop := slice mem off xs.length = xs

instance [DecidableEq α] (mem : Nat → α) (off : Nat) (xs : List α) : Decidable (Holds mem off xs) :=
  inferInstanceAs (Decidable (_ = _))

variable {mem : Nat → α} {off : Nat} {xs ys : List α}

theorem holds_iff : Holds mem off xs ↔ ∀ i (h : i < xs.length), mem (off + i) = xs[i] := by
  constructor
  · intro h i hi
    rw [← slice_getElem mem off xs.length i (by simpa using hi)]
    exact List.getElem_of_eq h _
  · intro h
    apply List.ext_getElem (slice_length _ _ _)
    intro i _ hi
    rw [slice_getElem, h i hi]

/-- **The parts of a list lie one behind the other.** -/
theorem holds_append :
    Holds mem off (xs ++ ys) ↔ Holds mem off xs ∧ Holds mem (off + xs.length) ys := by
  unfold Holds
  rw [List.length_append, ← slice_append, List.append_eq_append_iff_of_size_eq_left (by simp)]

theorem Holds.of_prefix (h : Holds mem off ys) (hxs : xs <+: ys) : Holds mem off xs := by
  obtain ⟨zs, rfl⟩ := hxs
  exact (holds_append.mp h).1

/-- What is put together from parts that are not empty is as long as there are parts. -/
theorem length_le_length_flatMap {β : Type*} {f : β → List α} {xs : List β}
    (h : ∀ x ∈ xs, f x ≠ []) : xs.length ≤ (xs.flatMap f).length := by
  rw [List.length_flatMap, ← List.length_map]
  refine List.length_le_sum_of_one_le _ fun n hn => ?_
  obtain ⟨x, hx, rfl⟩ := List.mem_map.mp hn
  exact List.length_pos_iff.mpr (h x hx)

theorem holds_nil : Holds mem off [] := rfl

theorem holds_cons {x : α} : Holds mem off (x :: xs) ↔ mem off = x ∧ Holds mem (off + 1) xs := by
  rw [← List.singleton_append, holds_append]
  simp [Holds, slice]

/-- The list at the start of a memory that reads it. -/
theorem holds_getD (xs : List α) (other : Nat → α) : Holds (fun i => xs.getD i (other i)) 0 xs := by
  rw [holds_iff]
  intro i hi
  simp [hi]

/-- A memory with more of the same list holds it too. -/
theorem Holds.congr {mem' : Nat → α} (h : Holds mem off xs)
    (hmem : ∀ i, off ≤ i → i < off + xs.length → mem' i = mem i) : Holds mem' off xs :=
  (slice_congr hmem).trans h

/-- What is read inside the list does not depend on where the list is. -/
theorem Holds.apply {mem' : Nat → α} {off' i : Nat} (h : Holds mem off xs) (h' : Holds mem' off' xs)
    (hi : i < xs.length) : mem (off + i) = mem' (off' + i) := by
  rw [holds_iff.mp h i hi, holds_iff.mp h' i hi]

/-! ## Lists put together from parts -/

/-- `size` gives the lengths of the lists in `xss`. -/
def Sizes (size : Nat → Nat) (xss : List (List α)) : Prop :=
  ∀ i (h : i < xss.length), size i = xss[i].length

theorem sizes_concat {size : Nat → Nat} {xss : List (List α)} {xs : List α}
    (h : Sizes size (xss ++ [xs])) : Sizes size xss ∧ size xss.length = xs.length := by
  constructor
  · intro i hi
    rw [h i (by simp; omega), List.getElem_append_left hi]
  · rw [h xss.length (by simp), List.getElem_concat_length rfl]

section

variable {size : Nat → Nat} {xss : List (List α)}

theorem offset_eq_length_flatten (hsize : Sizes size xss) :
    offset size xss.length = xss.flatten.length := by
  induction xss using List.reverseRecOn with
  | nil => rfl
  | append_singleton xss xs ih =>
      obtain ⟨hinit, hlast⟩ := sizes_concat hsize
      calc offset size (xss ++ [xs]).length
          = offset size xss.length + size xss.length := by rw [List.length_append]; rfl
        _ = (xss ++ [xs]).flatten.length := by rw [ih hinit, hlast]; simp

/-- **The slices of a list that was put together from parts are the parts.** -/
theorem Holds.parts (h : Holds mem 0 xss.flatten) (hsize : Sizes size xss) :
    (List.range xss.length).map (fun i => slice mem (offset size i) (size i)) = xss := by
  induction xss using List.reverseRecOn with
  | nil => rfl
  | append_singleton xss xs ih =>
      obtain ⟨hinit, hlast⟩ := sizes_concat hsize
      rw [List.flatten_append, holds_append, List.flatten_singleton, Nat.zero_add] at h
      rw [List.length_append, List.length_singleton, List.range_succ, List.map_append,
        ih h.1 hinit, List.map_singleton, hlast, offset_eq_length_flatten hinit, h.2]

end

end Slices
