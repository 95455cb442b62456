import Mathlib.Data.List.Induction
import Mathlib.Data.List.Nodup
import Mathlib.Logic.Function.Basic

set_option autoImplicit false

/-! # Lists that grow by append-if-absent

A table without a removal operation, to which keys are added one at a time at the end unless
they are already there. `insertNew` is one insertion and `insertAll` a run of them. A run from
the empty table leaves the keys in the order of their first occurrence (`insertAll_nil`), and
an injective renaming of the keys commutes with it (`insertAll_map`). -/

namespace Insertion

variable {α β : Type*} [DecidableEq α] [DecidableEq β]

/-- Append `x` unless it is there. -/
def insertNew (l : List α) (x : α) : List α := if x ∈ l then l else l ++ [x]

/-- Insert the elements of `xs` from left to right. -/
def insertAll (l xs : List α) : List α := xs.foldl insertNew l

theorem insertNew_of_mem {l : List α} {x : α} (h : x ∈ l) : insertNew l x = l := if_pos h

theorem insertNew_of_not_mem {l : List α} {x : α} (h : x ∉ l) : insertNew l x = l ++ [x] :=
  if_neg h

@[simp] theorem insertAll_nil_right (l : List α) : insertAll l [] = l := rfl

theorem insertAll_cons (l : List α) (x : α) (xs : List α) :
    insertAll l (x :: xs) = insertAll (insertNew l x) xs := rfl

theorem insertAll_append (l xs ys : List α) :
    insertAll l (xs ++ ys) = insertAll (insertAll l xs) ys := List.foldl_append

@[simp] theorem insertAll_singleton (l : List α) (x : α) :
    insertAll l [x] = insertNew l x := rfl

theorem mem_insertNew {l : List α} {x y : α} : y ∈ insertNew l x ↔ y ∈ l ∨ y = x := by
  by_cases h : x ∈ l
  · rw [insertNew_of_mem h]
    constructor
    · exact Or.inl
    · rintro (hy | rfl)
      · exact hy
      · exact h
  · simp [insertNew_of_not_mem h]

theorem nodup_insertNew {l : List α} (h : l.Nodup) (x : α) : (insertNew l x).Nodup := by
  by_cases hx : x ∈ l
  · rwa [insertNew_of_mem hx]
  · rw [insertNew_of_not_mem hx, ← List.concat_eq_append]
    exact h.concat hx

theorem mem_insertAll {l xs : List α} {y : α} : y ∈ insertAll l xs ↔ y ∈ l ∨ y ∈ xs := by
  induction xs generalizing l with
  | nil => simp
  | cons x xs ih => rw [insertAll_cons, ih, mem_insertNew, List.mem_cons, or_assoc]

theorem nodup_insertAll {l : List α} (h : l.Nodup) (xs : List α) : (insertAll l xs).Nodup := by
  induction xs generalizing l with
  | nil => exact h
  | cons x xs ih => exact ih (nodup_insertNew h x)

/-- A table only grows at its end. -/
theorem prefix_insertAll (l xs : List α) : l <+: insertAll l xs := by
  induction xs generalizing l with
  | nil => exact List.prefix_refl l
  | cons x xs ih =>
      have hnew : l <+: insertNew l x := by
        by_cases hx : x ∈ l
        · exact (insertNew_of_mem hx).symm ▸ List.prefix_refl l
        · rw [insertNew_of_not_mem hx]
          exact List.prefix_append l [x]
      exact hnew.trans (ih (insertNew l x))

/-- Inserting what is there changes nothing. -/
theorem insertAll_of_subset {l xs : List α} (h : ∀ x ∈ xs, x ∈ l) : insertAll l xs = l := by
  induction xs with
  | nil => rfl
  | cons x xs ih =>
      obtain ⟨hx, hxs⟩ := List.forall_mem_cons.mp h
      rw [insertAll_cons, insertNew_of_mem hx, ih hxs]

/-- The order of the insertions only decides the order of the table. -/
theorem insertAll_perm {l xs ys : List α} (hl : l.Nodup) (h : xs.Perm ys) :
    (insertAll l xs).Perm (insertAll l ys) := by
  rw [List.perm_ext_iff_of_nodup (nodup_insertAll hl xs) (nodup_insertAll hl ys)]
  intro y
  rw [mem_insertAll, mem_insertAll, h.mem_iff]

/-! ## First occurrences

`List.eraseDups` keeps the first occurrence of every element. -/

/-- One more element at the end of a list, under `eraseDups`. -/
theorem eraseDups_concat (xs : List α) (x : α) :
    (xs ++ [x]).eraseDups = insertNew xs.eraseDups x := by
  rw [List.eraseDups_append]
  by_cases h : x ∈ xs
  · rw [insertNew_of_mem (List.mem_eraseDups.mpr h)]
    simp [List.removeAll, h]
  · rw [insertNew_of_not_mem (fun hx => h (List.mem_eraseDups.mp hx))]
    simp [List.removeAll, h, List.eraseDups_cons]

/-- **A run from the empty table keeps the first occurrences, in order.** -/
theorem insertAll_nil (xs : List α) : insertAll [] xs = xs.eraseDups := by
  induction xs using List.reverseRecOn with
  | nil => rfl
  | append_singleton xs x ih =>
      rw [insertAll_append, insertAll_singleton, ih, eraseDups_concat]

/-! ## Renaming the keys -/

/-- An injective renaming commutes with an insertion. -/
theorem insertNew_map {f : α → β} (hf : Function.Injective f) (l : List α) (x : α) :
    insertNew (l.map f) (f x) = (insertNew l x).map f := by
  by_cases h : x ∈ l
  · rw [insertNew_of_mem h, insertNew_of_mem (List.mem_map_of_mem h)]
  · have hf' : f x ∉ l.map f := fun hx => h ((List.mem_map_of_injective hf).mp hx)
    rw [insertNew_of_not_mem h, insertNew_of_not_mem hf', List.map_append]
    rfl

/-- An injective renaming commutes with a run of insertions. -/
theorem insertAll_map {f : α → β} (hf : Function.Injective f) (l xs : List α) :
    insertAll (l.map f) (xs.map f) = (insertAll l xs).map f := by
  induction xs generalizing l with
  | nil => rfl
  | cons x xs ih =>
      rw [List.map_cons, insertAll_cons, insertAll_cons, insertNew_map hf, ih]

end Insertion
