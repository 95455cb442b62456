import Mathlib.Data.List.Basic
import Mathlib.Order.Basic

set_option autoImplicit false

/-! # Finite walks of a partial successor function

A cursor that moves by `next : α → Option α` until `next` gives nothing. `Walk P next a as`
says that the cursor started at `a` visits exactly the places `as`, in order, and that each of
them satisfies `P`. When a measure decreases at every move from a place with `P` to another one,
a walk exists iff every place the cursor can get to satisfies `P`
(`exists_walk_iff_of_measure`). -/

namespace Cursor

variable {α : Type*}

/-- From `a` on, the cursor visits the places `as`, each with `P`, and then stops. -/
inductive Walk (P : α → Prop) (next : α → Option α) : α → List α → Prop
  | last {a : α} : P a → next a = none → Walk P next a [a]
  | step {a b : α} {bs : List α} :
      P a → next a = some b → Walk P next b bs → Walk P next a (a :: bs)

/-- Where the cursor is after `k` moves; `none` once it has stopped. -/
def follow (next : α → Option α) : Nat → α → Option α
  | 0, a => some a
  | k + 1, a => (next a).bind (follow next k)

variable {P Q : α → Prop} {next next' : α → Option α}

theorem follow_succ_of_none {a : α} (h : next a = none) (k : Nat) :
    follow next (k + 1) a = none := by
  simp [follow, h]

theorem follow_succ_of_some {a b : α} (h : next a = some b) (k : Nat) :
    follow next (k + 1) a = follow next k b := by
  simp [follow, h]

/-- The last of `k + 1` moves. -/
theorem follow_succ (k : Nat) (a : α) :
    follow next (k + 1) a = (follow next k a).bind next := by
  induction k generalizing a with
  | zero =>
      rw [follow, follow, Option.bind_some]
      cases next a <;> rfl
  | succ k ih =>
      cases h : next a with
      | none => rw [follow_succ_of_none h, follow_succ_of_none h, Option.bind_none]
      | some b => rw [follow_succ_of_some h, follow_succ_of_some h, ih b]

theorem Walk.head {a : α} {as : List α} (h : Walk P next a as) : P a := by
  cases h with
  | last ha _ => exact ha
  | step ha _ _ => exact ha

/-- Where the cursor of a walk goes on, the rest of the walk begins. -/
theorem Walk.tail {a b : α} {as : List α} (h : Walk P next a as) (hb : next a = some b) :
    ∃ bs, Walk P next b bs := by
  cases h with
  | last _ hn => rw [hn] at hb; exact absurd hb (by simp)
  | step _ hn hw =>
      rw [hn, Option.some.injEq] at hb
      exact ⟨_, hb ▸ hw⟩

theorem Walk.ne_nil {a : α} {as : List α} (h : Walk P next a as) : as ≠ [] := by
  cases h <;> simp

/-- A walk stays a walk for a weaker property and a successor function that agrees on the
places with `P`. -/
theorem Walk.imp {a : α} {as : List α} (h : Walk P next a as) (hPQ : ∀ b, P b → Q b)
    (hnext : ∀ b, P b → next' b = next b) : Walk Q next' a as := by
  induction h with
  | last ha hn => exact .last (hPQ _ ha) (by rw [hnext _ ha, hn])
  | step ha hn _ ih => exact .step (hPQ _ ha) (by rw [hnext _ ha, hn]) ih

/-- The cursor of a walk is always at a place with `P`. -/
theorem Walk.of_follow {a b : α} {as : List α} (h : Walk P next a as) {k : Nat}
    (hk : follow next k a = some b) : P b := by
  induction h generalizing k with
  | last ha hn =>
      cases k with
      | zero => rw [follow, Option.some.injEq] at hk; exact hk ▸ ha
      | succ k => rw [follow_succ_of_none hn] at hk; exact absurd hk (by simp)
  | step ha hn _ ih =>
      cases k with
      | zero => rw [follow, Option.some.injEq] at hk; exact hk ▸ ha
      | succ k => rw [follow_succ_of_some hn] at hk; exact ih hk

/-- **Existence of walks.** When every move from a place with `P` decreases the measure `m`, the
cursor cannot go on forever, so the walk exists as soon as the cursor only gets to places with
`P`. -/
theorem exists_walk_iff_of_measure (m : α → Nat)
    (hm : ∀ a b, P a → next a = some b → P b → m b < m a) {a : α} :
    (∃ as, Walk P next a as) ↔ ∀ k b, follow next k a = some b → P b := by
  constructor
  · rintro ⟨as, h⟩ _ _ hk
    exact h.of_follow hk
  · intro hP
    induction hn : m a using Nat.strongRecOn generalizing a with
    | ind n ih =>
        have ha : P a := hP 0 a rfl
        cases hnext : next a with
        | none => exact ⟨[a], .last ha hnext⟩
        | some b =>
            have hPb : ∀ j c, follow next j b = some c → P c := fun j c hj =>
              hP (j + 1) c (by rw [follow_succ_of_some hnext, hj])
            have hlt : m b < n := hn ▸ hm a b ha hnext (hPb 0 b rfl)
            obtain ⟨bs, hbs⟩ := ih (m b) hlt hPb rfl
            exact ⟨a :: bs, .step ha hnext hbs⟩

end Cursor
