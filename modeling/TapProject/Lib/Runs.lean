import Mathlib.Data.List.Induction
import Mathlib.Data.List.Infix
import Mathlib.Order.Basic

set_option autoImplicit false

/-! # Runs of a step that can fail

A machine with states `σ` reads a list of inputs, one step each; a step may stop the machine
with an error of type `ε`. `run` is the run over a list of inputs. Two rules carry an invariant
along it: `run_ok` for a step that never fails on the invariant, which may mention the inputs
read so far, and `run_result` for any step. -/

namespace Runs

variable {σ ι ε : Type*}

/-- The run over `xs` from the state `s`. -/
def run (f : ι → σ → Except ε σ) : List ι → σ → Except ε σ
  | [], s => .ok s
  | x :: xs, s =>
      match f x s with
      | .error e => .error e
      | .ok s' => run f xs s'

variable {f : ι → σ → Except ε σ}

@[simp] theorem run_nil (s : σ) : run f [] s = .ok s := rfl

theorem run_cons_ok {x : ι} {s s' : σ} (h : f x s = .ok s') (xs : List ι) :
    run f (x :: xs) s = run f xs s' := by
  simp only [run, h]

theorem run_cons_error {x : ι} {s : σ} {e : ε} (h : f x s = .error e) (xs : List ι) :
    run f (x :: xs) s = .error e := by
  simp only [run, h]

theorem run_singleton (x : ι) (s : σ) : run f [x] s = f x s := by
  cases h : f x s with
  | error e => rw [run_cons_error h]
  | ok s' => rw [run_cons_ok h, run_nil]

/-- Two steps that agree on the inputs read have the same run. -/
theorem run_congr {g : ι → σ → Except ε σ} {xs : List ι} {s : σ}
    (h : ∀ x ∈ xs, ∀ s, f x s = g x s) : run f xs s = run g xs s := by
  induction xs generalizing s with
  | nil => rfl
  | cons x xs ih =>
      have hxs : ∀ y ∈ xs, ∀ s, f y s = g y s := fun y hy => h y (List.mem_cons_of_mem x hy)
      have hx := h x List.mem_cons_self s
      cases hg : g x s with
      | error e => rw [run_cons_error hg, run_cons_error (hx.trans hg)]
      | ok s' => rw [run_cons_ok hg, run_cons_ok (hx.trans hg), ih hxs]

/-- A run over a longer list goes on where the run over its first part ended. -/
theorem run_append_ok {xs : List ι} {s s' : σ} (h : run f xs s = .ok s') (ys : List ι) :
    run f (xs ++ ys) s = run f ys s' := by
  induction xs generalizing s with
  | nil =>
      rw [run_nil, Except.ok.injEq] at h
      rw [List.nil_append, h]
  | cons x xs ih =>
      cases hx : f x s with
      | error e => rw [run_cons_error hx] at h; exact absurd h (by simp)
      | ok t =>
          rw [run_cons_ok hx] at h
          rw [List.cons_append, run_cons_ok hx, ih h]

/-- A run over a longer list, whether its first part fails or not. -/
theorem run_append (xs ys : List ι) (s : σ) :
    run f (xs ++ ys) s = (run f xs s).bind (run f ys) := by
  induction xs generalizing s with
  | nil => rfl
  | cons x xs ih =>
      cases h : f x s with
      | error e => rw [List.cons_append, run_cons_error h, run_cons_error h]; rfl
      | ok s' => rw [List.cons_append, run_cons_ok h, run_cons_ok h, ih]

theorem run_concat_ok {xs : List ι} {x : ι} {s t : σ} (h : run f xs s = .ok t) :
    run f (xs ++ [x]) s = f x t := by
  rw [run_append_ok h, run_singleton]

/-- **Invariant rule for a step that does not fail.** `I xs s` relates the inputs read so far
to the state reached. -/
theorem run_ok {I : List ι → σ → Prop} {s₀ : σ} (h₀ : I [] s₀)
    (hstep : ∀ xs x s, I xs s → ∃ s', f x s = .ok s' ∧ I (xs ++ [x]) s') (xs : List ι) :
    ∃ s, run f xs s₀ = .ok s ∧ I xs s := by
  induction xs using List.reverseRecOn with
  | nil => exact ⟨s₀, rfl, h₀⟩
  | append_singleton xs x ih =>
      obtain ⟨s, hs, hinv⟩ := ih
      obtain ⟨s', hs', hinv'⟩ := hstep xs x s hinv
      exact ⟨s', by rw [run_concat_ok hs, hs'], hinv'⟩

/-- **Invariant rule for every run.** A property of results that each step keeps from a state
that was reached holds of the result of the run, whether it succeeds or fails. -/
theorem run_result {P : Except ε σ → Prop} {xs : List ι} {s₀ : σ} (h₀ : P (.ok s₀))
    (hstep : ∀ x ∈ xs, ∀ s, P (.ok s) → P (f x s)) : P (run f xs s₀) := by
  induction xs generalizing s₀ with
  | nil => exact h₀
  | cons x xs ih =>
      have hx := hstep x List.mem_cons_self s₀ h₀
      have hxs : ∀ y ∈ xs, ∀ s, P (.ok s) → P (f y s) := fun y hy =>
        hstep y (List.mem_cons_of_mem x hy)
      cases h : f x s₀ with
      | error e =>
          rw [run_cons_error h]
          rwa [h] at hx
      | ok s =>
          rw [run_cons_ok h]
          rw [h] at hx
          exact ih hx hxs

/-! ## Two machines side by side -/

section

variable {σ' ε' τ τ' : Type*}

/-- Both results are states, related by `R`, or both are errors, related by `E`. -/
def Agree (R : σ → σ' → Prop) (E : ε → ε' → Prop) : Except ε σ → Except ε' σ' → Prop
  | .ok s, .ok s' => R s s'
  | .error e, .error e' => E e e'
  | _, _ => False

variable {R : σ → σ' → Prop} {E : ε → ε' → Prop} {r : Except ε σ} {r' : Except ε' σ'}

/-- Where the other run goes on or ends, this one does. -/
theorem Agree.of_ok {s' : σ'} (h : Agree R E r (.ok s')) : ∃ s, r = .ok s ∧ R s s' := by
  rcases r with e | s
  · exact h.elim
  · exact ⟨s, rfl, h⟩

theorem Agree.of_error {e' : ε'} (h : Agree R E r (.error e')) : ∃ e, r = .error e ∧ E e e' := by
  rcases r with e | s
  · exact ⟨e, rfl, h⟩
  · exact h.elim

theorem Agree.mono {R' : σ → σ' → Prop} {E' : ε → ε' → Prop} (h : Agree R E r r')
    (hR : ∀ s s', R s s' → R' s s') (hE : ∀ e e', E e e' → E' e e') : Agree R' E' r r' := by
  cases r <;> cases r'
  case ok.ok => exact hR _ _ h
  case error.error => exact hE _ _ h
  all_goals exact h.elim

/-- What is done with the states that were reached. -/
theorem Agree.bind {Q : τ → τ' → Prop} {k : σ → Except ε τ} {k' : σ' → Except ε' τ'}
    (h : Agree R E r r') (hk : ∀ s s', R s s' → Agree Q E (k s) (k' s')) :
    Agree Q E (r.bind k) (r'.bind k') := by
  cases r <;> cases r'
  case ok.ok => exact hk _ _ h
  case error.error => exact h
  all_goals exact h.elim

/-- The same test on both sides. -/
theorem Agree.ite {c : Prop} [Decidable c] {q : Except ε σ} {q' : Except ε' σ'}
    (hthen : Agree R E r r') (helse : Agree R E q q') :
    Agree R E (if c then r else q) (if c then r' else q') := by
  split
  · exact hthen
  · exact helse

/-- **Two machines whose steps agree on related states agree on every run.** -/
theorem run_agree {g : ι → σ' → Except ε' σ'}
    (hstep : ∀ x s s', R s s' → Agree R E (f x s) (g x s')) (xs : List ι) {s : σ} {s' : σ'}
    (h : R s s') : Agree R E (run f xs s) (run g xs s') := by
  induction xs generalizing s s' with
  | nil => exact h
  | cons x xs ih =>
      have hx := hstep x s s' h
      cases hf : f x s with
      | ok t =>
          cases hg : g x s' with
          | ok t' =>
              rw [hf, hg] at hx
              rw [run_cons_ok hf, run_cons_ok hg]
              exact ih hx
          | error e' =>
              rw [hf, hg] at hx
              exact hx.elim
      | error e =>
          cases hg : g x s' with
          | ok t' =>
              rw [hf, hg] at hx
              exact hx.elim
          | error e' =>
              rw [hf, hg] at hx
              rw [run_cons_error hf, run_cons_error hg]
              exact hx

end

end Runs
