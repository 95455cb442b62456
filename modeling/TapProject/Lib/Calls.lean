import Mathlib.Data.List.Basic
import Mathlib.Order.Basic

set_option autoImplicit false

/-! # Repeated calls of a generator

A generator keeps a state `σ` between its calls; a call returns a value `ο` or stops with an
error `ε`. `calls f n s` makes `n` calls and logs each value with the state after it. A long
series is two shorter ones after each other (`calls_add`), and what each call keeps and returns
holds all along a series (`calls_invariant`). -/

namespace Calls

variable {σ ο ε : Type*}

/-- The log of `n` calls from the state `s`, and the state after them. -/
def calls (f : σ → Except ε (ο × σ)) : Nat → σ → Except ε (List (ο × σ) × σ)
  | 0, s => .ok ([], s)
  | n + 1, s =>
      match f s with
      | .error e => .error e
      | .ok (o, s') =>
          match calls f n s' with
          | .error e => .error e
          | .ok (log, t) => .ok ((o, s') :: log, t)

variable {f : σ → Except ε (ο × σ)}

theorem calls_zero (s : σ) : calls f 0 s = .ok ([], s) := rfl

theorem calls_zero_inv {s t : σ} {log : List (ο × σ)} (h : calls f 0 s = .ok (log, t)) :
    log = [] ∧ t = s := by
  rw [calls_zero, Except.ok.injEq, Prod.mk.injEq] at h
  exact ⟨h.1.symm, h.2.symm⟩

theorem calls_succ_ok {n : Nat} {s s' t : σ} {o : ο} {log : List (ο × σ)}
    (h : f s = .ok (o, s')) (hs' : calls f n s' = .ok (log, t)) :
    calls f (n + 1) s = .ok ((o, s') :: log, t) := by
  simp only [calls, h, hs']

theorem calls_one {s s' : σ} {o : ο} (h : f s = .ok (o, s')) :
    calls f 1 s = .ok ([(o, s')], s') :=
  calls_succ_ok h (calls_zero s')

/-- A series of calls that succeeds begins with a call that does. -/
theorem calls_succ_inv {n : Nat} {s t : σ} {log : List (ο × σ)}
    (h : calls f (n + 1) s = .ok (log, t)) :
    ∃ o s' l, f s = .ok (o, s') ∧ calls f n s' = .ok (l, t) ∧ log = (o, s') :: l := by
  unfold calls at h
  cases hf : f s with
  | error e => rw [hf] at h; exact absurd h (by simp)
  | ok p =>
      obtain ⟨o, s'⟩ := p
      simp only [hf] at h
      cases hc : calls f n s' with
      | error e => rw [hc] at h; exact absurd h (by simp)
      | ok q =>
          obtain ⟨l, u⟩ := q
          simp only [hc, Except.ok.injEq, Prod.mk.injEq] at h
          exact ⟨o, s', l, rfl, by rw [hc, h.2], h.1.symm⟩

/-- Two states of which the next call is the same have the same series. -/
theorem calls_succ_congr {s s' : σ} (h : f s = f s') (n : Nat) :
    calls f (n + 1) s = calls f (n + 1) s' := by
  simp only [calls, h]

theorem calls_add {m n : Nat} {s t u : σ} {l l' : List (ο × σ)} (h : calls f m s = .ok (l, t))
    (h' : calls f n t = .ok (l', u)) : calls f (m + n) s = .ok (l ++ l', u) := by
  induction m generalizing s l with
  | zero =>
      obtain ⟨rfl, rfl⟩ := calls_zero_inv h
      rwa [Nat.zero_add, List.nil_append]
  | succ m ih =>
      obtain ⟨o, s', k, hf, hc, rfl⟩ := calls_succ_inv h
      rw [Nat.succ_add]
      exact calls_succ_ok hf (ih hc)

/-- **Invariant rule.** What every call keeps holds after a series of calls, and what every call
returns from such a state holds of all entries of the log. -/
theorem calls_invariant {I : σ → Prop} {Q : ο × σ → Prop}
    (hstep : ∀ s o s', I s → f s = .ok (o, s') → I s' ∧ Q (o, s')) {n : Nat} {s t : σ}
    {log : List (ο × σ)} (hs : I s) (h : calls f n s = .ok (log, t)) :
    I t ∧ ∀ c ∈ log, Q c := by
  induction n generalizing s log with
  | zero =>
      obtain ⟨rfl, rfl⟩ := calls_zero_inv h
      exact ⟨hs, by simp⟩
  | succ n ih =>
      obtain ⟨o, s', l, hf, hc, rfl⟩ := calls_succ_inv h
      obtain ⟨hs', hQ⟩ := hstep s o s' hs hf
      obtain ⟨ht, hl⟩ := ih hs' hc
      exact ⟨ht, List.forall_mem_cons.mpr ⟨hQ, hl⟩⟩

end Calls
