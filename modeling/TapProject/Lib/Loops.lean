import Mathlib.Order.Basic

set_option autoImplicit false

/-! # Loops

A turn of a `while` loop goes on from a new state, leaves the loop with a result or fails.
`loop` makes at most a given number of turns; when they are used up it fails with `endless`. The
rule `loop_along` proves that a loop that consumes a list, one element a turn, ends, and what it
returns. `forLoop` is a `for` loop that emits events; `forLoop_ok` is the rule for one in which
every turn decreases a measure, and `forLoop_along` the one for a loop along a list. -/

namespace Loops

universe u

variable {σ ρ ε α : Type*}

/-- What one turn of a loop does. -/
inductive Turn (σ ρ : Type*)
  | again (s : σ)
  | leave (r : ρ)

/-- The loop with the body `turn` from the state `s`, for at most `n` turns. -/
def loop (endless : ε) (turn : σ → Except ε (Turn σ ρ)) : Nat → σ → Except ε ρ
  | 0, _ => .error endless
  | n + 1, s =>
      match turn s with
      | .error e => .error e
      | .ok (.leave r) => .ok r
      | .ok (.again s') => loop endless turn n s'

theorem ok_bind {β γ : Type u} (b : β) (f : β → Except ε γ) : (Except.ok b >>= f) = f b := rfl

variable {endless : ε} {turn : σ → Except ε (Turn σ ρ)}

theorem loop_leave {s : σ} {r : ρ} (h : turn s = .ok (.leave r)) (n : Nat) :
    loop endless turn (n + 1) s = .ok r := by
  simp only [loop, h]

theorem loop_again {s s' : σ} (h : turn s = .ok (.again s')) (n : Nat) :
    loop endless turn (n + 1) s = loop endless turn n s' := by
  simp only [loop, h]

/-- **Rule for a loop along a list.** `I xs s` holds in a state `s` with the elements `xs` still
to come. -/
theorem loop_along {I : List α → σ → Prop} {Q : ρ → Prop}
    (hnil : ∀ s, I [] s → ∃ r, turn s = .ok (.leave r) ∧ Q r)
    (hcons : ∀ x xs s, I (x :: xs) s →
      (∃ s', turn s = .ok (.again s') ∧ I xs s') ∨ ∃ r, turn s = .ok (.leave r) ∧ Q r)
    {xs : List α} {s : σ} (hs : I xs s) {n : Nat} (hn : xs.length < n) :
    ∃ r, loop endless turn n s = .ok r ∧ Q r := by
  induction xs generalizing s n with
  | nil =>
      obtain ⟨k, rfl⟩ := Nat.exists_eq_add_of_lt hn
      obtain ⟨r, hr, hQ⟩ := hnil s hs
      exact ⟨r, loop_leave hr _, hQ⟩
  | cons x xs ih =>
      obtain ⟨k, rfl⟩ := Nat.exists_eq_add_of_lt hn
      rcases hcons x xs s hs with ⟨s', hs', hI⟩ | ⟨r, hr, hQ⟩
      · rw [loop_again hs']
        exact ih hI (by rw [List.length_cons]; omega)
      · exact ⟨r, loop_leave hr _, hQ⟩

/-! ## `for` loops that emit events -/

/-- `for (; test(s); s = next(s)) body(s);` from the state `s`, for at most `n` turns: the events
`check s` of every test and those of every body. -/
def forLoop (endless : ε) (test : σ → Prop) [DecidablePred test] (next : σ → σ)
    (check : σ → List α) (body : σ → Except ε (List α)) : Nat → σ → Except ε (List α)
  | 0, _ => .error endless
  | n + 1, s =>
      if test s then
        match body s with
        | .error e => .error e
        | .ok es =>
            match forLoop endless test next check body n (next s) with
            | .error e => .error e
            | .ok rest => .ok (check s ++ es ++ rest)
      else .ok (check s)

/-- From `s` on the loop makes a turn in each of the states `ss`, and is left in the state `t`. -/
inductive Turns (test : σ → Prop) (next : σ → σ) : σ → List σ → σ → Prop
  | leave {s : σ} : ¬ test s → Turns test next s [] s
  | turn {s t : σ} {ss : List σ} :
      test s → Turns test next (next s) ss t → Turns test next s (s :: ss) t

section

variable {test : σ → Prop} {next : σ → σ} {I : σ → Prop}

/-- The turns of a loop are determined by the state it starts in. -/
theorem Turns.unique {s t t' : σ} {ss ss' : List σ} (h : Turns test next s ss t)
    (h' : Turns test next s ss' t') : ss = ss' ∧ t = t' := by
  induction h generalizing ss' with
  | leave hn =>
      cases h' with
      | leave => exact ⟨rfl, rfl⟩
      | turn hs _ => exact absurd hs hn
  | turn hs _ ih =>
      cases h' with
      | leave hn => exact absurd hs hn
      | turn _ h' =>
          obtain ⟨rfl, rfl⟩ := ih h'
          exact ⟨rfl, rfl⟩

/-- An invariant holds in every turn. -/
theorem Turns.invariant (hstep : ∀ s, I s → test s → I (next s)) {s t : σ} {ss : List σ}
    (h : Turns test next s ss t) (hs : I s) : ∀ u ∈ ss, I u ∧ test u := by
  induction h with
  | leave => simp
  | turn htest _ ih => exact List.forall_mem_cons.mpr ⟨⟨hs, htest⟩, ih (hstep _ hs htest)⟩

/-- The turns of a loop whose state is the place of a block of memory: when each step goes at
least to the end of the block, the blocks follow one another. -/
theorem Turns.apart {off size : σ → Nat}
    (hstep : ∀ s, I s → test s → I (next s) ∧ off s + size s ≤ off (next s))
    {s t : σ} {ss : List σ} (h : Turns test next s ss t) (hs : I s) :
    ss.Pairwise (fun a b => off a + size a ≤ off b) ∧ ∀ a ∈ ss, off s ≤ off a := by
  induction h with
  | leave => exact ⟨List.Pairwise.nil, by simp⟩
  | turn htest _ ih =>
      obtain ⟨hI, hoff⟩ := hstep _ hs htest
      obtain ⟨hpair, hfirst⟩ := ih hI
      refine ⟨List.pairwise_cons.mpr ⟨fun a ha => Nat.le_trans hoff (hfirst a ha), hpair⟩, ?_⟩
      rintro a ha
      rcases List.mem_cons.mp ha with rfl | ha
      · exact Nat.le_refl _
      · exact Nat.le_trans (Nat.le_trans (Nat.le_add_right _ _) hoff) (hfirst a ha)

/-- **Rule for `for` loops.** The loop is left when every turn decreases the measure `m` as long as
the invariant `I` holds. `B s es` says what the body emits in the state `s`, and `P ss es` what a
loop with the turns `ss` emits. -/
theorem forLoop_ok [DecidablePred test] {check : σ → List α} {body : σ → Except ε (List α)}
    {P : List σ → List α → Prop} {B : σ → List α → Prop} {m : σ → Nat}
    (hstep : ∀ s, I s → test s → I (next s) ∧ m (next s) < m s)
    (hbody : ∀ s, I s → test s → ∃ es, body s = .ok es ∧ B s es)
    (hleave : ∀ s, I s → ¬ test s → P [] (check s))
    (hturn : ∀ s ss es rest, I s → test s → B s es → P ss rest →
      P (s :: ss) (check s ++ es ++ rest))
    {s : σ} (hs : I s) {n : Nat} (hn : m s < n) :
    ∃ ss t es, Turns test next s ss t ∧ forLoop endless test next check body n s = .ok es
      ∧ P ss es := by
  induction n generalizing s with
  | zero => omega
  | succ n ih =>
      by_cases htest : test s
      · obtain ⟨hI, hlt⟩ := hstep s hs htest
        obtain ⟨es, hes, hB⟩ := hbody s hs htest
        obtain ⟨ss, t, rest, hturns, hrest, hP⟩ := ih hI (by omega)
        refine ⟨s :: ss, t, check s ++ es ++ rest, .turn htest hturns, ?_,
          hturn s ss es rest hs htest hB hP⟩
        rw [forLoop, if_pos htest, hes]
        simp only [hrest]
      · refine ⟨[], s, check s, .leave htest, ?_, hleave s hs htest⟩
        rw [forLoop, if_neg htest]

/-- **Rule for a `for` loop along a list.** `I xs s` holds in a state `s` with the elements `xs`
still to come, and `P xs es` says what the loop emits for them. -/
theorem forLoop_along {β : Type*} [DecidablePred test] {check : σ → List α}
    {body : σ → Except ε (List α)} {I : List β → σ → Prop} {P : List β → List α → Prop}
    (hnil : ∀ s, I [] s → ¬ test s ∧ P [] (check s))
    (hcons : ∀ x xs s, I (x :: xs) s → test s ∧ I xs (next s)
      ∧ ∃ es, body s = .ok es ∧ ∀ rest, P xs rest → P (x :: xs) (check s ++ es ++ rest))
    {xs : List β} {s : σ} (hs : I xs s) {n : Nat} (hn : xs.length < n) :
    ∃ es, forLoop endless test next check body n s = .ok es ∧ P xs es := by
  induction xs generalizing s n with
  | nil =>
      obtain ⟨k, rfl⟩ := Nat.exists_eq_add_of_lt hn
      obtain ⟨htest, hP⟩ := hnil s hs
      exact ⟨check s, by rw [forLoop, if_neg htest], hP⟩
  | cons x xs ih =>
      obtain ⟨k, rfl⟩ := Nat.exists_eq_add_of_lt hn
      obtain ⟨htest, hI, es, hes, hP⟩ := hcons x xs s hs
      obtain ⟨rest, hrest, hPrest⟩ := ih hI (n := (x :: xs).length + k) (by
        rw [List.length_cons]
        omega)
      refine ⟨_, ?_, hP rest hPrest⟩
      rw [forLoop, if_pos htest, hes]
      simp only [hrest]

end

end Loops
