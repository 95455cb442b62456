import Mathlib.Data.List.Basic

set_option autoImplicit false

/-! # Laws on traces

A law says of an event whether it is allowed, given the events before it. `Lawful law past es` says
that the events `es` keep the law when they come after the events `past`: a safety property, by
which each event is allowed at the moment it happens. A trace is extended one piece at a time
(`lawful_append`). -/

namespace Traces

variable {ε : Type*}

/-- Each of the events `es` is allowed when it happens, after the events `past`. -/
def Lawful (law : List ε → ε → Prop) (past : List ε) : List ε → Prop
  | [] => True
  | e :: es => law past e ∧ Lawful law (past ++ [e]) es

variable {law : List ε → ε → Prop} {past es fs : List ε}

@[simp] theorem lawful_nil : Lawful law past [] := trivial

theorem lawful_cons {e : ε} :
    Lawful law past (e :: es) ↔ law past e ∧ Lawful law (past ++ [e]) es := Iff.rfl

theorem lawful_append :
    Lawful law past (es ++ fs) ↔ Lawful law past es ∧ Lawful law (past ++ es) fs := by
  induction es generalizing past with
  | nil => simp
  | cons e es ih =>
      rw [List.cons_append, lawful_cons, lawful_cons, ih, and_assoc, List.append_assoc,
        List.singleton_append]

/-- Events that are allowed at any time. -/
theorem lawful_of_forall (h : ∀ e ∈ es, ∀ past, law past e) : Lawful law past es := by
  induction es generalizing past with
  | nil => trivial
  | cons e es ih =>
      obtain ⟨he, hes⟩ := List.forall_mem_cons.mp h
      exact ⟨he past, ih hes⟩

end Traces
