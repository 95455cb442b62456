import TapProject.Lib.Digits

set_option autoImplicit false

/-! # Texts that can be read back

A program prints a record `a` as a text `f a`, one record behind the other. `Code f g` says that of
a text that begins with a record the part `g a` of the record can be read off, and where the next
one begins. Records printed one behind the other can then be read apart, up to `g` (`Code.flatMap`).

A record is a code when it is put together from codes: constant text, fields of a fixed width,
fields up to a separator, and lists of records with an end that no record begins with
(`Code.list`). -/

namespace Codes

variable {α β γ σ : Type*}

/-- The text `f a` tells `g a` and nothing else of `a`, whatever follows it. -/
structure Code (f : α → List σ) (g : α → β) : Prop where
  reads : ∀ a b s t, f a ++ s = f b ++ t → g a = g b ∧ s = t
  depends : ∀ a b, g a = g b → f a = f b

variable {f : α → List σ} {g : α → β}

/-! ## Fields -/

/-- A field that always has the same length. -/
theorem Code.fixed {n : Nat} (hlen : ∀ a, (f a).length = n) (h : ∀ a b, f a = f b ↔ g a = g b) :
    Code f g := by
  constructor
  · intro a b s t heq
    obtain ⟨hab, hst⟩ := List.append_inj heq (by rw [hlen, hlen])
    exact ⟨(h a b).mp hab, hst⟩
  · intro a b hab
    exact (h a b).mpr hab

/-- A field that ends at the first `c`. -/
theorem Code.until {c : σ} (hc : ∀ a, c ∉ f a) (h : ∀ a b, f a = f b ↔ g a = g b) :
    Code (fun a => f a ++ [c]) g := by
  constructor
  · intro a b s t heq
    rw [List.append_assoc, List.append_assoc, List.singleton_append, List.singleton_append] at heq
    obtain ⟨hab, hst⟩ := Digits.append_cons_inj (hc a) (hc b) heq
    exact ⟨(h a b).mp hab, hst⟩
  · intro a b hab
    show f a ++ [c] = f b ++ [c]
    rw [(h a b).mpr hab]

/-! ## Records -/

/-- Constant text in front of a field. -/
theorem Code.cons_text (h : Code f g) (w : List σ) : Code (fun a => w ++ f a) g := by
  constructor
  · intro a b s t heq
    rw [List.append_assoc, List.append_assoc] at heq
    exact h.reads a b s t (List.append_cancel_left heq)
  · intro a b hab
    show w ++ f a = w ++ f b
    rw [h.depends a b hab]

/-- Constant text behind a field. -/
theorem Code.append_text (h : Code f g) (w : List σ) : Code (fun a => f a ++ w) g := by
  constructor
  · intro a b s t heq
    rw [List.append_assoc, List.append_assoc] at heq
    obtain ⟨hab, hst⟩ := h.reads a b _ _ heq
    exact ⟨hab, List.append_cancel_left hst⟩
  · intro a b hab
    show f a ++ w = f b ++ w
    rw [h.depends a b hab]

/-- One field behind the other. -/
theorem Code.append {f' : α → List σ} {g' : α → γ} (h : Code f g) (h' : Code f' g') :
    Code (fun a => f a ++ f' a) fun a => (g a, g' a) := by
  constructor
  · intro a b s t heq
    rw [List.append_assoc, List.append_assoc] at heq
    obtain ⟨hab, hrest⟩ := h.reads a b _ _ heq
    obtain ⟨hab', hst⟩ := h'.reads a b s t hrest
    exact ⟨Prod.ext hab hab', hst⟩
  · intro a b hab
    show f a ++ f' a = f b ++ f' b
    rw [h.depends a b (congrArg Prod.fst hab), h'.depends a b (congrArg Prod.snd hab)]

/-- A field of a larger record. -/
theorem Code.comp (h : Code f g) (k : γ → α) : Code (fun c => f (k c)) fun c => g (k c) :=
  ⟨fun _ _ => h.reads _ _, fun _ _ => h.depends _ _⟩

/-- Records of two kinds, which the beginning of the text tells apart. -/
theorem Code.sum {δ : Type*} {f' : γ → List σ} {g' : γ → δ} (h : Code f g) (h' : Code f' g')
    (hne : ∀ a c s t, f a ++ s ≠ f' c ++ t) : Code (Sum.elim f f') (Sum.map g g') := by
  constructor
  · rintro (a | c) (b | d) s t heq
    · obtain ⟨hab, hst⟩ := h.reads a b s t heq
      exact ⟨congrArg Sum.inl hab, hst⟩
    · exact absurd heq (hne a d s t)
    · exact absurd heq.symm (hne b c t s)
    · obtain ⟨hcd, hst⟩ := h'.reads c d s t heq
      exact ⟨congrArg Sum.inr hcd, hst⟩
  · rintro (a | c) (b | d) heq
    · exact h.depends a b (Sum.inl.inj heq)
    · exact absurd heq Sum.inl_ne_inr
    · exact absurd heq Sum.inr_ne_inl
    · exact h'.depends c d (Sum.inr.inj heq)

/-! ## Sequences -/

/-- What the records tell determines the text. -/
theorem Code.flatMap_eq (h : Code f g) {as bs : List α} (hmap : as.map g = bs.map g) :
    as.flatMap f = bs.flatMap f := by
  induction as generalizing bs with
  | nil => rw [List.map_eq_nil_iff.mp hmap.symm]
  | cons a as ih =>
      cases bs with
      | nil => exact absurd hmap (List.cons_ne_nil _ _)
      | cons b bs =>
          obtain ⟨hab, hrest⟩ := List.cons.inj hmap
          rw [List.flatMap_cons, List.flatMap_cons, h.depends a b hab, ih hrest]

/-- **Records that are printed one behind the other can be read back**, as far as each can. -/
theorem Code.flatMap (h : Code f g) (hne : ∀ a, f a ≠ []) {as bs : List α} :
    as.flatMap f = bs.flatMap f ↔ as.map g = bs.map g := by
  refine ⟨fun heq => ?_, h.flatMap_eq⟩
  induction as generalizing bs with
  | nil =>
      cases bs with
      | nil => rfl
      | cons b bs => simp [hne b] at heq
  | cons a as ih =>
      cases bs with
      | nil => simp [hne a] at heq
      | cons b bs =>
          rw [List.flatMap_cons, List.flatMap_cons] at heq
          obtain ⟨hab, hrest⟩ := h.reads a b _ _ heq
          exact List.cons_eq_cons.mpr ⟨hab, ih hrest⟩

/-- A list of records, closed by a text that none of them begins with. -/
theorem Code.list (h : Code f g) {w : List σ} (hne : ∀ a s t, f a ++ s ≠ w ++ t) :
    Code (fun as => as.flatMap f ++ w) (List.map g) := by
  constructor
  · intro as
    induction as with
    | nil =>
        intro bs s t heq
        cases bs with
        | nil => exact ⟨rfl, List.append_cancel_left heq⟩
        | cons b bs =>
            rw [List.flatMap_nil, List.nil_append, List.flatMap_cons, List.append_assoc,
              List.append_assoc] at heq
            exact absurd heq.symm (hne b _ _)
    | cons a as ih =>
        intro bs s t heq
        cases bs with
        | nil =>
            rw [List.flatMap_nil, List.nil_append, List.flatMap_cons, List.append_assoc,
              List.append_assoc] at heq
            exact absurd heq (hne a _ _)
        | cons b bs =>
            rw [List.flatMap_cons, List.flatMap_cons, List.append_assoc, List.append_assoc,
              List.append_assoc, List.append_assoc, ← List.append_assoc (as.flatMap f),
              ← List.append_assoc (bs.flatMap f)] at heq
            obtain ⟨hab, hrest⟩ := h.reads a b _ _ heq
            obtain ⟨hmap, hst⟩ := ih bs s t hrest
            exact ⟨List.cons_eq_cons.mpr ⟨hab, hmap⟩, hst⟩
  · intro as bs hmap
    show as.flatMap f ++ w = bs.flatMap f ++ w
    rw [h.flatMap_eq hmap]

end Codes
