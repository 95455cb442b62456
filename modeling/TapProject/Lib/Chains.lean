import Mathlib.Data.Finmap

set_option autoImplicit false

/-! # Linked lists in a heap

A heap is a finite map from addresses to nodes; a pointer is an address or null. A node that holds
the content `b` and the link `p` is `node b p`, for a function `node` that can be inverted. `Seg
node h p l q` says that from the pointer `p` on the links of `h` lead through the nodes `l`, each
given by its address and content, to the pointer `q`.

A segment is determined by its ends (`Seg.unique`); so one that ends in null visits no node twice
(`Seg.nodup`). What happens to other nodes does not matter (`Seg.frame`), and a segment can be cut
and joined at any node (`seg_append_iff`). `Whole node h p l` says that the heap consists of the
nodes of such a list and of nothing else; it is kept when a node is added at the end or the first
one is freed. -/

namespace Chains

abbrev Addr := Nat

/-- A pointer; `none` is null. -/
abbrev Ptr := Option Addr

abbrev Heap (ν : Type*) := Finmap fun _ : Addr => ν

variable {β ν : Type*} {node : β → Ptr → ν} {h h' : Heap ν} {p q r : Ptr} {a c : Addr} {b b' : β}
  {l l' : List (Addr × β)}

/-- From `p` the links lead through the nodes `l` to `q`. -/
inductive Seg (node : β → Ptr → ν) (h : Heap ν) : Ptr → List (Addr × β) → Ptr → Prop
  | nil (p : Ptr) : Seg node h p [] p
  | cons {a : Addr} {b : β} {p q : Ptr} {l : List (Addr × β)} :
      h.lookup a = some (node b p) → Seg node h p l q → Seg node h (some a) ((a, b) :: l) q

/-- The addresses of the nodes. -/
def addresses (l : List (Addr × β)) : List Addr := l.map Prod.fst

@[simp] theorem addresses_nil : addresses ([] : List (Addr × β)) = [] := rfl
@[simp] theorem addresses_cons (a : Addr) (b : β) (l : List (Addr × β)) :
    addresses ((a, b) :: l) = a :: addresses l := rfl
@[simp] theorem addresses_append (l l' : List (Addr × β)) :
    addresses (l ++ l') = addresses l ++ addresses l' := List.map_append

/-! ## Cutting and joining -/

theorem seg_nil_iff : Seg node h p [] q ↔ p = q := by
  constructor
  · rintro ⟨⟩
    rfl
  · rintro rfl
    exact .nil p

theorem seg_cons_iff :
    Seg node h p ((a, b) :: l) q
      ↔ p = some a ∧ ∃ r, h.lookup a = some (node b r) ∧ Seg node h r l q := by
  constructor
  · rintro (_ | ⟨ha, hl⟩)
    exact ⟨rfl, _, ha, hl⟩
  · rintro ⟨rfl, r, ha, hl⟩
    exact .cons ha hl

/-- From null the links lead nowhere. -/
theorem seg_none_iff : Seg node h none l q ↔ l = [] ∧ q = none := by
  constructor
  · rintro ⟨⟩
    exact ⟨rfl, rfl⟩
  · rintro ⟨rfl, rfl⟩
    exact .nil none

theorem seg_append_iff :
    Seg node h p (l ++ l') q ↔ ∃ r, Seg node h p l r ∧ Seg node h r l' q := by
  induction l generalizing p with
  | nil => simp [seg_nil_iff]
  | cons e l ih =>
      obtain ⟨a, b⟩ := e
      simp only [List.cons_append, seg_cons_iff, ih]
      constructor
      · rintro ⟨rfl, s, ha, r, hl, hl'⟩
        exact ⟨r, ⟨rfl, s, ha, hl⟩, hl'⟩
      · rintro ⟨r, ⟨rfl, s, ha, hl⟩, hl'⟩
        exact ⟨rfl, s, ha, r, hl, hl'⟩

/-- The node at the end of a segment holds the pointer that the segment leads to. -/
theorem seg_concat_iff :
    Seg node h p (l ++ [(a, b)]) q
      ↔ Seg node h p l (some a) ∧ h.lookup a = some (node b q) := by
  simp only [seg_append_iff, seg_cons_iff, seg_nil_iff]
  constructor
  · rintro ⟨r, hl, rfl, s, ha, rfl⟩
    exact ⟨hl, ha⟩
  · rintro ⟨hl, ha⟩
    exact ⟨_, hl, rfl, _, ha, rfl⟩

/-! ## Where a segment is -/

theorem Seg.mem (hl : Seg node h p l q) (ha : a ∈ addresses l) : a ∈ h := by
  induction hl with
  | nil => exact absurd ha List.not_mem_nil
  | cons hlookup _ ih =>
      rcases List.mem_cons.mp ha with rfl | ha
      · exact Finmap.mem_of_lookup_eq_some hlookup
      · exact ih ha

/-- A heap that is the same at the nodes of a segment has the same segment. -/
theorem Seg.frame (hl : Seg node h p l q)
    (heq : ∀ a ∈ addresses l, h'.lookup a = h.lookup a) : Seg node h' p l q := by
  induction hl with
  | nil p => exact .nil p
  | cons hlookup _ ih =>
      rw [addresses_cons, List.forall_mem_cons] at heq
      exact .cons (heq.1.trans hlookup) (ih heq.2)

theorem Seg.insert (hl : Seg node h p l q) (v : ν) (ha : a ∉ addresses l) :
    Seg node (h.insert a v) p l q :=
  hl.frame fun _ hc => Finmap.lookup_insert_of_ne _ fun heq => ha (heq ▸ hc)

theorem Seg.erase (hl : Seg node h p l q) (ha : a ∉ addresses l) :
    Seg node (h.erase a) p l q :=
  hl.frame fun _ hc => Finmap.lookup_erase_ne fun heq => ha (heq ▸ hc)

/-! ## Segments that end in null -/

section

variable (hnode : ∀ b b' p p', node b p = node b' p' → b = b' ∧ p = p')

include hnode

/-- The nodes from a pointer to null are determined by the heap. -/
theorem Seg.unique (hl : Seg node h p l none) (hl' : Seg node h p l' none) : l = l' := by
  induction l generalizing p l' with
  | nil =>
      obtain rfl := seg_nil_iff.mp hl
      exact (seg_none_iff.mp hl').1.symm
  | cons e l ih =>
      obtain ⟨a, b⟩ := e
      obtain ⟨rfl, r, ha, hl⟩ := seg_cons_iff.mp hl
      cases hl' with
      | cons ha' hl' =>
          rw [ha, Option.some.injEq] at ha'
          obtain ⟨rfl, rfl⟩ := hnode _ _ _ _ ha'
          rw [ih hl hl']

/-- **A list that ends in null visits no node twice.** -/
theorem Seg.nodup (hl : Seg node h p l none) : (addresses l).Nodup := by
  induction l generalizing p with
  | nil => exact List.nodup_nil
  | cons e l ih =>
      obtain ⟨a, b⟩ := e
      obtain ⟨rfl, r, ha, htail⟩ := seg_cons_iff.mp hl
      rw [addresses_cons, List.nodup_cons]
      refine ⟨fun hmem => ?_, ih htail⟩
      -- from the second visit of `a` on, the list would be the whole list again
      obtain ⟨⟨a', b'⟩, he, hfst⟩ := List.mem_map.mp hmem
      obtain rfl : a' = a := hfst
      obtain ⟨l₁, l₂, rfl⟩ := List.append_of_mem he
      obtain ⟨s, -, hagain⟩ := seg_append_iff.mp htail
      obtain rfl := (seg_cons_iff.mp hagain).1
      have hlen := congrArg List.length (Seg.unique hnode hl hagain)
      simp only [List.length_cons, List.length_append] at hlen
      omega

end

/-! ## Following the links -/

/-- The pointer after `k` calls of `next`. -/
def follow {ε : Type*} (next : Ptr → Except ε Ptr) : Nat → Ptr → Except ε Ptr
  | 0, p => .ok p
  | k + 1, p => (next p).bind (follow next k)

/-- A function that reads the links leads through the nodes to null, and stays there. -/
theorem Seg.follow_eq {ε : Type*} {next : Ptr → Except ε Ptr} (hnull : next none = .ok none)
    (hnext : ∀ a b q, h.lookup a = some (node b q) → next (some a) = .ok q)
    (hl : Seg node h p l none) (k : Nat) : follow next k p = .ok (addresses l)[k]? := by
  induction k generalizing p l with
  | zero =>
      cases hl with
      | nil => rfl
      | cons => rfl
  | succ k ih =>
      cases hl with
      | nil =>
          show (next none).bind (follow next k) = _
          rw [hnull]
          exact ih (.nil none)
      | cons ha hl =>
          show (next _).bind (follow next k) = _
          rw [hnext _ _ _ ha, addresses_cons, List.getElem?_cons_succ]
          exact ih hl

/-! ## Growing at the end -/

/-- A new node behind a segment that ends in null: the heap is changed at the new node and at the
node, if any, that links to it. -/
theorem Seg.link (hl : Seg node h p (l ++ [(a, b)]) none) (hnd : (addresses (l ++ [(a, b)])).Nodup)
    (hc : c ∉ h) :
    Seg node ((h.insert a (node b (some c))).insert c (node b' none)) p
      (l ++ [(a, b)] ++ [(c, b')]) none := by
  have hne : c ≠ a := by
    rintro rfl
    exact hc (hl.mem (by simp))
  have hcl : c ∉ addresses l := fun hmem => hc (hl.mem (by simp [hmem]))
  have hal : a ∉ addresses l := by
    rw [addresses_append, addresses_cons, addresses_nil, List.nodup_append] at hnd
    exact fun hmem => hnd.2.2 a hmem a List.mem_cons_self rfl
  rw [seg_concat_iff] at hl ⊢
  refine ⟨seg_concat_iff.mpr ⟨(hl.1.insert _ hal).insert _ hcl, ?_⟩, Finmap.lookup_insert _⟩
  rw [Finmap.lookup_insert_of_ne _ hne.symm, Finmap.lookup_insert]

/-! ## Heaps that are one list -/

/-- The list from `p` on ends in null, and no other node is in the heap. -/
structure Whole (node : β → Ptr → ν) (h : Heap ν) (p : Ptr) (l : List (Addr × β)) : Prop where
  chain : Seg node h p l none
  owned : ∀ a, a ∈ h ↔ a ∈ addresses l

namespace Whole

theorem empty : Whole node (∅ : Heap ν) none [] :=
  ⟨.nil none, fun _ => by simp [Finmap.notMem_empty]⟩

theorem eq_none_iff (hl : Whole node h p l) : p = none ↔ l = [] := by
  have hchain := hl.chain
  constructor
  · rintro rfl
    exact (seg_none_iff.mp hchain).1
  · rintro rfl
    exact seg_nil_iff.mp hchain

theorem heap_eq_empty (hl : Whole node h p []) : h = ∅ := by
  apply Finmap.ext_lookup
  intro a
  have ha : a ∉ h := fun hmem => List.not_mem_nil ((hl.owned a).mp hmem)
  rw [Finmap.lookup_eq_none.mpr ha, Finmap.lookup_empty]

/-- The first node of an empty list. -/
theorem first (hl : Whole node h p []) (c : Addr) (b : β) :
    Whole node (h.insert c (node b none)) (some c) [(c, b)] := by
  refine ⟨.cons (Finmap.lookup_insert _) (.nil none), fun a => ?_⟩
  rw [Finmap.mem_insert, hl.owned]
  simp

section

variable (hnode : ∀ b b' p p', node b p = node b' p' → b = b' ∧ p = p')

include hnode

/-- A heap that is one list has as many cells as the list has nodes. -/
theorem card_eq (hl : Whole node h p l) : h.keys.card = l.length := by
  have hkeys : h.keys = (addresses l).toFinset := by
    ext a
    rw [Finmap.mem_keys, hl.owned, List.mem_toFinset]
  rw [hkeys, List.toFinset_card_of_nodup (hl.chain.nodup hnode), addresses, List.length_map]

/-- **A node is added at the end**: the heap is changed at the last node and at the new one. -/
theorem link (hl : Whole node h p (l ++ [(a, b)])) (hc : c ∉ h) :
    Whole node ((h.insert a (node b (some c))).insert c (node b' none)) p
      (l ++ [(a, b)] ++ [(c, b')]) := by
  refine ⟨hl.chain.link (hl.chain.nodup hnode) hc, fun d => ?_⟩
  have ha : a ∈ h := (hl.owned a).mpr (by simp)
  rw [Finmap.mem_insert, Finmap.mem_insert, addresses_append, List.mem_append, ← hl.owned]
  constructor
  · rintro (rfl | rfl | hd)
    · exact Or.inr (List.mem_singleton_self _)
    · exact Or.inl ha
    · exact Or.inl hd
  · rintro (hd | hd)
    · exact Or.inr (Or.inr hd)
    · exact Or.inl (List.mem_singleton.mp hd)

/-- **The first node is freed.** -/
theorem erase (hl : Whole node h p ((a, b) :: l)) :
    ∃ q, p = some a ∧ h.lookup a = some (node b q) ∧ Whole node (h.erase a) q l := by
  obtain ⟨rfl, q, ha, htail⟩ := seg_cons_iff.mp hl.chain
  have hnotin : a ∉ addresses l := (List.nodup_cons.mp (hl.chain.nodup hnode)).1
  refine ⟨q, rfl, ha, htail.erase hnotin, fun d => ?_⟩
  rw [Finmap.mem_erase, hl.owned, addresses_cons, List.mem_cons]
  constructor
  · rintro ⟨hne, heq | hd⟩
    · exact absurd heq hne
    · exact hd
  · intro hd
    exact ⟨fun heq => hnotin (heq ▸ hd), Or.inr hd⟩

end

end Whole

end Chains
