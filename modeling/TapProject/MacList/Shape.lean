import TapProject.MacList.Pointers

set_option autoImplicit false

/-! # The shape of the table in memory

`Shape m l` says that the heap is one list: the links lead from `list_top` through the nodes `l` to
`NULL`, every field of these nodes is written, and no other node is allocated. On such a memory the
loops of `mac_list_count`, `mac_list_print`, `mac_list_check` and `mac_list_add` end, read nothing
that is not there, and compute what the loops of `MacList/Table.lean` compute on the list. -/

namespace TapProject.Pointers

open Chains Loops Cells

/-- The node with all its fields written: those of `p`, and the link. -/
def written (p : MacList) (next : Ptr) : Node :=
  ⟨some p.macAdd, some p.tapName, some p.tapFdNum, some next⟩

theorem written_inj (p p' : MacList) (q q' : Ptr) (h : written p q = written p' q') :
    p = p' ∧ q = q' := by
  obtain ⟨macAdd, tapName, tapFdNum⟩ := p
  obtain ⟨macAdd', tapName', tapFdNum'⟩ := p'
  simpa [written, and_assoc] using h

/-- The nodes of the table, with their addresses. -/
abbrev Nodes := List (Addr × MacList)

/-- The address strings in the nodes. -/
abbrev Nodes.addrs (l : Nodes) : List CStr := TapProject.addrs (l.map Prod.snd)

abbrev Shape (m : Mem) (l : Nodes) : Prop := Whole written m.heap m.listTop l

/-! ## Reading and writing -/

section

variable {m : Mem} {a : Addr} {n : Node}

theorem Mem.read_of_lookup (h : m.heap.lookup a = some n) {α : Type} {f : Node → Option α} {v : α}
    (hf : f n = some v) : m.read (some a) f = .ok v :=
  Store.read_of_lookup h hf

theorem Mem.write_of_lookup (h : m.heap.lookup a = some n) (set : Node → Node) :
    m.write (some a) set = .ok (m.put a (set n)) := by
  simp only [Mem.write, Store.write_of_lookup h, ok_bind]
  rfl

theorem macListNext_of_lookup {p : MacList} {q : Ptr} (h : m.heap.lookup a = some (written p q)) :
    macListNext m (some a) = .ok q :=
  Mem.read_of_lookup h rfl

end

/-! ## Traversals -/

section

variable {m : Mem} {l : Nodes}

/-- A loop over at most the nodes of the table. -/
theorem Shape.while_along (h : Shape m l) {σ ρ : Type} {turn : σ → Except Halt (Turn σ ρ)}
    {I : Nodes → σ → Prop} {Q : ρ → Prop}
    (hnil : ∀ s, I [] s → ∃ r, turn s = .ok (.leave r) ∧ Q r)
    (hcons : ∀ e xs s, I (e :: xs) s →
      (∃ s', turn s = .ok (.again s') ∧ I xs s') ∨ ∃ r, turn s = .ok (.leave r) ∧ Q r)
    {s : σ} (hs : I l s) : ∃ r, m.while turn s = .ok r ∧ Q r :=
  Store.while_along written_inj h hnil hcons hs

/-- **`mac_list_count` returns the number of nodes.** -/
theorem Shape.macListCount (h : Shape m l) : macListCount m = .ok l.length := by
  have hloop : ∃ cnt, m.while (countTurn m) (m.listTop, 0) = .ok cnt ∧ cnt = l.length := by
    apply h.while_along
      (I := fun xs s => Seg written m.heap s.1 xs none ∧ s.2 + xs.length = l.length)
    case hnil =>
      rintro ⟨p, cnt⟩ ⟨hseg, hlen⟩
      obtain rfl : p = none := seg_nil_iff.mp hseg
      exact ⟨cnt, rfl, hlen⟩
    case hcons =>
      rintro ⟨a, b⟩ xs ⟨p, cnt⟩ ⟨hseg, hlen⟩
      obtain ⟨rfl, q, ha, hseg⟩ := seg_cons_iff.mp hseg
      refine Or.inl ⟨(q, cnt + 1), ?_, hseg, ?_⟩
      · have hnext : m.read (some a) (·.macListNext) = .ok q := Mem.read_of_lookup ha rfl
        simp only [countTurn, hnext, ok_bind]
      · rw [List.length_cons] at hlen
        show cnt + 1 + xs.length = l.length
        omega
    case hs => exact ⟨h.chain, Nat.zero_add _⟩
  obtain ⟨cnt, hcnt, rfl⟩ := hloop
  exact hcnt

/-- **`mac_list_print` prints a line for every node, in order.** -/
theorem Shape.macListPrint (h : Shape m l) :
    macListPrint m = .ok (m.emit (l.map (fun e => .print e.2.line)
      ++ [.print "------------------------".toList])) := by
  have hloop : ∃ m', m.while printTurn (m.listTop, m) = .ok m'
      ∧ m' = m.emit (l.map fun e => .print e.2.line) := by
    apply h.while_along (I := fun xs s => Seg written m.heap s.1 xs none
      ∧ ∃ ys, l = ys ++ xs ∧ s.2 = m.emit (ys.map fun e => .print e.2.line))
    case hnil =>
      rintro ⟨p, m'⟩ ⟨hseg, ys, hys, hm'⟩
      obtain rfl : p = none := seg_nil_iff.mp hseg
      refine ⟨m', rfl, ?_⟩
      rw [List.append_nil] at hys
      rw [hys]
      exact hm'
    case hcons =>
      rintro ⟨a, b⟩ xs ⟨p, m'⟩ ⟨hseg, ys, hys, hm'⟩
      obtain ⟨rfl, q, ha, hseg⟩ := seg_cons_iff.mp hseg
      have hm' : m' = m.emit (ys.map fun e => .print e.2.line) := hm'
      -- what was printed so far did not touch the heap
      have ha' : m'.heap.lookup a = some (written b q) := by rw [hm']; exact ha
      have hadd : m'.read (some a) (·.macAdd) = .ok b.macAdd := Mem.read_of_lookup ha' rfl
      have hname : m'.read (some a) (·.tapName) = .ok b.tapName := Mem.read_of_lookup ha' rfl
      have hfd : m'.read (some a) (·.tapFdNum) = .ok b.tapFdNum := Mem.read_of_lookup ha' rfl
      have hnext : (m'.emit [.print b.line]).read (some a) (·.macListNext) = .ok q :=
        Mem.read_of_lookup (m := m'.emit _) ha' rfl
      refine Or.inl ⟨(q, m'.emit [.print b.line]), ?_, hseg, ys ++ [(a, b)], ?_, ?_⟩
      · simp only [printTurn, hadd, hname, hfd, ok_bind]
        rw [hnext]
        rfl
      · rw [hys, List.append_assoc]
        rfl
      · show m'.emit _ = _
        rw [hm']
        simp [Mem.emit]
    case hs => exact ⟨h.chain, [], rfl, by simp [Mem.emit]⟩
  obtain ⟨m', hm', rfl⟩ := hloop
  simp only [Pointers.macListPrint, hm', ok_bind]
  simp [Mem.emit]

/-- **`mac_list_check` returns the first node with the address, and `NULL` if there is none.** -/
theorem Shape.macListCheck (h : Shape m l) (item : CStr) :
    macListCheck item m = .ok ((l.find? fun e => e.2.macAdd = item).map Prod.fst) := by
  have hloop : ∃ p, m.while (checkTurn item m) m.listTop = .ok p
      ∧ p = (l.find? fun e => e.2.macAdd = item).map Prod.fst := by
    apply h.while_along (I := fun xs p => Seg written m.heap p xs none
      ∧ (l.find? fun e => e.2.macAdd = item) = xs.find? fun e => e.2.macAdd = item)
    case hnil =>
      rintro p ⟨hseg, hfind⟩
      obtain rfl : p = none := seg_nil_iff.mp hseg
      exact ⟨none, rfl, by rw [hfind]; rfl⟩
    case hcons =>
      rintro ⟨a, b⟩ xs p ⟨hseg, hfind⟩
      obtain ⟨rfl, q, ha, hseg⟩ := seg_cons_iff.mp hseg
      have hadd : m.read (some a) (·.macAdd) = .ok b.macAdd := Mem.read_of_lookup ha rfl
      by_cases hb : b.macAdd = item
      · refine Or.inr ⟨some a, ?_, ?_⟩
        · simp only [checkTurn, hadd, ok_bind, if_pos hb]
        · rw [hfind, List.find?_cons_of_pos (by simpa using hb)]
          rfl
      · refine Or.inl ⟨q, ?_, hseg, ?_⟩
        · simp only [checkTurn, hadd, ok_bind, if_neg hb, macListNext_of_lookup ha]
        · rw [hfind, List.find?_cons_of_neg (by simpa using hb)]
    case hs => exact ⟨h.chain, rfl⟩
  obtain ⟨p, hp, hfind⟩ := hloop
  unfold Pointers.macListCheck
  split
  next htop =>
    -- the test before the loop: an empty list has no such node
    rw [htop, h.eq_none_iff.mp htop]
    rfl
  next => rw [hp, hfind]

/-- The loop of `mac_list_add` returns at a node with the address that is not the last one, or
ends at the last node. -/
theorem Shape.scan (h : Shape m l) (item : CStr) (hne : l ≠ []) :
    ∃ r, m.while (scanTurn item m) m.listTop = .ok r
      ∧ (r = none ∧ item ∈ l.addrs
        ∨ ∃ ys a b, l = ys ++ [(a, b)] ∧ r = some (some a) ∧ item ∉ Nodes.addrs ys) := by
  apply h.while_along (I := fun xs p => Seg written m.heap p xs none ∧ xs ≠ []
    ∧ ∃ ys, l = ys ++ xs ∧ item ∉ Nodes.addrs ys)
  case hnil =>
    rintro p ⟨-, hxs, -⟩
    exact absurd rfl hxs
  case hcons =>
    rintro ⟨a, b⟩ xs p ⟨hseg, -, ys, hys, hnot⟩
    obtain ⟨rfl, q, ha, hseg⟩ := seg_cons_iff.mp hseg
    have hnext : m.read (some a) (·.macListNext) = .ok q := Mem.read_of_lookup ha rfl
    have hadd : m.read (some a) (·.macAdd) = .ok b.macAdd := Mem.read_of_lookup ha rfl
    by_cases hq : q = none
    · -- the last node
      have hxs : xs = [] := by
        rw [hq] at hseg
        exact (seg_none_iff.mp hseg).1
      refine Or.inr ⟨some (some a), ?_, Or.inr ⟨ys, a, b, by rw [hys, hxs], rfl, hnot⟩⟩
      simp only [scanTurn, hnext, ok_bind, if_pos hq]
    · by_cases hb : b.macAdd = item
      · refine Or.inr ⟨none, ?_, Or.inl ⟨rfl, ?_⟩⟩
        · simp only [scanTurn, hnext, hadd, ok_bind, if_neg hq, if_pos hb]
        · rw [hys, ← hb]
          simp [Nodes.addrs, addrs]
      · refine Or.inl ⟨q, ?_, hseg, ?_, ys ++ [(a, b)], by rw [hys]; simp, ?_⟩
        · simp only [scanTurn, hnext, hadd, ok_bind, if_neg hq, if_neg hb,
            macListNext_of_lookup ha]
        · rintro rfl
          exact hq (seg_nil_iff.mp hseg)
        · simpa [Nodes.addrs, addrs, Ne.symm hb] using hnot
  case hs => exact ⟨h.chain, hne, [], rfl, List.not_mem_nil⟩

end

end TapProject.Pointers
