import TapProject.Lib.Cells
import TapProject.MacList.Standalone

set_option autoImplicit false

/-! # The list of `mac_list.c` in memory

The operations of `MacList/Standalone.lean` once more, on the nodes that `malloc` hands out and the
pointers that link them, with `mac_list_init` and `mac_list_next`. A fault of an access or a loop
(`Cells.Fault`) stops the run, and so does copying an address that its field has no room for. There
is one lemma for what each operation does to a heap that is one list. -/

namespace TapProject.Standalone.Memory

open Chains Loops Cells

/-! ## Memory -/

/-- `char mac_add[18]` of `struct mac_list`. -/
def MAC_ADD : Nat := 18

/-- `struct mac_list`; a field is `none` until it is written. -/
structure Cell where
  macAdd : Option CStr
  macListNext : Option Ptr
  deriving DecidableEq, Repr

structure Mem extends Store Cell where
  listTop : Ptr
  out : List CStr

def Mem.boot : Mem := ⟨.empty, none, []⟩

/-- How a run goes wrong. -/
inductive Wrong
  | memory (why : Fault)
  | overflow
  deriving DecidableEq, Repr

/-- What `malloc(sizeof(struct mac_list))` returns. -/
abbrev Alloc := Cells.Alloc Cell

section

variable (m : Mem)

/-- The memory with the node `n` at the address `a`. -/
def Mem.put (a : Addr) (n : Cell) : Mem := { m with toStore := m.toStore.put a n }

/-- `p->f` -/
def Mem.read {α : Type} (p : Ptr) (f : Cell → Option α) : Except Wrong α :=
  m.toStore.read .memory p f

/-- An assignment to a field of `*p`. -/
def Mem.write (p : Ptr) (set : Cell → Cell) : Except Wrong Mem := do
  let store ← m.toStore.write .memory p set
  .ok { m with toStore := store }

/-- `strcpy(p->mac_add, item)` -/
def Mem.strcpy (p : Ptr) (item : CStr) : Except Wrong Mem :=
  if Fits MAC_ADD item then m.write p ({ · with macAdd := some item }) else .error .overflow

def Mem.malloc (alloc : Alloc) : Ptr × Mem :=
  let (p, store) := m.toStore.malloc alloc ⟨none, none⟩
  (p, { m with toStore := store })

def Mem.free (p : Ptr) : Except Wrong Mem := do
  let store ← m.toStore.free .memory p
  .ok { m with toStore := store }

/-- A `while` loop over the nodes. -/
def Mem.while {σ ρ : Type} (turn : σ → Except Wrong (Turn σ ρ)) (s : σ) : Except Wrong ρ :=
  m.toStore.whileLoop .memory turn s

end

/-! ## The operations -/

def initTurn (m : Mem) : Except Wrong (Turn Mem Mem) :=
  match m.listTop with
  | none => .ok (.leave m)
  | some a => do
      let deletePos : Ptr := some a
      let next ← m.read m.listTop (·.macListNext)
      let m ← Mem.free { m with listTop := next } deletePos
      .ok (.again m)

def macListInit (m : Mem) : Except Wrong Mem := m.while initTurn m

def macListNext (m : Mem) : Ptr → Except Wrong Ptr
  | none => .ok none
  | some a => m.read (some a) (·.macListNext)

def macListTop (m : Mem) : Ptr := m.listTop

/-- The loop of `mac_list_add`, which ends at the last node. -/
def lastTurn (m : Mem) (p : Ptr) : Except Wrong (Turn Ptr Ptr) := do
  let next ← m.read p (·.macListNext)
  .ok (if next = none then .leave p else .again next)

def macListAdd (alloc : Alloc) (item : CStr) (m : Mem) : Except Wrong Mem := do
  if m.listTop = none then
    let (q, m) := m.malloc alloc
    let m : Mem := { m with listTop := q }
    let m ← m.strcpy m.listTop item
    m.write m.listTop ({ · with macListNext := some none })
  else
    let p ← m.while (lastTurn m) m.listTop
    let (q, m) := m.malloc alloc
    let m ← m.write p ({ · with macListNext := some q })
    let m ← m.strcpy (← m.read p (·.macListNext)) item
    m.write (← m.read p (·.macListNext)) ({ · with macListNext := some none })

def countTurn (m : Mem) : Ptr × Nat → Except Wrong (Turn (Ptr × Nat) Nat)
  | (none, cnt) => .ok (.leave cnt)
  | (some a, cnt) => do
      let next ← m.read (some a) (·.macListNext)
      .ok (.again (next, cnt + 1))

def macListCount (m : Mem) : Except Wrong Nat := m.while (countTurn m) (m.listTop, 0)

/-- The loop of `mac_list_check`: `some p` is the `return` in its body, and `none` its end, at which
the variable is `NULL`. -/
def checkTurn (item : CStr) (m : Mem) : Ptr → Except Wrong (Turn Ptr (Option Ptr))
  | none => .ok (.leave none)
  | some a => do
      let macAdd ← m.read (some a) (·.macAdd)
      if macAdd = item then .ok (.leave (some (some a))) else
      let next ← macListNext m (some a)
      .ok (.again next)

def macListCheck (alloc : Alloc) (item : CStr) (m : Mem) : Except Wrong (Ptr × Mem) := do
  if m.listTop = none then
    let m ← macListAdd alloc item m
    .ok (m.listTop, m)
  else
    match ← m.while (checkTurn item m) m.listTop with
    | some p => .ok (p, m)
    | none =>
        let m ← macListAdd alloc item m
        .ok (none, { m with out := m.out ++ ["mac add | ".toList ++ item] })

/-! ## Reading and writing -/

/-- The node with both fields written. -/
def cell (macAdd : CStr) (next : Ptr) : Cell := ⟨some macAdd, some next⟩

theorem cell_inj (b b' : CStr) (q q' : Ptr) (h : cell b q = cell b' q') : b = b' ∧ q = q' := by
  simpa [cell] using h

/-- The nodes of a list, with their addresses. -/
abbrev Nodes := List (Addr × CStr)

section

variable {m : Mem} {a c : Addr} {n n' : Cell} {l : Nodes}

theorem Mem.read_of_lookup (h : m.heap.lookup a = some n) {α : Type} {f : Cell → Option α} {v : α}
    (hf : f n = some v) : m.read (some a) f = .ok v :=
  Store.read_of_lookup h hf

theorem Mem.write_of_lookup (h : m.heap.lookup a = some n) (set : Cell → Cell) :
    m.write (some a) set = .ok (m.put a (set n)) := by
  simp only [Mem.write, Store.write_of_lookup h, ok_bind]
  rfl

theorem Mem.strcpy_of_lookup (h : m.heap.lookup a = some n) {item : CStr}
    (hfit : Fits MAC_ADD item) :
    m.strcpy (some a) item = .ok (m.put a { n with macAdd := some item }) :=
  (if_pos hfit).trans (Mem.write_of_lookup h _)

theorem Mem.strcpy_of_not_fits {item : CStr} (hfit : ¬ Fits MAC_ADD item) (p : Ptr) :
    m.strcpy p item = .error .overflow :=
  if_neg hfit

/-- A new node; no field of it is written. -/
theorem Mem.malloc_of_succeeds {alloc : Alloc} (halloc : Succeeds alloc) (m : Mem) :
    ∃ c, m.malloc alloc = (some c, Mem.put { m with log := m.log ++ [.malloc c] } c ⟨none, none⟩)
      ∧ c ∉ m.heap := by
  obtain ⟨c, hc, hfresh⟩ := Store.malloc_of_succeeds halloc m.toStore ⟨none, none⟩
  refine ⟨c, ?_, hfresh⟩
  simp only [Mem.malloc, hc]
  rfl

@[simp] theorem Mem.lookup_put : (m.put c n).heap.lookup c = some n := Store.lookup_put

@[simp] theorem Mem.put_put : (m.put c n).put c n' = m.put c n' := by
  simp [Mem.put]

theorem macListNext_of_lookup {b : CStr} {q : Ptr} (h : m.heap.lookup a = some (cell b q)) :
    macListNext m (some a) = .ok q :=
  Mem.read_of_lookup h rfl

/-- A loop over at most the nodes of the list. -/
theorem while_along (h : Whole cell m.heap m.listTop l) {σ ρ : Type}
    {turn : σ → Except Wrong (Turn σ ρ)} {I : Nodes → σ → Prop} {Q : ρ → Prop}
    (hnil : ∀ s, I [] s → ∃ r, turn s = .ok (.leave r) ∧ Q r)
    (hcons : ∀ e xs s, I (e :: xs) s →
      (∃ s', turn s = .ok (.again s') ∧ I xs s') ∨ ∃ r, turn s = .ok (.leave r) ∧ Q r)
    {s : σ} (hs : I l s) : ∃ r, m.while turn s = .ok r ∧ Q r :=
  Store.while_along cell_inj h hnil hcons hs

/-! ## What the operations do -/

theorem macListCount_eq (h : Whole cell m.heap m.listTop l) : macListCount m = .ok l.length := by
  have hloop : ∃ cnt, m.while (countTurn m) (m.listTop, 0) = .ok cnt ∧ cnt = l.length := by
    apply while_along h
      (I := fun xs s => Seg cell m.heap s.1 xs none ∧ s.2 + xs.length = l.length)
    case hnil =>
      rintro ⟨p, cnt⟩ ⟨hseg, hlen⟩
      obtain rfl : p = none := seg_nil_iff.mp hseg
      exact ⟨cnt, rfl, hlen⟩
    case hcons =>
      rintro ⟨a, b⟩ xs ⟨p, cnt⟩ ⟨hseg, hlen⟩
      obtain ⟨rfl, q, ha, hseg⟩ := seg_cons_iff.mp hseg
      have hnext : m.read (some a) (·.macListNext) = .ok q := Mem.read_of_lookup ha rfl
      refine Or.inl ⟨(q, cnt + 1), by simp only [countTurn, hnext, ok_bind], hseg, ?_⟩
      calc cnt + 1 + xs.length
          = cnt + (xs.length + 1) := by omega
        _ = l.length := hlen
    case hs => exact ⟨h.chain, Nat.zero_add _⟩
  obtain ⟨cnt, hcnt, rfl⟩ := hloop
  exact hcnt

/-- The loop of `mac_list_add` ends at the last node. -/
theorem last_eq {b : CStr} (h : Whole cell m.heap m.listTop (l ++ [(a, b)])) :
    m.while (lastTurn m) m.listTop = .ok (some a) := by
  have hloop : ∃ p, m.while (lastTurn m) m.listTop = .ok p ∧ p = some a := by
    apply while_along h (I := fun xs p => Seg cell m.heap p xs none ∧ ∃ ys, xs = ys ++ [(a, b)])
    case hnil =>
      rintro p ⟨-, ys, hys⟩
      exact absurd hys.symm (by simp)
    case hcons =>
      rintro ⟨a', b'⟩ xs p ⟨hseg, ys, hys⟩
      obtain ⟨rfl, q, ha', hseg⟩ := seg_cons_iff.mp hseg
      have hnext : m.read (some a') (·.macListNext) = .ok q := Mem.read_of_lookup ha' rfl
      cases ys with
      | nil =>
          -- the last node links to nothing
          obtain ⟨hfirst, rfl⟩ := List.cons.inj hys
          obtain rfl : q = none := seg_nil_iff.mp hseg
          refine Or.inr ⟨some a', by simp only [lastTurn, hnext, ok_bind, if_pos], ?_⟩
          rw [(Prod.mk.inj hfirst).1]
      | cons e ys =>
          obtain ⟨-, rfl⟩ := List.cons.inj hys
          have hq : q ≠ none := by
            rintro rfl
            exact absurd (seg_none_iff.mp hseg).1 (by simp)
          exact Or.inl ⟨q, by simp only [lastTurn, hnext, ok_bind, if_neg hq], hseg, ys, rfl⟩
    case hs => exact ⟨h.chain, l, rfl⟩
  obtain ⟨p, hp, rfl⟩ := hloop
  exact hp

/-- The memory `m₁` in which the last node links to the new one at `c`, before that is written. -/
theorem link_eq {b : CStr} (h : Whole cell m.heap m.listTop (l ++ [(a, b)])) (hfresh : c ∉ m.heap) :
    ∃ m₁ : Mem, Mem.write (Mem.put { m with log := m.log ++ [.malloc c] } c ⟨none, none⟩) (some a)
        ({ · with macListNext := some (some c) }) = .ok (m₁.put c ⟨none, none⟩)
      ∧ (∀ n, (m₁.put c n).read (some a) (·.macListNext) = .ok (some c))
      ∧ (∀ item, Whole cell (m₁.put c (cell item none)).heap m₁.listTop
          (l ++ [(a, b)] ++ [(c, item)]))
      ∧ m₁.out = m.out ∧ m₁.log = m.log ++ [.malloc c] := by
  have hlast : m.heap.lookup a = some (cell b none) := (seg_concat_iff.mp h.chain).2
  have hne : a ≠ c := by
    rintro rfl
    exact hfresh (Finmap.mem_of_lookup_eq_some hlast)
  refine ⟨Mem.put { m with log := m.log ++ [.malloc c] } a (cell b (some c)), ?_, ?_,
    fun item => h.link cell_inj hfresh, rfl, rfl⟩
  · rw [Mem.write_of_lookup ((Finmap.lookup_insert_of_ne _ hne).trans hlast)]
    simp only [Mem.put, Store.put_comm hne.symm]
    rfl
  · intro n
    have hlookup : (Mem.put (Mem.put { m with log := m.log ++ [.malloc c] } a (cell b (some c)))
        c n).heap.lookup a = some (cell b (some c)) :=
      (Finmap.lookup_insert_of_ne _ hne).trans (Finmap.lookup_insert _)
    exact Mem.read_of_lookup hlookup rfl

/-- **`mac_list_add` adds a node at the end.** -/
theorem macListAdd_eq {alloc : Alloc} (halloc : Succeeds alloc)
    (h : Whole cell m.heap m.listTop l) {item : CStr} (hfit : Fits MAC_ADD item) :
    ∃ c m', macListAdd alloc item m = .ok m' ∧ Whole cell m'.heap m'.listTop (l ++ [(c, item)])
      ∧ m'.out = m.out ∧ m'.log = m.log ++ [.malloc c] := by
  obtain ⟨c, hmalloc, hfresh⟩ := Mem.malloc_of_succeeds halloc m
  rcases List.eq_nil_or_concat l with rfl | ⟨l, ⟨a, b⟩, rfl⟩
  · have htop : m.listTop = none := h.eq_none_iff.mpr rfl
    obtain ⟨m₁, hm₁⟩ : ∃ m₁ : Mem, m₁ = { m with listTop := some c, log := m.log ++ [.malloc c] } :=
      ⟨_, rfl⟩
    have htop₁ : ∀ n, (m₁.put c n).listTop = some c := fun _ => by rw [hm₁]; rfl
    refine ⟨c, m₁.put c (cell item none), ?_, ?_, by rw [hm₁]; rfl, by rw [hm₁]; rfl⟩
    · unfold macListAdd
      rw [if_pos htop, hmalloc]
      show (Mem.strcpy (Mem.put { m with listTop := some c, log := m.log ++ [.malloc c] } c
        ⟨none, none⟩) (some c) item
          >>= fun m => m.write m.listTop ({ · with macListNext := some none })) = _
      rw [← hm₁, Mem.strcpy_of_lookup Mem.lookup_put hfit, Mem.put_put, ok_bind, htop₁,
        Mem.write_of_lookup Mem.lookup_put, Mem.put_put]
      rfl
    · rw [hm₁]
      exact h.first c item
  · rw [List.concat_eq_append] at h ⊢
    have htop : m.listTop ≠ none := fun hnone => by simpa using h.eq_none_iff.mp hnone
    obtain ⟨m₁, hlink, hread, hwhole, hout, hlog⟩ := link_eq h hfresh
    refine ⟨c, m₁.put c (cell item none), ?_, hwhole item, hout, hlog⟩
    unfold macListAdd
    rw [if_neg htop, last_eq h, ok_bind, hmalloc]
    dsimp only
    rw [hlink, ok_bind, hread, ok_bind, Mem.strcpy_of_lookup Mem.lookup_put hfit, Mem.put_put,
      ok_bind, hread, ok_bind, Mem.write_of_lookup Mem.lookup_put, Mem.put_put]
    rfl

/-- The copy of an address that does not fit goes beyond the node. -/
theorem macListAdd_of_not_fits {alloc : Alloc} (halloc : Succeeds alloc)
    (h : Whole cell m.heap m.listTop l) {item : CStr} (hfit : ¬ Fits MAC_ADD item) :
    macListAdd alloc item m = .error .overflow := by
  obtain ⟨c, hmalloc, hfresh⟩ := Mem.malloc_of_succeeds halloc m
  rcases List.eq_nil_or_concat l with rfl | ⟨l, ⟨a, b⟩, rfl⟩
  · have htop : m.listTop = none := h.eq_none_iff.mpr rfl
    unfold macListAdd
    rw [if_pos htop, hmalloc]
    dsimp only
    rw [Mem.strcpy_of_not_fits hfit]
    rfl
  · rw [List.concat_eq_append] at h
    have htop : m.listTop ≠ none := fun hnone => by simpa using h.eq_none_iff.mp hnone
    obtain ⟨m₁, hlink, hread, -⟩ := link_eq h hfresh
    unfold macListAdd
    rw [if_neg htop, last_eq h, ok_bind, hmalloc]
    dsimp only
    rw [hlink, ok_bind, hread, ok_bind, Mem.strcpy_of_not_fits hfit]
    rfl

/-- **`mac_list_init` frees every node, each once.** -/
theorem macListInit_eq (h : Whole cell m.heap m.listTop l) :
    ∃ m', macListInit m = .ok m' ∧ Whole cell m'.heap m'.listTop [] ∧ m'.out = m.out
      ∧ m'.log = m.log ++ (addresses l).map .free := by
  apply while_along h (I := fun xs m' => Whole cell m'.heap m'.listTop xs ∧ m'.out = m.out
    ∧ ∃ ys, l = ys ++ xs ∧ m'.log = m.log ++ (addresses ys).map .free)
  case hnil =>
    rintro m' ⟨hwhole, hout, ys, hys, hlog⟩
    have htop : m'.listTop = none := hwhole.eq_none_iff.mpr rfl
    rw [List.append_nil] at hys
    exact ⟨m', by simp only [initTurn, htop], hwhole, hout, hys ▸ hlog⟩
  case hcons =>
    rintro ⟨a, b⟩ xs m' ⟨hwhole, hout, ys, hys, hlog⟩
    obtain ⟨q, htop, ha, hrest⟩ := hwhole.erase cell_inj
    have hnext : m'.read (some a) (·.macListNext) = .ok q := Mem.read_of_lookup ha rfl
    have hfree : Mem.free { m' with listTop := q } (some a)
        = .ok { m' with listTop := q, heap := m'.heap.erase a, log := m'.log ++ [.free a] } := by
      simp only [Mem.free, Store.free_of_lookup ha, ok_bind]
    refine Or.inl ⟨{ m' with listTop := q, heap := m'.heap.erase a, log := m'.log ++ [.free a] },
      ?_, hrest, hout, ys ++ [(a, b)], ?_, ?_⟩
    · simp only [initTurn, htop, hnext, ok_bind, hfree]
    · rw [hys, List.append_assoc]
      rfl
    · calc m'.log ++ [.free a]
          = m.log ++ (addresses ys).map .free ++ [.free a] := by rw [hlog]
        _ = m.log ++ (addresses (ys ++ [(a, b)])).map .free := by simp
  case hs => exact ⟨h, rfl, [], rfl, (List.append_nil _).symm⟩

/-- The loop of `mac_list_check` returns at the first node with the address, or ends. -/
theorem find_eq (h : Whole cell m.heap m.listTop l) (item : CStr) :
    ∃ r, m.while (checkTurn item m) m.listTop = .ok r
      ∧ (r = none ∧ item ∉ l.map Prod.snd
        ∨ ∃ ys a zs, l = ys ++ (a, item) :: zs ∧ item ∉ ys.map Prod.snd ∧ r = some (some a)) := by
  apply while_along h (I := fun xs p => Seg cell m.heap p xs none
    ∧ ∃ ys, l = ys ++ xs ∧ item ∉ ys.map Prod.snd)
  case hnil =>
    rintro p ⟨hseg, ys, hys, hnot⟩
    obtain rfl : p = none := seg_nil_iff.mp hseg
    rw [List.append_nil] at hys
    exact ⟨none, rfl, Or.inl ⟨rfl, hys ▸ hnot⟩⟩
  case hcons =>
    rintro ⟨a, b⟩ xs p ⟨hseg, ys, hys, hnot⟩
    obtain ⟨rfl, q, ha, hseg⟩ := seg_cons_iff.mp hseg
    have hadd : m.read (some a) (·.macAdd) = .ok b := Mem.read_of_lookup ha rfl
    by_cases hb : b = item
    · refine Or.inr ⟨some (some a), by simp only [checkTurn, hadd, ok_bind, if_pos hb],
        Or.inr ⟨ys, a, xs, hb ▸ hys, hnot, rfl⟩⟩
    · refine Or.inl ⟨q, ?_, hseg, ys ++ [(a, b)], by rw [hys]; simp, ?_⟩
      · simp only [checkTurn, hadd, ok_bind, if_neg hb, macListNext_of_lookup ha]
      · simpa [Ne.symm hb] using hnot
  case hs => exact ⟨h.chain, [], rfl, List.not_mem_nil⟩

end

end TapProject.Standalone.Memory
