import TapProject.Lib.Chains
import TapProject.Lib.Loops

set_option autoImplicit false

/-! # Access to a heap

What a program does with the nodes of a heap: it reads and writes through pointers, allocates and
frees. Every way in which this can go wrong is a `Fault`: following null or a pointer to a node that
is not allocated, reading a field that was not written, and a loop over the nodes that does not come
to an end. A program decides what a fault is to it, by the function `fail` that the operations take.

What `malloc` returns is a parameter, `Alloc`: it may depend on every call of `malloc` and `free` so
far and on the heap, and may be null. On a heap that is one list, `Store.while_along` is the rule
for the loops over its nodes. -/

namespace Cells

open Chains Loops

/-- How an access or a loop goes wrong. `endless` is a loop that makes more turns than there are
nodes. -/
inductive Fault
  | nullDeref
  | dangling
  | uninit
  | endless
  deriving DecidableEq, Repr

inductive MemEvent
  | malloc (a : Addr)
  | free (a : Addr)
  deriving DecidableEq, Repr

/-- What `malloc` returns. -/
abbrev Alloc (ν : Type*) := List MemEvent → Heap ν → Ptr

/-- `malloc` succeeds and hands out an address that is not allocated. -/
def Succeeds {ν : Type*} (alloc : Alloc ν) : Prop :=
  ∀ log heap, ∃ a, alloc log heap = some a ∧ a ∉ heap

/-- The nodes, and the calls of `malloc` and `free` so far. -/
structure Store (ν : Type*) where
  heap : Heap ν
  log : List MemEvent

namespace Store

universe u

variable {ν α σ ρ : Type u} {ε : Type*}

def empty : Store ν := ⟨∅, []⟩

section

variable (s : Store ν) (fail : Fault → ε)

/-- The store with the node `n` at the address `a`. -/
def put (a : Addr) (n : ν) : Store ν := { s with heap := s.heap.insert a n }

/-- The node that `p` points to, with its address. -/
def deref : Ptr → Except ε (Addr × ν)
  | none => .error (fail .nullDeref)
  | some a =>
      match s.heap.lookup a with
      | none => .error (fail .dangling)
      | some n => .ok (a, n)

/-- `p->f` -/
def read (p : Ptr) (f : ν → Option α) : Except ε α := do
  let (_, n) ← s.deref fail p
  match f n with
  | none => .error (fail .uninit)
  | some v => .ok v

/-- An assignment to a field of `*p`; `set` is what it does to the node. -/
def write (p : Ptr) (set : ν → ν) : Except ε (Store ν) := do
  let (a, n) ← s.deref fail p
  .ok (s.put a (set n))

/-- A new node is `blank`. -/
def malloc (alloc : Alloc ν) (blank : ν) : Ptr × Store ν :=
  match alloc s.log s.heap with
  | none => (none, s)
  | some a => (some a, put { s with log := s.log ++ [.malloc a] } a blank)

def free : Ptr → Except ε (Store ν)
  | none => .ok s
  | some a =>
      if a ∈ s.heap then .ok { heap := s.heap.erase a, log := s.log ++ [.free a] }
      else .error (fail .dangling)

/-- A `while` loop over the nodes. The turns it may make are enough to see every node once. -/
def whileLoop (turn : σ → Except ε (Turn σ ρ)) (t : σ) : Except ε ρ :=
  loop (fail .endless) turn (s.heap.keys.card + 1) t

end

section

variable {s : Store ν} {fail : Fault → ε} {a : Addr} {n n' : ν}

theorem read_of_lookup (h : s.heap.lookup a = some n) {f : ν → Option α} {v : α}
    (hf : f n = some v) : s.read fail (some a) f = .ok v := by
  simp only [read, deref, h, ok_bind, hf]

theorem write_of_lookup (h : s.heap.lookup a = some n) (set : ν → ν) :
    s.write fail (some a) set = .ok (s.put a (set n)) := by
  simp only [write, deref, h, ok_bind]

theorem free_of_lookup (h : s.heap.lookup a = some n) :
    s.free fail (some a) = .ok { heap := s.heap.erase a, log := s.log ++ [.free a] } :=
  if_pos (Finmap.mem_of_lookup_eq_some h)

/-- A new node, at an address that was free. -/
theorem malloc_of_succeeds {alloc : Alloc ν} (halloc : Succeeds alloc) (s : Store ν) (blank : ν) :
    ∃ c, s.malloc alloc blank = (some c, put { s with log := s.log ++ [.malloc c] } c blank)
      ∧ c ∉ s.heap := by
  obtain ⟨c, hc, hfresh⟩ := halloc s.log s.heap
  exact ⟨c, by simp only [malloc, hc], hfresh⟩

@[simp] theorem lookup_put : (s.put a n).heap.lookup a = some n := Finmap.lookup_insert _

@[simp] theorem put_put : (s.put a n).put a n' = s.put a n' := by simp [put]

theorem put_comm {c : Addr} (h : a ≠ c) : (s.put a n).put c n' = (s.put c n').put a n := by
  simp only [put, Finmap.insert_insert_of_ne _ h]

/-- **Rule for a loop over the nodes of a list.** `I xs t` holds in a state `t` with the nodes `xs`
still to come; at most all nodes of the list are to come, so the loop has turns enough. -/
theorem while_along {β : Type*} {node : β → Ptr → ν}
    (hnode : ∀ b b' p p', node b p = node b' p' → b = b' ∧ p = p') {p : Ptr}
    {l : List (Addr × β)} (h : Whole node s.heap p l) {turn : σ → Except ε (Turn σ ρ)}
    {I : List (Addr × β) → σ → Prop} {Q : ρ → Prop}
    (hnil : ∀ t, I [] t → ∃ r, turn t = .ok (.leave r) ∧ Q r)
    (hcons : ∀ e xs t, I (e :: xs) t →
      (∃ t', turn t = .ok (.again t') ∧ I xs t') ∨ ∃ r, turn t = .ok (.leave r) ∧ Q r)
    {t : σ} (ht : I l t) : ∃ r, s.whileLoop fail turn t = .ok r ∧ Q r :=
  loop_along hnil hcons ht (by rw [h.card_eq hnode]; omega)

end

end Store

/-! ## An allocator -/

/-- Takes the lowest address that is free. -/
def firstFree {ν : Type*} : Alloc ν := fun _ heap =>
  (List.range (heap.keys.card + 1)).find? (· ∉ heap)

theorem firstFree_succeeds {ν : Type*} : Succeeds (firstFree : Alloc ν) := by
  intro log heap
  cases hfind : firstFree log heap with
  | some a => exact ⟨a, rfl, by simpa using List.find?_some hfind⟩
  | none =>
      -- there are more addresses than cells
      have hsub : Finset.range (heap.keys.card + 1) ⊆ heap.keys := by
        intro a ha
        have hmem := List.find?_eq_none.mp hfind a (by simpa using ha)
        rw [Finmap.mem_keys]
        simpa using hmem
      have hcard := Finset.card_le_card hsub
      rw [Finset.card_range] at hcard
      omega

end Cells
