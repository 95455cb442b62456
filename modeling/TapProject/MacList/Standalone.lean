import TapProject.Basic.System

set_option autoImplicit false

/-! # The list of `mac_list.c`

The module from which the table of `write_tap_v5.c` came: nodes hold an address only, and
`mac_list_check` itself adds the address it does not find. A pointer to a node is the node's
position in the list, `none` for `NULL`.

On an address that is absent from a nonempty list `mac_list_check` returns its loop variable,
which stands behind the last node. `FindOrInsert` is what it does on every other input
(`findOrInsert_iff`). -/

namespace TapProject.Standalone

/-- `struct mac_list`. The link is the node's place in the list. -/
structure Node where
  macAdd : CStr
  deriving DecidableEq, Repr

/-- `list_top`, and the lines printed so far. -/
structure State where
  listTop : List Node
  out : List CStr
  deriving DecidableEq, Repr

/-! ## The operations -/

/-- `mac_list_top` -/
def macListTop : List Node → Option Nat
  | [] => none
  | _ :: _ => some 0

/-- The second half of `mac_list_add` from the node `p` on: the loop walks to the last node, which
the new node is linked to. -/
def addAfter (item : CStr) : Node → List Node → List Node
  | p, [] => [p, ⟨item⟩]
  | p, q :: next => p :: addAfter item q next

def macListAdd (item : CStr) : List Node → List Node
  | [] => [⟨item⟩]
  | top :: next => addAfter item top next

/-- The loop of `mac_list_check` from the node at `p` on; `none` when it ends with `p` at the tail
of the list. -/
def checkFrom (item : CStr) (p : Nat) : List Node → Option Nat
  | [] => none
  | q :: next => if q.macAdd = item then some p else checkFrom item (p + 1) next

def macListCheck (item : CStr) (s : State) : Option Nat × State :=
  match s.listTop with
  | [] =>
      let s := { s with listTop := macListAdd item s.listTop }
      (macListTop s.listTop, s)
  | _ :: _ =>
      let p := checkFrom item 0 s.listTop
      match p with
      | some _ => (p, s)
      | none =>
          -- `return p;` after the insertion: `p` has not been moved to the new node
          (p, { listTop := macListAdd item s.listTop
                out := s.out ++ ["mac add | ".toList ++ item] })

/-- `mac_list_count`: the loop counts `cnt` up to the end of the list. -/
def macListCountFrom (cnt : Nat) : List Node → Nat
  | [] => cnt
  | _ :: next => macListCountFrom (cnt + 1) next

def macListCount (listTop : List Node) : Nat := macListCountFrom 0 listTop

/-! ## What they compute -/

/-- The addresses of a list. -/
def addrs (l : List Node) : List CStr := l.map (·.macAdd)

theorem macListCountFrom_eq (cnt : Nat) (l : List Node) :
    macListCountFrom cnt l = cnt + l.length := by
  induction l generalizing cnt with
  | nil => rfl
  | cons p next ih => rw [macListCountFrom, ih, List.length_cons]; omega

theorem macListCount_eq (l : List Node) : macListCount l = l.length := by
  rw [macListCount, macListCountFrom_eq, Nat.zero_add]

theorem macListAdd_eq (item : CStr) (l : List Node) : macListAdd item l = l ++ [⟨item⟩] := by
  cases l with
  | nil => rfl
  | cons top next =>
      show addAfter item top next = _
      induction next generalizing top with
      | nil => rfl
      | cons q next ih => rw [addAfter, ih q]; rfl

/-- The loop finds the first node with the address. -/
theorem checkFrom_eq (item : CStr) (p : Nat) (l : List Node) :
    checkFrom item p l = (l.findIdx? fun q => q.macAdd = item).map (p + ·) := by
  induction l generalizing p with
  | nil => rfl
  | cons q next ih =>
      by_cases h : q.macAdd = item
      · simp [checkFrom, List.findIdx?_cons, h]
      · have hshift : (p + 1 + ·) = (p + ·) ∘ (· + 1) := by
          funext i
          simp only [Function.comp_apply]
          omega
        rw [checkFrom, if_neg h, ih, hshift, ← Option.map_map, List.findIdx?_cons,
          if_neg (by simpa)]

theorem findIdx?_eq_none {item : CStr} {l : List Node} :
    (l.findIdx? fun q => q.macAdd = item) = none ↔ item ∉ addrs l := by
  simp [List.findIdx?_eq_none_iff, addrs]

/-- An address that is there is found at its first occurrence, and nothing changes. -/
theorem macListCheck_of_mem {item : CStr} {s : State} (h : item ∈ addrs s.listTop) :
    macListCheck item s = (s.listTop.findIdx? fun q => q.macAdd = item, s) := by
  have hfind : checkFrom item 0 s.listTop = s.listTop.findIdx? fun q => q.macAdd = item := by
    rw [checkFrom_eq]
    simp
  obtain ⟨i, hi⟩ := Option.ne_none_iff_exists'.mp fun hnone => findIdx?_eq_none.mp hnone h
  unfold macListCheck
  split
  next hnil => rw [hnil] at h; exact absurd h List.not_mem_nil
  next => rw [hfind, hi]

theorem macListCheck_of_nil {item : CStr} {s : State} (h : s.listTop = []) :
    macListCheck item s = (some 0, { s with listTop := [⟨item⟩] }) := by
  simp [macListCheck, h, macListAdd, macListTop]

/-- An address that is absent from a nonempty list is added, and `NULL` is returned. -/
theorem macListCheck_of_not_mem {item : CStr} {s : State} (hne : s.listTop ≠ [])
    (h : item ∉ addrs s.listTop) :
    macListCheck item s
      = (none, ⟨s.listTop ++ [⟨item⟩], s.out ++ ["mac add | ".toList ++ item]⟩) := by
  have hfind : checkFrom item 0 s.listTop = none := by
    rw [checkFrom_eq, findIdx?_eq_none.mpr h]
    rfl
  unfold macListCheck
  split
  next hnil => exact absurd hnil hne
  next => rw [hfind, macListAdd_eq]

/-! ## Find or insert -/

/-- The result `r` of finding or inserting `item`: it points to a node with the address, the first
such node of an unchanged list if there was one, and else the one node that was appended. -/
structure FindOrInsert (item : CStr) (s : State) (r : Option Nat × State) : Prop where
  node : ∃ i p, r.1 = some i ∧ r.2.listTop[i]? = some p ∧ p.macAdd = item
  present : item ∈ addrs s.listTop →
    r.2.listTop = s.listTop ∧ r.1 = s.listTop.findIdx? fun q => q.macAdd = item
  absent : item ∉ addrs s.listTop →
    r.2.listTop = s.listTop ++ [⟨item⟩] ∧ r.1 = some s.listTop.length

/-- **`mac_list_check` finds or inserts exactly when the list is empty or has the address.** -/
theorem findOrInsert_iff (item : CStr) (s : State) :
    FindOrInsert item s (macListCheck item s) ↔ s.listTop = [] ∨ item ∈ addrs s.listTop := by
  constructor
  · -- the result is no `NULL`
    intro h
    by_contra hnot
    obtain ⟨hne, habsent⟩ := not_or.mp hnot
    obtain ⟨i, p, hi, -⟩ := h.node
    rw [macListCheck_of_not_mem hne habsent] at hi
    exact absurd hi (by simp)
  · rintro (hnil | hmem)
    · have habsent : item ∉ addrs s.listTop := by simp [hnil, addrs]
      rw [macListCheck_of_nil hnil]
      exact ⟨⟨0, ⟨item⟩, rfl, rfl, rfl⟩, fun h => absurd h habsent, fun _ => by simp [hnil]⟩
    · rw [macListCheck_of_mem hmem]
      constructor
      case node =>
        obtain ⟨i, hi⟩ := Option.ne_none_iff_exists'.mp fun hnone => findIdx?_eq_none.mp hnone hmem
        obtain ⟨hlt, hitem, -⟩ := List.findIdx?_eq_some_iff_getElem.mp hi
        exact ⟨i, s.listTop[i], hi, List.getElem?_eq_getElem hlt, by simpa using hitem⟩
      case present => exact fun _ => ⟨rfl, rfl⟩
      case absent => exact fun habsent => absurd hmem habsent

/-- The second address of a list is added, and what is returned is `NULL`. -/
theorem not_findOrInsert_second :
    macListCheck "XX.XX.XX.A2".toList ⟨[⟨"XX.XX.XX.A1".toList⟩], []⟩
        = (none, ⟨[⟨"XX.XX.XX.A1".toList⟩, ⟨"XX.XX.XX.A2".toList⟩],
            ["mac add | XX.XX.XX.A2".toList]⟩)
      ∧ ¬ FindOrInsert "XX.XX.XX.A2".toList ⟨[⟨"XX.XX.XX.A1".toList⟩], []⟩
          (macListCheck "XX.XX.XX.A2".toList ⟨[⟨"XX.XX.XX.A1".toList⟩], []⟩) := by
  have hcheck : macListCheck "XX.XX.XX.A2".toList ⟨[⟨"XX.XX.XX.A1".toList⟩], []⟩
      = (none, ⟨[⟨"XX.XX.XX.A1".toList⟩, ⟨"XX.XX.XX.A2".toList⟩],
          ["mac add | XX.XX.XX.A2".toList]⟩) := by decide
  refine ⟨hcheck, fun h => ?_⟩
  obtain ⟨i, p, hi, -⟩ := h.node
  rw [hcheck] at hi
  exact absurd hi (by simp)

end TapProject.Standalone
