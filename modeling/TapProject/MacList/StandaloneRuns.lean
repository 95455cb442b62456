import TapProject.Lib.Runs
import TapProject.MacList.StandaloneMemory

set_option autoImplicit false

/-! # Runs of the list of `mac_list.c` in memory

The calls of the module on memory beside the same calls on the list of `MacList/Standalone.lean`,
where a pointer is a position.

`memory_refines`: a run goes wrong in one way only, when an address is added that its field has no
room for. What a run without such an address returns and prints is what the run on the list does, a
position in the list being the address of the node there. -/

namespace TapProject.Standalone.Memory

open Chains Loops Cells Runs

/-! ## Calls -/

inductive Call
  | init
  | top
  | add (item : CStr)
  | count
  | check (item : CStr)
  deriving DecidableEq, Repr

/-- What a call returns. The pointer is an address in memory, and a position in the list. -/
inductive Ret
  | void
  | ptr (p : Option Nat)
  | int (n : Nat)
  deriving DecidableEq, Repr

def call (alloc : Alloc) : Call → Mem → Except Wrong (Ret × Mem)
  | .init, m => do .ok (.void, ← macListInit m)
  | .top, m => .ok (.ptr (macListTop m), m)
  | .add item, m => do .ok (.void, ← macListAdd alloc item m)
  | .count, m => do .ok (.int (← macListCount m), m)
  | .check item, m => do
      let (p, m) ← macListCheck alloc item m
      .ok (.ptr p, m)

/-- The call on the list. -/
def onList : Call → State → Ret × State
  | .init, s => (.void, { s with listTop := [] })
  | .top, s => (.ptr (Standalone.macListTop s.listTop), s)
  | .add item, s => (.void, { s with listTop := Standalone.macListAdd item s.listTop })
  | .count, s => (.int (Standalone.macListCount s.listTop), s)
  | .check item, s => (.ptr (Standalone.macListCheck item s).1, (Standalone.macListCheck item s).2)

/-- The address that the call may add fits a node. -/
def Call.ItemFits : Call → Prop
  | .add item => Fits MAC_ADD item
  | .check item => Fits MAC_ADD item
  | _ => True

instance : (c : Call) → Decidable c.ItemFits
  | .add item => inferInstanceAs (Decidable (Fits MAC_ADD item))
  | .check item => inferInstanceAs (Decidable (Fits MAC_ADD item))
  | .init | .top | .count => inferInstanceAs (Decidable True)

/-- A position in the list as the address of the node there. -/
def Ret.at (l : Nodes) : Ret → Ret
  | .ptr p => .ptr (p.bind fun i => (addresses l)[i]?)
  | r => r

/-- The memory holds the list of `s` in the nodes `l`. -/
structure Refines (m : Mem) (s : State) (l : Nodes) : Prop where
  whole : Whole cell m.heap m.listTop l
  addrs : l.map Prod.snd = Standalone.addrs s.listTop
  fits : ∀ item ∈ Standalone.addrs s.listTop, Fits MAC_ADD item
  out : m.out = s.out

section

variable {m : Mem} {s : State} {l : Nodes}

theorem Refines.nil_iff (h : Refines m s l) : l = [] ↔ s.listTop = [] := by
  rw [← List.map_eq_nil_iff (f := Prod.snd), h.addrs, Standalone.addrs, List.map_eq_nil_iff]

theorem Refines.length_eq (h : Refines m s l) : l.length = s.listTop.length := by
  simpa [Standalone.addrs] using congrArg List.length h.addrs

theorem addrs_macListAdd (item : CStr) (l : List Node) :
    addrs (Standalone.macListAdd item l) = addrs l ++ [item] := by
  rw [Standalone.macListAdd_eq, addrs, addrs, List.map_append]
  rfl

theorem Refines.add {alloc : Alloc} (halloc : Succeeds alloc) (h : Refines m s l) {item : CStr}
    (hfit : Fits MAC_ADD item) :
    ∃ c m', macListAdd alloc item m = .ok m'
      ∧ Refines m' { s with listTop := Standalone.macListAdd item s.listTop }
          (l ++ [(c, item)]) := by
  obtain ⟨c, m', hok, hwhole, hout, -⟩ := macListAdd_eq halloc h.whole hfit
  refine ⟨c, m', hok, hwhole, ?_, ?_, hout.trans h.out⟩
  · rw [addrs_macListAdd, List.map_append, h.addrs]
    rfl
  · intro b hb
    rw [addrs_macListAdd, List.mem_append, List.mem_singleton] at hb
    rcases hb with hb | rfl
    · exact h.fits b hb
    · exact hfit

/-- The first node with an address is at the address's first position. -/
theorem findIdx?_of_nodes {ys zs : Nodes} {a : Addr} {item : CStr}
    (h : Refines m s (ys ++ (a, item) :: zs)) (hnot : item ∉ ys.map Prod.snd) :
    (s.listTop.findIdx? fun q => q.macAdd = item) = some ys.length := by
  have hmap : (s.listTop.findIdx? fun q => q.macAdd = item)
      = (Standalone.addrs s.listTop).findIdx? fun b => b = item := by
    rw [Standalone.addrs, List.findIdx?_map]
    rfl
  rw [hmap, ← h.addrs, List.map_append, List.map_cons, List.findIdx?_append,
    List.findIdx?_eq_none_iff.mpr, List.findIdx?_cons, if_pos (by simp)]
  · simp
  · intro b hb
    exact decide_eq_false fun heq => hnot (heq ▸ hb)

/-- **`mac_list_check` in memory is `mac_list_check` on the list.** -/
theorem Refines.check {alloc : Alloc} (halloc : Succeeds alloc) (h : Refines m s l) {item : CStr}
    (hfit : Fits MAC_ADD item) :
    ∃ p m' l', macListCheck alloc item m = .ok (p, m')
      ∧ Refines m' (Standalone.macListCheck item s).2 l'
      ∧ p = (Standalone.macListCheck item s).1.bind fun i => (addresses l')[i]? := by
  by_cases hnil : s.listTop = []
  · obtain rfl : l = [] := h.nil_iff.mpr hnil
    obtain ⟨c, m', hok, href⟩ := h.add halloc hfit
    have htop : m.listTop = none := h.whole.eq_none_iff.mpr rfl
    have htop' : m'.listTop = some c := (seg_cons_iff.mp href.whole.chain).1
    refine ⟨some c, m', [(c, item)], ?_, ?_, ?_⟩
    · simp only [macListCheck, if_pos htop, hok, ok_bind, htop']
    · rw [Standalone.macListCheck_of_nil hnil]
      rw [hnil] at href
      exact href
    · rw [Standalone.macListCheck_of_nil hnil]
      rfl
  · have htop : m.listTop ≠ none := fun hnone =>
      hnil (h.nil_iff.mp (h.whole.eq_none_iff.mp hnone))
    obtain ⟨r, hr, ⟨rfl, hnot⟩ | ⟨ys, a, zs, rfl, hnot, rfl⟩⟩ := find_eq h.whole item
    · -- the address is new: a node is added, and the pointer at the end of the loop is `NULL`
      obtain ⟨c, m', hok, href⟩ := h.add halloc hfit
      rw [h.addrs] at hnot
      refine ⟨none, { m' with out := m'.out ++ ["mac add | ".toList ++ item] }, l ++ [(c, item)],
        ?_, ?_, ?_⟩
      · simp only [macListCheck, if_neg htop, hr, hok, ok_bind]
      · rw [Standalone.macListCheck_of_not_mem hnil hnot]
        rw [Standalone.macListAdd_eq] at href
        exact ⟨href.whole, href.addrs, href.fits, congrArg (· ++ _) href.out⟩
      · rw [Standalone.macListCheck_of_not_mem hnil hnot]
        rfl
    · have hmem : item ∈ Standalone.addrs s.listTop := by
        rw [← h.addrs]
        simp
      refine ⟨some a, m, ys ++ (a, item) :: zs, ?_, ?_, ?_⟩
      · simp only [macListCheck, if_neg htop, hr, ok_bind]
      · rw [Standalone.macListCheck_of_mem hmem]
        exact h
      · rw [Standalone.macListCheck_of_mem hmem, findIdx?_of_nodes h hnot]
        simp [addresses]

/-- One call. -/
theorem Refines.call {alloc : Alloc} (halloc : Succeeds alloc) (h : Refines m s l) {c : Call}
    (hfit : c.ItemFits) :
    ∃ r m' l', call alloc c m = .ok (r, m') ∧ Refines m' (onList c s).2 l'
      ∧ r = (onList c s).1.at l' ∧ (c = .init → m'.log = m.log ++ (addresses l).map .free) := by
  cases c with
  | init =>
      obtain ⟨m', hok, hwhole, hout, hlog⟩ := macListInit_eq h.whole
      exact ⟨.void, m', [], by simp only [Memory.call, hok, ok_bind],
        ⟨hwhole, rfl, fun _ hb => absurd hb List.not_mem_nil, hout.trans h.out⟩, rfl, fun _ => hlog⟩
  | top =>
      refine ⟨_, m, l, rfl, h, ?_, by simp⟩
      -- the first node, if there is one
      have hchain := h.whole.chain
      show Ret.ptr m.listTop = _
      cases l with
      | nil => rw [h.whole.eq_none_iff.mpr rfl, onList, h.nil_iff.mp rfl]; rfl
      | cons e l =>
          obtain ⟨q, hq⟩ := List.exists_cons_of_ne_nil
            (mt h.nil_iff.mpr (List.cons_ne_nil e l))
          rw [(seg_cons_iff.mp hchain).1, onList, hq.choose_spec]
          rfl
  | add item =>
      obtain ⟨c, m', hok, href⟩ := h.add halloc hfit
      exact ⟨.void, m', l ++ [(c, item)], by simp only [Memory.call, hok, ok_bind], href, rfl,
        by simp⟩
  | count =>
      refine ⟨_, m, l, by simp only [Memory.call, macListCount_eq h.whole, ok_bind]; rfl, h, ?_,
        by simp⟩
      show Ret.int l.length = .int (Standalone.macListCount s.listTop)
      rw [Standalone.macListCount_eq, h.length_eq]
  | check item =>
      obtain ⟨p, m', l', hok, href, hp⟩ := h.check halloc hfit
      exact ⟨.ptr p, m', l', by simp only [Memory.call, hok, ok_bind], href, congrArg Ret.ptr hp,
        by simp⟩

/-- A call with an address that does not fit. `mac_list_check` does not find it either, since the
addresses of the list all fit. -/
theorem Refines.call_of_not_fits {alloc : Alloc} (halloc : Succeeds alloc) (h : Refines m s l)
    {c : Call} (hfit : ¬ c.ItemFits) : Memory.call alloc c m = .error .overflow := by
  cases c with
  | init | top | count => exact absurd trivial hfit
  | add item =>
      simp only [Memory.call, macListAdd_of_not_fits halloc h.whole hfit]
      rfl
  | check item =>
      have hadd := macListAdd_of_not_fits halloc h.whole hfit
      have hcheck : macListCheck alloc item m = .error .overflow := by
        obtain ⟨r, hr, ⟨rfl, -⟩ | ⟨ys, a, zs, rfl, -, -⟩⟩ := find_eq h.whole item
        · unfold macListCheck
          split
          · rw [hadd]
            rfl
          · rw [hr, ok_bind]
            dsimp only
            rw [hadd]
            rfl
        · exact absurd (h.fits item (by rw [← h.addrs]; simp)) hfit
      simp only [Memory.call, hcheck]
      rfl

end

/-! ## Runs -/

/-- What holds of the memory between two calls. -/
structure Sound (m : Mem) (l : Nodes) : Prop where
  follows : ∀ k, follow (macListNext m) k m.listTop = .ok (addresses l)[k]?
  once : (addresses l).Nodup
  written : ∀ e ∈ l, m.read (some e.1) (·.macAdd) = .ok e.2
  owned : ∀ a, a ∈ m.heap ↔ a ∈ addresses l

/-- The run of `calls` from an empty memory. -/
def runCalls (alloc : Alloc) (calls : List Call) : Except Wrong Mem :=
  run (fun c m => (call alloc c m).map Prod.snd) calls Mem.boot

/-- The run of `calls` from an empty list. -/
def runOnList (calls : List Call) : State :=
  calls.foldl (fun s c => (onList c s).2) ⟨[], []⟩

theorem read_of_seg {m : Mem} {p q : Ptr} {l : Nodes} (h : Seg cell m.heap p l q) :
    ∀ e ∈ l, m.read (some e.1) (·.macAdd) = .ok e.2 := by
  induction h with
  | nil => simp
  | cons ha _ ih => exact List.forall_mem_cons.mpr ⟨Mem.read_of_lookup ha rfl, ih⟩

theorem Refines.sound {m : Mem} {s : State} {l : Nodes} (h : Refines m s l) : Sound m l where
  follows := h.whole.chain.follow_eq rfl fun _ _ _ => macListNext_of_lookup
  once := h.whole.chain.nodup cell_inj
  written := read_of_seg h.whole.chain
  owned := h.whole.owned

/-- After a run: the memory holds the list of the run on lists, or the run stopped at an address
that did not fit. -/
def Reaches (calls : List Call) : Except Wrong Mem → Prop
  | .ok m => (∀ c ∈ calls, c.ItemFits) ∧ ∃ l, Refines m (runOnList calls) l
  | .error e => (∃ c ∈ calls, ¬ c.ItemFits) ∧ e = .overflow

theorem runCalls_reaches {alloc : Alloc} (halloc : Succeeds alloc) (calls : List Call) :
    Reaches calls (runCalls alloc calls) := by
  induction calls using List.reverseRecOn with
  | nil =>
      exact ⟨List.forall_mem_nil _, [], Whole.empty, rfl, fun _ hb => absurd hb List.not_mem_nil,
        rfl⟩
  | append_singleton calls c ih =>
      unfold runCalls at ih ⊢
      rw [run_append]
      cases hrun : run (fun c m => (call alloc c m).map Prod.snd) calls Mem.boot with
      | error e =>
          -- the run has stopped before
          rw [hrun] at ih
          obtain ⟨⟨d, hd, hnot⟩, he⟩ := ih
          exact ⟨⟨d, List.mem_append_left _ hd, hnot⟩, he⟩
      | ok m =>
          rw [hrun] at ih
          obtain ⟨hfits, l, href⟩ := ih
          show Reaches (calls ++ [c]) (run (fun c m => (call alloc c m).map Prod.snd) [c] m)
          rw [run_singleton]
          by_cases hfit : c.ItemFits
          · obtain ⟨r, m', l', hok, href', -⟩ := href.call halloc hfit
            rw [hok]
            refine ⟨?_, l', ?_⟩
            · rw [List.forall_mem_append, List.forall_mem_singleton]
              exact ⟨hfits, hfit⟩
            · rw [runOnList, List.foldl_concat]
              exact href'
          · rw [href.call_of_not_fits halloc hfit]
            exact ⟨⟨c, by simp, hfit⟩, rfl⟩

/-- **The list in memory refines the list.** A run goes through as long as every address that may be
added fits a node; it leaves a sound memory that holds the list of the run on lists, and has
printed the same lines. From there every call returns what it returns on the list, and leaves a
sound memory that holds the list afterwards; `mac_list_init` frees every node once. A run in which
some address does not fit stops where that is copied. -/
theorem memory_refines (alloc : Alloc) (halloc : Succeeds alloc) (calls : List Call) :
    ((∀ c ∈ calls, c.ItemFits) → ∃ m l, runCalls alloc calls = .ok m ∧ Sound m l
      ∧ l.map Prod.snd = addrs (runOnList calls).listTop ∧ m.out = (runOnList calls).out
      ∧ ∀ c, c.ItemFits → ∃ r m' l', call alloc c m = .ok (r, m') ∧ Sound m' l'
          ∧ r = (onList c (runOnList calls)).1.at l'
          ∧ l'.map Prod.snd = addrs (onList c (runOnList calls)).2.listTop
          ∧ (c = .init → m'.heap = ∅ ∧ m'.log = m.log ++ (addresses l).map .free))
    ∧ ((∃ c ∈ calls, ¬ c.ItemFits) → runCalls alloc calls = .error .overflow) := by
  have hreach := runCalls_reaches halloc calls
  constructor
  · intro hfits
    cases hrun : runCalls alloc calls with
    | error e =>
        rw [hrun] at hreach
        obtain ⟨⟨c, hc, hnot⟩, -⟩ := hreach
        exact absurd (hfits c hc) hnot
    | ok m =>
        rw [hrun] at hreach
        obtain ⟨-, l, href⟩ := hreach
        refine ⟨m, l, rfl, href.sound, href.addrs, href.out, ?_⟩
        intro c hfit
        obtain ⟨r, m', l', hok, href', hr, hinit⟩ := href.call halloc hfit
        refine ⟨r, m', l', hok, href'.sound, hr, href'.addrs, ?_⟩
        rintro rfl
        obtain rfl : l' = [] := List.map_eq_nil_iff.mp href'.addrs
        exact ⟨href'.whole.heap_eq_empty, hinit rfl⟩
  · intro hnot
    cases hrun : runCalls alloc calls with
    | error e =>
        rw [hrun] at hreach
        rw [hreach.2]
    | ok m =>
        rw [hrun] at hreach
        obtain ⟨c, hc, hc'⟩ := hnot
        exact absurd (hreach.1 c hc) hc'

/-- The second address is found, the third is added by `mac_list_check`. -/
theorem memory_refines_three :
    ∃ m l, runCalls firstFree [.init, .add "XX.XX.XX.A1".toList,
        .add "XX.XX.XX.A2".toList, .check "XX.XX.XX.A2".toList, .check "XX.XX.XX.A3".toList] = .ok m
      ∧ Sound m l
      ∧ l.map Prod.snd = ["XX.XX.XX.A1".toList, "XX.XX.XX.A2".toList, "XX.XX.XX.A3".toList]
      ∧ m.out = ["mac add | XX.XX.XX.A3".toList] := by
  obtain ⟨m, l, hm, hsound, haddrs, hout, -⟩ := (memory_refines firstFree firstFree_succeeds
    [.init, .add "XX.XX.XX.A1".toList, .add "XX.XX.XX.A2".toList,
      .check "XX.XX.XX.A2".toList, .check "XX.XX.XX.A3".toList]).1 (by decide)
  exact ⟨m, l, hm, hsound, by rw [haddrs]; decide, by rw [hout]; decide⟩

end TapProject.Standalone.Memory
