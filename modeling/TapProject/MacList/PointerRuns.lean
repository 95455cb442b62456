import TapProject.MacList.Refinement

set_option autoImplicit false

/-! # Runs of the table in memory

Every run of `mac_list_add`, `mac_list_check`, `mac_list_count` and `mac_list_init` from an empty
memory goes through, and after it the memory is sound: following the links from `list_top` leads
through all allocated nodes, each once and with all fields written, to `NULL`. The nodes change as
a list does under append-if-absent, lookup, length and clear (`calls_refine`). The same run on the
table of `MacList/Table.lean` ends in a state that holds the same entries (`run_refines`). -/

namespace TapProject.Pointers

open Chains Insertion Loops Cells Runs

/-- What holds of the memory between two calls. -/
structure Sound (m : Mem) (l : Nodes) : Prop where
  follows : ∀ k, follow (macListNext m) k m.listTop = .ok (addresses l)[k]?
  once : (addresses l).Nodup
  written : ∀ e ∈ l, ∃ next, m.heap.lookup e.1 = some (written e.2 next)
  owned : ∀ a, a ∈ m.heap ↔ a ∈ addresses l

/-- What a call does to the list of nodes, and what it returns. -/
def Prescribed (l l' : Nodes) (r : Ret) : Call → Prop
  | .add item => r = .void ∧ Added item l l'
  | .check item => r = .ptr ((l.find? fun e => e.2.macAdd = item).map Prod.fst) ∧ l' = l
  | .count => r = .int l.length ∧ l' = l
  | .init => r = .void ∧ l' = []

/-- What a call does to the list of addresses. -/
def addrsAfter (as : List CStr) : Call → List CStr
  | .add item => insertNew as item
  | .check _ => as
  | .count => as
  | .init => []

/-- The operation of `MacList/Lifecycle.lean` that a call is; the others leave the table alone. -/
def Call.op : Call → Option TableOp
  | .add item => some (.add item)
  | .check _ => none
  | .count => none
  | .init => some .init

/-- The run of `calls` from an empty memory. -/
def runCalls (host : Host) (alloc : Alloc) (calls : List Call) : Except Halt Mem :=
  run (fun c m => (call host alloc c m).map Prod.snd) calls Mem.boot

/-! ## Soundness -/

theorem written_of_seg {m : Mem} {p q : Ptr} {l : Nodes} (h : Seg Pointers.written m.heap p l q) :
    ∀ e ∈ l, ∃ next, m.heap.lookup e.1 = some (Pointers.written e.2 next) := by
  induction h with
  | nil => simp
  | cons ha _ ih => exact List.forall_mem_cons.mpr ⟨⟨_, ha⟩, ih⟩

theorem Shape.sound {m : Mem} {l : Nodes} (h : Shape m l) : Sound m l where
  follows := h.chain.follow_eq rfl fun _ _ _ => macListNext_of_lookup
  once := h.chain.nodup written_inj
  written := written_of_seg h.chain
  owned := h.owned

/-! ## One call -/

/-- After the new address was appended, or was there before, the addresses are those after
`Insertion.insertNew`. -/
theorem Added.addrs {item : CStr} {l l' : Nodes} (h : Added item l l') :
    l'.addrs = insertNew l.addrs item := by
  by_cases hmem : item ∈ l.addrs
  · rw [h.1 hmem, insertNew_of_mem hmem]
  · obtain ⟨c, fd, rfl⟩ := h.2 hmem
    rw [insertNew_of_not_mem hmem]
    simp [Nodes.addrs, TapProject.addrs]

theorem Refines.call {host : Host} (hh : host.Succeeds) {alloc : Alloc} (ha : Succeeds alloc)
    {m : Mem} {s : Sys} {l : Nodes} (h : Refines m s l) (c : Call) :
    ∃ r m' s' l', call host alloc c m = .ok (r, m') ∧ Refines m' s' l' ∧ Prescribed l l' r c
      ∧ run (applyOp host) c.op.toList s = .ok s' ∧ l'.addrs = addrsAfter l.addrs c
      ∧ (c = .init → m'.heap = ∅ ∧ m'.log = m.log ++ (addresses l).map .free) := by
  cases c with
  | add item =>
      obtain ⟨s', hok'⟩ := macListAdd_succeeds hh item s
      obtain ⟨m', hok, l', href, hadded⟩ := (hok' ▸ h.macListAdd host ha item).of_ok
      refine ⟨.void, m', s', l', ?_, href, ⟨rfl, hadded⟩, ?_, hadded.addrs, by simp⟩
      · simp only [Pointers.call, hok, ok_bind]
      · exact (run_singleton _ _).trans hok'
  | check item =>
      refine ⟨_, m, s, l, ?_, h, ⟨rfl, rfl⟩, run_nil s, rfl, by simp⟩
      simp only [Pointers.call, h.shape.macListCheck item, ok_bind]
  | count =>
      refine ⟨_, m, s, l, ?_, h, ⟨rfl, rfl⟩, run_nil s, rfl, by simp⟩
      simp only [Pointers.call, h.shape.macListCount, ok_bind]
  | init =>
      obtain ⟨m', hok, href, hheap, hlog⟩ := h.macListInit
      refine ⟨.void, m', _, [], ?_, href, ⟨rfl, rfl⟩, run_singleton _ _, rfl,
        fun _ => ⟨hheap, hlog⟩⟩
      simp only [Pointers.call, hok, ok_bind]

/-! ## Runs -/

/-- **A run in memory refines the run on the list.** -/
theorem run_refines {host : Host} (hh : host.Succeeds) {alloc : Alloc} (ha : Succeeds alloc)
    (calls : List Call) :
    ∃ m, runCalls host alloc calls = .ok m ∧ ∃ s l, runOps host (calls.filterMap Call.op) = .ok s
      ∧ Refines m s l ∧ l.addrs = calls.foldl addrsAfter [] := by
  apply run_ok (I := fun calls m => ∃ s l, runOps host (calls.filterMap Call.op) = .ok s
    ∧ Refines m s l ∧ l.addrs = calls.foldl addrsAfter [])
  · exact ⟨Sys.boot, [], rfl, Refines.boot, rfl⟩
  · rintro calls c m ⟨s, l, hs, href, haddrs⟩
    obtain ⟨r, m', s', l', hcall, href', -, hrun, haddrs', -⟩ := href.call hh ha c
    refine ⟨m', by rw [hcall]; rfl, s', l', ?_, href', ?_⟩
    · have hop : [c].filterMap Call.op = c.op.toList := by cases c <;> rfl
      rw [List.filterMap_append, hop]
      exact (run_append_ok hs _).trans hrun
    · rw [List.foldl_concat, ← haddrs]
      exact haddrs'

/-- **The operations on pointers refine the operations on lists.** Every run succeeds and leaves a
sound memory; from there every call succeeds, changes the nodes and returns what is prescribed,
and leaves a sound memory again. Clearing the table frees every node exactly once. -/
theorem calls_refine (host : Host) (hh : host.Succeeds) (alloc : Alloc) (ha : Succeeds alloc)
    (calls : List Call) :
    ∃ m l, runCalls host alloc calls = .ok m ∧ Sound m l ∧ l.addrs = calls.foldl addrsAfter []
      ∧ ∀ c, ∃ r m' l', call host alloc c m = .ok (r, m') ∧ Sound m' l' ∧ Prescribed l l' r c
          ∧ (c = .init → m'.heap = ∅ ∧ m'.log = m.log ++ (addresses l).map .free) := by
  obtain ⟨m, hm, s, l, -, href, haddrs⟩ := run_refines hh ha calls
  refine ⟨m, l, hm, href.shape.sound, haddrs, ?_⟩
  intro c
  obtain ⟨r, m', s', l', hcall, href', hpre, -, -, hinit⟩ := href.call hh ha c
  exact ⟨r, m', l', hcall, href'.shape.sound, hpre, hinit⟩

/-- Two addresses are added, one of them twice, and cleared; then one is added again. -/
theorem calls_refine_guests :
    ∃ m l, runCalls freshHost firstFree [.add guestMac, .add "0:16:3e:d:58:0".toList, .add guestMac,
        .init, .add "0:16:3e:d:58:0".toList] = .ok m
      ∧ Sound m l ∧ l.addrs = ["0:16:3e:d:58:0".toList] := by
  obtain ⟨m, l, hm, hsound, haddrs, -⟩ := calls_refine freshHost freshHost_succeeds firstFree
    firstFree_succeeds [.add guestMac, .add "0:16:3e:d:58:0".toList, .add guestMac, .init,
      .add "0:16:3e:d:58:0".toList]
  exact ⟨m, l, hm, hsound, by rw [haddrs]; decide⟩

end TapProject.Pointers
