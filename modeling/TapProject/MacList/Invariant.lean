import TapProject.MacList.Table

set_option autoImplicit false

/-! # The invariant of the MAC table

`TableInv s` says of the table of `s` that the `k`-th node is named `tap<k>`, that no address
and no descriptor occurs twice, and that every descriptor in it is open. `mac_list_add` keeps
it when the system's calls succeed (`TableInv.macListAdd`), and on the addresses of the table
it is `Insertion.insertNew`. -/

namespace TapProject

open Insertion

/-- The descriptors of a table. -/
def fds (l : List MacList) : List Int := l.map (·.tapFdNum)

@[simp] theorem fds_append (l l' : List MacList) : fds (l ++ l') = fds l ++ fds l' :=
  List.map_append

/-- The device names of a table. -/
def names (l : List MacList) : List CStr := l.map (·.tapName)

@[simp] theorem names_append (l l' : List MacList) : names (l ++ l') = names l ++ names l' :=
  List.map_append

structure TableInv (s : Sys) : Prop where
  names_eq : names s.listTop = (List.range s.listTop.length).map tapName
  addrs_nodup : (addrs s.listTop).Nodup
  fds_nodup : (fds s.listTop).Nodup
  fds_open : ∀ fd ∈ fds s.listTop, fd ∈ openFds s.trace

theorem TableInv.boot : TableInv Sys.boot :=
  ⟨rfl, List.nodup_nil, List.nodup_nil, by simp [Sys.boot, fds]⟩

/-- Events that open or close no descriptor do not matter to the table. -/
theorem TableInv.emit {s : Sys} (h : TableInv s) {es : List Event}
    (hes : ∀ e ∈ es, e.isFd = false) : TableInv (s.emit es) := by
  refine ⟨h.names_eq, h.addrs_nodup, h.fds_nodup, ?_⟩
  intro fd hfd
  rw [Sys.emit_trace, openFds_append_of_not_fd hes]
  exact h.fds_open fd hfd

theorem TableInv.macListPrint {s : Sys} (h : TableInv s) : TableInv (macListPrint s) := by
  obtain ⟨es, hes, hprint⟩ := macListPrint_emit s
  rw [hes]
  apply h.emit
  intro e he
  obtain ⟨line, rfl⟩ := hprint e he
  rfl

/-- No device name occurs twice. -/
theorem TableInv.names_nodup {s : Sys} (h : TableInv s) : (names s.listTop).Nodup := by
  rw [h.names_eq]
  exact List.nodup_range.map tapName_injective

theorem TableInv.getElem_tapName {s : Sys} (h : TableInv s) {k : Nat} {p : MacList}
    (hk : s.listTop[k]? = some p) : p.tapName = tapName k := by
  have hlt : k < s.listTop.length := (List.getElem?_eq_some_iff.mp hk).1
  have hname : (names s.listTop)[k]? = some p.tapName := by
    rw [names, List.getElem?_map, hk]; rfl
  rw [h.names_eq, List.getElem?_map, List.getElem?_range hlt] at hname
  simpa using hname.symm

/-- What is open after the device of a new node was brought up is what was open before. -/
theorem openFds_bringUp (s : Sys) : openFds (bringUp s).trace = openFds s.trace := by
  rw [bringUp_eq]
  exact openFds_append_of_not_fd (by simp [Event.isFd])

theorem openFds_linked (item : CStr) (fd fd' : Int) (s : Sys) :
    openFds (linked item fd [.openFd fd'] s).trace = openFds s.trace ++ [fd'] := by
  show openFds ((bringUp s).trace ++ [.openFd fd']) = _
  rw [openFds_concat_open, openFds_bringUp]

/-- The new node keeps the invariant. -/
theorem TableInv.linked {host : Host} (hh : host.Succeeds) {s : Sys} (h : TableInv s)
    {item : CStr} (hn : item ∉ addrs s.listTop) :
    TableInv (linked item (newFd host s) [.openFd (newFd host s)] s) := by
  -- the descriptors of the table are open, so a new one is not among them
  have hfresh : newFd host s ∉ openFds s.trace := by
    rw [← openFds_bringUp]
    exact hh.fresh (bringUp s).trace
  have hfd : newFd host s ∉ fds s.listTop := fun hmem => hfresh (h.fds_open _ hmem)
  constructor
  case names_eq =>
    show names (s.listTop ++ [_]) = (List.range (s.listTop ++ [_]).length).map tapName
    rw [names_append, h.names_eq, List.length_append, List.length_singleton, List.range_succ,
      List.map_append]
    rfl
  case addrs_nodup =>
    show (addrs (s.listTop ++ [_])).Nodup
    have hnd := nodup_insertNew h.addrs_nodup item
    rw [insertNew_of_not_mem hn] at hnd
    rw [addrs_append]
    exact hnd
  case fds_nodup =>
    show (fds (s.listTop ++ [_])).Nodup
    have hnd := nodup_insertNew h.fds_nodup (newFd host s)
    rw [insertNew_of_not_mem hfd] at hnd
    rw [fds_append]
    exact hnd
  case fds_open =>
    intro fd hmem
    rw [openFds_linked]
    rcases List.mem_append.mp (fds_append _ _ ▸ hmem) with hold | hnew
    · exact List.mem_append_left _ (h.fds_open fd hold)
    · exact List.mem_append_right _ hnew

/-- **`mac_list_add` succeeds, keeps the invariant and is an append-if-absent.** The frame is
not touched. -/
theorem TableInv.macListAdd {host : Host} (hh : host.Succeeds) {s : Sys} (h : TableInv s)
    (item : CStr) :
    ∃ s', TapProject.macListAdd host item s = .ok s' ∧ TableInv s'
      ∧ addrs s'.listTop = insertNew (addrs s.listTop) item
      ∧ s.listTop <+: s'.listTop
      ∧ ∃ es, s'.trace = s.trace ++ es ∧ ∀ e ∈ es, e.offFrame = true := by
  have htrace := macListAdd_offFrame host item s
  by_cases hmem : item ∈ addrs s.listTop
  · have hadd := macListAdd_of_mem host hmem
    rw [hadd] at htrace
    exact ⟨s, hadd, h, (insertNew_of_mem hmem).symm, List.prefix_refl _, htrace⟩
  · have hadd := macListAdd_of_not_mem hh hmem
    rw [hadd] at htrace
    refine ⟨_, hadd, (h.linked hh hmem).macListPrint, ?_, List.prefix_append _ _, htrace⟩
    rw [insertNew_of_not_mem hmem]
    show addrs (s.listTop ++ [_]) = _
    rw [addrs_append]
    rfl

/-! ## The lookup -/

theorem macListCheck_eq_none {item : CStr} {l : List MacList} :
    macListCheck item l = none ↔ item ∉ addrs l := by
  induction l with
  | nil => simp [macListCheck]
  | cons p next ih =>
      by_cases h : p.macAdd = item
      · simp [macListCheck, h]
      · simp [macListCheck, h, ih, Ne.symm h]

/-- An address in the table is found. -/
theorem macListCheck_of_mem {item : CStr} {l : List MacList} (h : item ∈ addrs l) :
    ∃ p, macListCheck item l = some p := by
  cases hc : macListCheck item l with
  | some p => exact ⟨p, rfl⟩
  | none => exact absurd h (macListCheck_eq_none.mp hc)

/-- In a table without repeated addresses the node found is the only one with its address. -/
theorem filter_macAdd_of_check {item : CStr} {l : List MacList} {p : MacList}
    (hnd : (addrs l).Nodup) (h : macListCheck item l = some p) :
    l.filter (fun q => q.macAdd = item) = [p] := by
  induction l with
  | nil => simp [macListCheck] at h
  | cons q next ih =>
      rw [addrs_cons, List.nodup_cons] at hnd
      by_cases hq : q.macAdd = item
      · rw [macListCheck, if_pos hq, Option.some.injEq] at h
        have hrest : next.filter (fun q => q.macAdd = item) = [] := by
          rw [List.filter_eq_nil_iff]
          intro r hr hri
          have hri' : r.macAdd = item := by simpa using hri
          exact hnd.1 (hq ▸ hri' ▸ List.mem_map_of_mem hr)
        rw [List.filter_cons_of_pos (by simpa using hq), hrest, h]
      · rw [macListCheck, if_neg hq] at h
        rw [List.filter_cons_of_neg (by simpa using hq), ih hnd.2 h]

end TapProject
