import TapProject.MacList.Lifecycle
import TapProject.MacList.Shape

set_option autoImplicit false

/-! # The table in memory refines the table as a list

`Refines m s l` relates a memory `m` to a state `s` of `MacList/Table.lean`: the nodes in memory
are `l` and hold the entries of `s`. Every operation on pointers keeps the relation with the
operation of the same name on lists, when `malloc` and `tun_alloc` succeed. While `mac_list_add`
works the shape is broken: the new node is linked before its fields are written; `Shape.setLink`
says what writing the node then restores. Main result: `calls_refine`. -/

namespace TapProject.Pointers

open Chains Loops Cells Runs

/-! ## The new node -/

section

variable {m : Mem} {c : Addr} {n n' : Node} {place : Place}

@[simp] theorem Mem.put_put : (m.put c n).put c n' = m.put c n' := by
  simp [Mem.put]

@[simp] theorem Mem.lookup_put : (m.put c n).heap.lookup c = some n := Store.lookup_put

/-- A new node, at an address that was free. -/
theorem Mem.malloc_of_succeeds {alloc : Alloc} (ha : Succeeds alloc) (m : Mem) :
    ∃ c, m.malloc alloc = (some c, Mem.put { m with log := m.log ++ [.malloc c] } c .uninit)
      ∧ c ∉ m.heap := by
  obtain ⟨c, hc, hfresh⟩ := Store.malloc_of_succeeds ha m.toStore .uninit
  refine ⟨c, ?_, hfresh⟩
  simp only [Mem.malloc, hc]
  rfl

/-- `place` points to the node at `c`, and is no part of that node. -/
inductive LinksTo (m : Mem) (c : Addr) : Place → Prop
  | listTop : m.listTop = some c → LinksTo m c .listTop
  | nextOf {a : Addr} {p : MacList} : a ≠ c → m.heap.lookup a = some (written p (some c)) →
      LinksTo m c (.nextOf (some a))

theorem LinksTo.link (h : LinksTo m c place) : m.link place = .ok (some c) := by
  cases h with
  | listTop htop => rw [Mem.link, htop]
  | nextOf _ ha => exact Mem.read_of_lookup ha rfl

/-- Writing the node does not move the link to it. -/
theorem LinksTo.put (h : LinksTo m c place) (n : Node) : LinksTo (m.put c n) c place := by
  cases h with
  | listTop htop => exact .listTop htop
  | nextOf hne ha => exact .nextOf hne ((Finmap.lookup_insert_of_ne _ hne).trans ha)

theorem LinksTo.emit (h : LinksTo m c place) (es : List Event) : LinksTo (m.emit es) c place := by
  cases h with
  | listTop htop => exact .listTop htop
  | nextOf hne ha => exact .nextOf hne ha

theorem LinksTo.assign (h : LinksTo (m.put c n) c place) (set : Node → Node) :
    (m.put c n).assign place set = .ok (m.put c (set n)) := by
  simp only [Mem.assign, h.link, ok_bind, Mem.write_of_lookup Mem.lookup_put, Mem.put_put]

/-- The fields of the new node are written one after another; in between `tun_alloc` returns what
goes into the node. -/
theorem fillNode_eq (host : Host) {item name dev : CStr} {fd : Int} {es : List Event}
    (h : LinksTo (m.put c .uninit) c place)
    (hrun : tunAlloc host name (flags ||| IFF_NO_PI) m.sys = (fd, dev, m.sys.emit es)) :
    fillNode host item name place (m.put c .uninit)
      = if fd < 0 then
          .error ⟨.program (.exit 1), ((m.emit es).put c
            ⟨some item, some name, some fd, none⟩).emit [.print "error:tun_alloc".toList]⟩
        else .ok ((m.emit es).put c (written ⟨item, name, fd⟩ none)) := by
  have hlink : ∀ n, LinksTo (m.put c n) c place := fun n => by simpa using h.put n
  have hlink' : ∀ n, LinksTo ((m.emit es).put c n) c place := fun n => (hlink n).emit _
  have hadd : (m.put c .uninit).assign place ({ · with macAdd := some item })
      = .ok (m.put c ⟨some item, none, none, none⟩) := (hlink _).assign _
  have hname : (m.put c ⟨some item, none, none, none⟩).assign place
        ({ · with tapName := some name })
      = .ok (m.put c ⟨some item, some name, none, none⟩) := (hlink _).assign _
  have hsysof : (m.put c ⟨some item, some name, none, none⟩).sys = m.sys := rfl
  have hwith : (m.put c ⟨some item, some name, none, none⟩).withSys (m.sys.emit es)
      = (m.emit es).put c ⟨some item, some name, none, none⟩ := rfl
  simp only [fillNode, hadd, hname, ok_bind, hsysof, hrun, hwith, (hlink' _).assign]
  split
  · rfl
  · rfl

end

/-! ## Linking it -/

/-- `place` is the end of the list: `list_top` of an empty one, or the link of the last node. -/
inductive EndOf : Nodes → Place → Prop
  | listTop : EndOf [] .listTop
  | nextOf (ys : Nodes) (a : Addr) (p : MacList) : EndOf (ys ++ [(a, p)]) (.nextOf (some a))

/-- **What linking an unwritten node leaves open.** Once all its fields are written, the node is
the last one of a table that is otherwise as before. -/
theorem Shape.setLink {m : Mem} {l : Nodes} (h : Shape m l) {place : Place} (hend : EndOf l place)
    {c : Addr} (hc : c ∉ m.heap) :
    ∃ m' : Mem, (m.put c .uninit).setLink (some c) place = .ok (m'.put c .uninit)
      ∧ LinksTo (m'.put c .uninit) c place ∧ m'.sys = m.sys
      ∧ ∀ p, Shape (m'.put c (written p none)) (l ++ [(c, p)]) := by
  cases hend with
  | listTop =>
      exact ⟨{ m with listTop := some c }, rfl, .listTop rfl, rfl, fun p => h.first c p⟩
  | nextOf ys a p =>
      have hlast : m.heap.lookup a = some (written p none) := (seg_concat_iff.mp h.chain).2
      have hne : a ≠ c := by
        rintro rfl
        exact hc (Finmap.mem_of_lookup_eq_some hlast)
      have hlookup : (m.put c .uninit).heap.lookup a = some (written p none) :=
        (Finmap.lookup_insert_of_ne _ hne).trans hlast
      refine ⟨m.put a (written p (some c)), ?_, .nextOf (p := p) hne ?_, rfl,
        fun p' => h.link written_inj hc⟩
      · show (m.put c .uninit).write (some a) ({ · with macListNext := some (some c) }) = _
        rw [Mem.write_of_lookup hlookup]
        simp only [Mem.put, Store.put_comm hne.symm]
        rfl
      · exact (Finmap.lookup_insert_of_ne _ hne).trans (Finmap.lookup_insert _)

/-! ## The relation -/

/-- The memory `m` holds the table of `s` in the nodes `l`. -/
structure Refines (m : Mem) (s : Sys) (l : Nodes) : Prop where
  shape : Shape m l
  table : l.map Prod.snd = s.listTop
  cmdStr : m.cmdStr = s.cmdStr
  trace : m.trace = s.trace

theorem Refines.boot : Refines Mem.boot Sys.boot [] := ⟨Whole.empty, rfl, rfl, rfl⟩

section

variable {m : Mem} {s : Sys} {l : Nodes}

theorem Refines.addrs_eq (h : Refines m s l) : l.addrs = addrs s.listTop := by
  rw [Nodes.addrs, h.table]

theorem Refines.length_eq (h : Refines m s l) : l.length = s.listTop.length := by
  rw [← h.table, List.length_map]

/-- There are as many nodes in memory as on the list. -/
theorem Refines.card_eq (h : Refines m s l) : m.heap.keys.card = s.listTop.length := by
  rw [h.shape.card_eq written_inj, h.length_eq]

theorem Refines.macListCount (h : Refines m s l) :
    macListCount m = .ok (TapProject.macListCount s.listTop) := by
  rw [h.shape.macListCount, macListCount_eq, h.length_eq]

theorem Refines.macListPrint (h : Refines m s l) :
    ∃ m', macListPrint m = .ok m' ∧ Refines m' (TapProject.macListPrint s) l := by
  refine ⟨_, h.shape.macListPrint, h.shape, h.table, h.cmdStr, ?_⟩
  show m.trace ++ _ = s.trace ++ _
  rw [h.trace, ← h.table, List.map_map]
  rfl

/-- The node that is found holds the entry that is found on the list. -/
theorem Refines.macListCheck (h : Refines m s l) (item : CStr) :
    ∃ e, macListCheck item m = .ok (e.map Prod.fst)
      ∧ e.map Prod.snd = TapProject.macListCheck item s.listTop
      ∧ e = l.find? fun e => e.2.macAdd = item := by
  refine ⟨_, h.shape.macListCheck item, ?_, rfl⟩
  rw [← h.table]
  clear h
  induction l with
  | nil => rfl
  | cons e l ih =>
      by_cases he : e.2.macAdd = item
      · simp [TapProject.macListCheck, he]
      · rw [List.find?_cons_of_neg (by simpa using he), ih, List.map_cons,
          TapProject.macListCheck, if_neg he]

theorem Refines.bringUp (h : Refines m s l) :
    bringUp m = .ok (tapName l.length, m.withSys (TapProject.bringUp s)) := by
  have hcount : ∀ cmd es, Pointers.macListCount { m with cmdStr := cmd, trace := es }
      = .ok l.length := fun cmd es =>
    Shape.macListCount (m := { m with cmdStr := cmd, trace := es }) h.shape
  simp only [Pointers.bringUp, Mem.emit, hcount, ok_bind, Mem.withSys, bringUp_eq, h.trace,
    h.length_eq, List.append_assoc]
  rfl

/-- What `mac_list_add` does to the nodes: nothing when the address is there, else one node more
at the end. -/
def Added (item : CStr) (l l' : Nodes) : Prop :=
  (item ∈ l.addrs → l' = l)
    ∧ (item ∉ l.addrs → ∃ c fd, l' = l ++ [(c, ⟨item, tapName l.length, fd⟩)])

/-- An address that is there: the loop of `mac_list_add` returns, or the comparison behind it. -/
theorem Shape.macListAdd_of_mem (h : Shape m l) (host : Host) (alloc : Alloc) {item : CStr}
    (hmem : item ∈ l.addrs) : macListAdd host alloc item m = .ok m := by
  have hne : l ≠ [] := by
    rintro rfl
    exact absurd hmem List.not_mem_nil
  obtain ⟨top, htop⟩ := Option.ne_none_iff_exists'.mp (mt h.eq_none_iff.mp hne)
  obtain ⟨r, hr, hcase⟩ := h.scan item hne
  rw [htop] at hr
  rcases hcase with ⟨rfl, -⟩ | ⟨ys, a, p, rfl, rfl, hnot⟩
  · simp only [Pointers.macListAdd, htop, hr, ok_bind]
  · -- none of the nodes before the last one has the address
    have hp : p.macAdd = item := by
      rw [Nodes.addrs, List.map_append, addrs_append] at hmem
      rcases List.mem_append.mp hmem with hold | hlast
      · exact absurd hold hnot
      · exact (List.mem_singleton.mp hlast).symm
    have hlast : m.heap.lookup a = some (written p none) := (seg_concat_iff.mp h.chain).2
    have hread : m.read (some a) (·.macAdd) = .ok p.macAdd := Mem.read_of_lookup hlast rfl
    simp only [Pointers.macListAdd, htop, hr, ok_bind, hread, if_pos hp]

/-- An address that is new: `mac_list_add` goes to the end of the list and adds a node there. -/
theorem Shape.macListAdd_of_not_mem (h : Shape m l) (host : Host) (alloc : Alloc) {item : CStr}
    (hnot : item ∉ l.addrs) :
    ∃ place, EndOf l place ∧ macListAdd host alloc item m
      = (Pointers.addNode host alloc item place m >>= fun m => Pointers.macListPrint m) := by
  by_cases hnil : l = []
  · have htop := h.eq_none_iff.mpr hnil
    rw [hnil]
    exact ⟨.listTop, .listTop, by simp only [Pointers.macListAdd, htop]⟩
  · obtain ⟨top, htop⟩ := Option.ne_none_iff_exists'.mp (mt h.eq_none_iff.mp hnil)
    obtain ⟨r, hr, hcase⟩ := h.scan item hnil
    rw [htop] at hr
    rcases hcase with ⟨-, hin⟩ | ⟨ys, a, p, rfl, rfl, -⟩
    · exact absurd hin hnot
    · have hp : p.macAdd ≠ item := by
        rintro rfl
        exact hnot (by simp [Nodes.addrs, addrs])
      have hlast : m.heap.lookup a = some (written p none) := (seg_concat_iff.mp h.chain).2
      have hread : m.read (some a) (·.macAdd) = .ok p.macAdd := Mem.read_of_lookup hlast rfl
      refine ⟨.nextOf (some a), .nextOf ys a p, ?_⟩
      simp only [Pointers.macListAdd, htop, hr, ok_bind, hread, if_neg hp]

/-- Both runs ended alike, after the same events and with as many nodes made. -/
structure SameExit (h : Halt) (h' : TapProject.Halt) : Prop where
  why : h.why = .program h'.why
  trace : h.mem.trace = h'.sys.trace
  card : h.mem.heap.keys.card = h'.sys.listTop.length

/-- What `tun_alloc` does depends on nothing but the events so far. -/
theorem tunAlloc_after (host : Host) (dev : CStr) (flags : Nat) (past : List Event) :
    ∃ fd name es, ∀ s : Sys, s.trace = past →
      tunAlloc host dev flags s = (fd, name, s.emit es) := by
  by_cases hopen : host.openTun past < 0
  · refine ⟨host.openTun past, dev, [], ?_⟩
    rintro s rfl
    simp [tunAlloc, hopen, Sys.emit]
  · obtain ⟨⟨err, name⟩, hres⟩ : ∃ r, host.tunsetiff (past ++ [.openFd (host.openTun past)])
        (host.openTun past) flags (if dev = [] then [] else dev.take IFNAMSIZ) = r := ⟨_, rfl⟩
    by_cases hioctl : err < 0
    · refine ⟨err, dev, [.openFd (host.openTun past), .closeFd (host.openTun past)], ?_⟩
      rintro s rfl
      simp [tunAlloc, hopen, hres, hioctl]
    · refine ⟨host.openTun past, name, [.openFd (host.openTun past)], ?_⟩
      rintro s rfl
      simp [tunAlloc, hopen, hres, hioctl]

/-- The fields of a node do not matter to how many there are. -/
theorem Mem.card_put (m : Mem) (c : Addr) (n n' : Node) :
    (m.put c n).heap.keys.card = (m.put c n').heap.keys.card := by
  congr 1
  ext a
  simp only [Finmap.mem_keys]
  show a ∈ m.heap.insert c n ↔ a ∈ m.heap.insert c n'
  rw [Finmap.mem_insert, Finmap.mem_insert]

section

variable (host : Host) {alloc : Alloc} (ha : Succeeds alloc)

include ha

/-- **A new node** is linked in memory and appended to the list, or both runs exit. -/
theorem Refines.addNode (h : Refines m s l) (item : CStr) {place : Place}
    (hend : EndOf l place) :
    Agree (fun m' s' => ∃ c fd, Refines m' s' (l ++ [(c, ⟨item, tapName l.length, fd⟩)])) SameExit
      (Pointers.addNode host alloc item place m >>= fun m => Pointers.macListPrint m)
      (TapProject.addNode host item s) := by
  -- the memory in which the node is allocated, and the one in which it is linked
  obtain ⟨c, hmalloc, hfresh⟩ := Mem.malloc_of_succeeds ha (m.withSys (TapProject.bringUp s))
  obtain ⟨m₁, hm₁⟩ : ∃ m₁ : Mem, m₁ = { m.withSys (TapProject.bringUp s) with
    log := m.log ++ [.malloc c] } := ⟨_, rfl⟩
  have hshape : Shape m₁ l := by
    rw [hm₁]
    exact h.shape
  have hfresh₁ : c ∉ m₁.heap := by
    rw [hm₁]
    exact hfresh
  obtain ⟨m₂, hset, hlinks, hsys, hnode⟩ := hshape.setLink hend hfresh₁
  have hcmd : m₂.cmdStr = (TapProject.bringUp s).cmdStr := by
    rw [show m₂.cmdStr = m₁.cmdStr from congrArg Sys.cmdStr hsys, hm₁]
    rfl
  have htrace : m₂.trace = (TapProject.bringUp s).trace := by
    rw [show m₂.trace = m₁.trace from congrArg Sys.trace hsys, hm₁]
    rfl
  -- `tun_alloc` answers the same to both
  obtain ⟨fd, name, es, hrun⟩ := tunAlloc_after host (tapName l.length) (flags ||| IFF_NO_PI)
    (TapProject.bringUp s).trace
  have hmem : Pointers.addNode host alloc item place m
      = if fd < 0 then
          .error ⟨.program (.exit 1), ((m₂.emit es).put c
            ⟨some item, some (tapName l.length), some fd, none⟩).emit
              [.print "error:tun_alloc".toList]⟩
        else .ok ((m₂.emit es).put c (written ⟨item, tapName l.length, fd⟩ none)) := by
    have hmalloc₁ : (m.withSys (TapProject.bringUp s)).malloc alloc
        = (some c, m₁.put c .uninit) := by
      rw [hmalloc, hm₁]
      rfl
    simp only [Pointers.addNode, h.bringUp, ok_bind, hmalloc₁, hset]
    exact fillNode_eq host hlinks (hrun m₂.sys htrace)
  have hlist : TapProject.addNode host item s
      = if fd < 0 then
          .error ⟨.exit 1, (linked item fd es s).emit [.print "error:tun_alloc".toList]⟩
        else .ok (TapProject.macListPrint (linked item fd es s)) := by
    have htop : (TapProject.bringUp s).listTop = s.listTop := by rw [bringUp_eq]
    simp only [TapProject.addNode, htop, macListCount_eq, ← h.length_eq, hrun _ rfl,
      Sys.emit_listTop]
    split
    · rw [linked, ← h.length_eq]
    · rw [linked, ← h.length_eq]
  have href : Refines ((m₂.emit es).put c (written ⟨item, tapName l.length, fd⟩ none))
      (linked item fd es s) (l ++ [(c, ⟨item, tapName l.length, fd⟩)]) := by
    refine ⟨hnode _, ?_, hcmd, congrArg (· ++ es) htrace⟩
    rw [List.map_append, h.table, h.length_eq]
    rfl
  rw [hmem, hlist]
  split
  · refine ⟨rfl, congrArg (· ++ _) href.trace, ?_⟩
    calc ((m₂.emit es).put c ⟨some item, some (tapName l.length), some fd, none⟩).heap.keys.card
        = ((m₂.emit es).put c
            (written ⟨item, tapName l.length, fd⟩ none)).heap.keys.card := Mem.card_put _ _ _ _
      _ = (linked item fd es s).listTop.length := href.card_eq
  · obtain ⟨m₃, hprint, href'⟩ := href.macListPrint
    rw [ok_bind, hprint]
    exact ⟨c, fd, href'⟩

/-- **`mac_list_add` in memory is `mac_list_add` on the list**, whatever the system answers. -/
theorem Refines.macListAdd (h : Refines m s l) (item : CStr) :
    Agree (fun m' s' => ∃ l', Refines m' s' l' ∧ Added item l l') SameExit
      (Pointers.macListAdd host alloc item m) (TapProject.macListAdd host item s) := by
  by_cases hmem : item ∈ l.addrs
  · rw [h.shape.macListAdd_of_mem host alloc hmem,
      TapProject.macListAdd_of_mem host (h.addrs_eq ▸ hmem)]
    exact ⟨l, h, fun _ => rfl, fun hn => absurd hmem hn⟩
  · obtain ⟨place, hend, hplace⟩ := h.shape.macListAdd_of_not_mem host alloc hmem
    rw [hplace, macListAdd_eq, if_neg (fun hin => hmem (h.addrs_eq ▸ hin))]
    refine (h.addNode host ha item hend).mono ?_ fun _ _ hexit => hexit
    rintro m' s' ⟨c, fd, h'⟩
    exact ⟨_, h', fun hin => absurd hin hmem, fun _ => ⟨c, fd, rfl⟩⟩

end

/-- A turn of the loop of `mac_list_init` frees the first node. -/
theorem Shape.initTurn {a : Addr} {p : MacList} (h : Shape m ((a, p) :: l)) :
    ∃ m', Pointers.initTurn m = .ok (.again m') ∧ Shape m' l ∧ m'.sys = m.sys
      ∧ m'.log = m.log ++ [.free a] := by
  obtain ⟨q, htop, ha, hrest⟩ := h.erase written_inj
  have hnext : m.read (some a) (·.macListNext) = .ok q := Mem.read_of_lookup ha rfl
  have hfree : ({ m with listTop := q } : Mem).free (some a)
      = .ok { m with listTop := q, heap := m.heap.erase a, log := m.log ++ [.free a] } := by
    simp only [Mem.free, Store.free_of_lookup ha, ok_bind]
  refine ⟨{ m with listTop := q, heap := m.heap.erase a, log := m.log ++ [.free a] }, ?_, hrest,
    rfl, rfl⟩
  simp only [Pointers.initTurn, htop, hnext, ok_bind, hfree]

/-- The loop of `mac_list_init` frees every node, in order. -/
theorem Shape.freeAll (h : Shape m l) :
    ∃ m', m.while Pointers.initTurn m = .ok m' ∧ Shape m' [] ∧ m'.sys = m.sys
      ∧ m'.log = m.log ++ (addresses l).map .free := by
  apply h.while_along (I := fun xs m' => Shape m' xs ∧ m'.sys = m.sys
    ∧ ∃ ys, l = ys ++ xs ∧ m'.log = m.log ++ (addresses ys).map .free)
  case hnil =>
    rintro m' ⟨hshape, hsys, ys, hys, hlog⟩
    have htop : m'.listTop = none := hshape.eq_none_iff.mpr rfl
    rw [List.append_nil] at hys
    exact ⟨m', by simp only [Pointers.initTurn, htop], hshape, hsys, hys ▸ hlog⟩
  case hcons =>
    rintro ⟨a, p⟩ xs m' ⟨hshape, hsys, ys, hys, hlog⟩
    obtain ⟨m₁, hturn, hshape₁, hsys₁, hlog₁⟩ := hshape.initTurn
    refine Or.inl ⟨m₁, hturn, hshape₁, hsys₁.trans hsys, ys ++ [(a, p)], ?_, ?_⟩
    · rw [hys, List.append_assoc]
      rfl
    · calc m₁.log
          = m.log ++ (addresses ys).map .free ++ [.free a] := by rw [hlog₁, hlog]
        _ = m.log ++ (addresses (ys ++ [(a, p)])).map .free := by simp
  case hs => exact ⟨h, rfl, [], rfl, (List.append_nil _).symm⟩

/-- **`mac_list_init` frees every node, each once, and leaves an empty heap.** -/
theorem Refines.macListInit (h : Refines m s l) :
    ∃ m', macListInit m = .ok m' ∧ Refines m' (TapProject.macListInit s) []
      ∧ m'.heap = ∅ ∧ m'.log = m.log ++ (addresses l).map .free := by
  obtain ⟨m', hm', hshape, hsys, hlog⟩ := h.shape.freeAll
  have hsame : m'.sys = { s with listTop := [] } := by
    rw [hsys, Mem.sys, h.cmdStr, h.trace]
  have hdelete : m'.withSys (deleteTap m'.sys) = m'.withSys (TapProject.macListInit s) := by
    rw [hsame, TapProject.macListInit]
  refine ⟨m'.withSys (deleteTap m'.sys), by simp only [Pointers.macListInit, hm', ok_bind], ?_,
    hshape.heap_eq_empty, hlog⟩
  rw [hdelete]
  exact ⟨hshape, (macListInit_listTop s).symm, rfl, rfl⟩

end

end TapProject.Pointers
