import TapProject.Basic.System
import TapProject.Lib.Insertion

set_option autoImplicit false

/-! # The MAC table of `write_tap_v5.c`

The operations `mac_list_add`, `mac_list_check`, `mac_list_count`, `mac_list_print`,
`mac_list_init` and `delete_tap` on the table `list_top`, with the loops of the source.
`mac_list_add` looks for a duplicate in two places, in the loop over all nodes but the last and
after it at the last node; `macListAdd_eq` says that both together look at every node.

A node that is added takes the name of the next device, `tap<n>` for a table of `n` nodes, and
the descriptor `tun_alloc` returns (`macListAdd_of_not_mem`). -/

namespace TapProject

/-! ## Texts -/

def tapText : CStr := "tap".toList
def linkSetTapText : CStr := "ip link set tap".toList
def upText : CStr := " up".toList
def downText : CStr := " down".toList

/-- `sprintf(tap_name, "tap%d", n)` -/
def tapName (n : Nat) : CStr := tapText ++ decimal n

/-- `sprintf(cmd_str, "ip link set tap%d up", n)` -/
def linkUp (n : Nat) : CStr := linkSetTapText ++ decimal n ++ upText

/-- `sprintf(cmd_str, "ip link set tap%d down", n)` -/
def linkDown (n : Nat) : CStr := linkSetTapText ++ decimal n ++ downText

def mktun : CStr := "openvpn --mktun --dev tap --user shohei".toList

/-- The line `mac_list_print` prints for a node. -/
def MacList.line (p : MacList) : CStr :=
  "mac add | ".toList ++ p.macAdd ++ " --> ".toList ++ p.tapName ++ " | fd num ".toList
    ++ signed p.tapFdNum

theorem tapName_injective : Function.Injective tapName := fun _ _ h =>
  decimal_injective (List.append_cancel_left h)

/-! ## The operations -/

/-- `mac_list_count`: the loop counts `cnt` up to the end of the list. -/
def macListCountFrom (cnt : Nat) : List MacList → Nat
  | [] => cnt
  | _ :: next => macListCountFrom (cnt + 1) next

def macListCount (listTop : List MacList) : Nat := macListCountFrom 0 listTop

def macListPrint (s : Sys) : Sys :=
  s.emit (s.listTop.map (fun p => .print p.line) ++ [.print "------------------------".toList])

/-- `mac_list_check`: the first node with the address `item`, `none` for `NULL`. -/
def macListCheck (item : CStr) : List MacList → Option MacList
  | [] => none
  | p :: next => if p.macAdd = item then some p else macListCheck item next

/-- The search of `mac_list_add` from the node `p` on: the loop compares every node that has a
successor, the comparison after the loop the last one. -/
def scanNodes (item : CStr) : MacList → List MacList → Bool
  | p, [] => decide (p.macAdd = item)
  | p, q :: next => if p.macAdd = item then true else scanNodes item q next

/-- The commands that create the device of the next node and put it up. -/
def bringUp (s : Sys) : Sys :=
  let s := s.emit [.system mktun]
  let s := { s with cmdStr := linkUp (macListCount s.listTop) }
  s.emit [.system s.cmdStr]

/-- The second half of `mac_list_add`, the same on an empty and a non-empty list but for the
place where the node is linked: `list_top`, or the link of the last node. -/
def addNode (host : Host) (item : CStr) (s : Sys) : Except Halt Sys :=
  let s := bringUp s
  let name := tapName (macListCount s.listTop)
  let (fd, _, s) := tunAlloc host name (flags ||| IFF_NO_PI) s
  -- the node is linked before the result of `tun_alloc` is looked at
  let s := { s with listTop := s.listTop ++ [⟨item, name, fd⟩] }
  if fd < 0 then .error ⟨.exit 1, s.emit [.print "error:tun_alloc".toList]⟩
  else .ok (macListPrint s)

def macListAdd (host : Host) (item : CStr) (s : Sys) : Except Halt Sys :=
  match s.listTop with
  | [] => addNode host item s
  | top :: next => if scanNodes item top next then .ok s else addNode host item s

/-- `delete_tap`: formats the command for each of `tap0` to `tap50`; there is no call of
`system` in the loop. -/
def deleteTap (s : Sys) : Sys :=
  (List.range 51).foldl (fun s tapNum => { s with cmdStr := linkDown tapNum }) s

/-- `mac_list_init`: the loop frees every node and leaves `list_top` at `NULL`. -/
def macListInit (s : Sys) : Sys := deleteTap { s with listTop := [] }

/-! ## What they compute -/

theorem macListCountFrom_eq (cnt : Nat) (l : List MacList) :
    macListCountFrom cnt l = cnt + l.length := by
  induction l generalizing cnt with
  | nil => rfl
  | cons p next ih => rw [macListCountFrom, ih, List.length_cons]; omega

@[simp] theorem macListCount_eq (l : List MacList) : macListCount l = l.length := by
  rw [macListCount, macListCountFrom_eq, Nat.zero_add]

/-- The addresses of a table. -/
def addrs (l : List MacList) : List CStr := l.map (·.macAdd)

@[simp] theorem addrs_nil : addrs [] = [] := rfl
@[simp] theorem addrs_cons (p : MacList) (l : List MacList) :
    addrs (p :: l) = p.macAdd :: addrs l := rfl
@[simp] theorem addrs_append (l l' : List MacList) : addrs (l ++ l') = addrs l ++ addrs l' :=
  List.map_append

theorem scanNodes_iff (item : CStr) (p : MacList) (next : List MacList) :
    scanNodes item p next = true ↔ item ∈ addrs (p :: next) := by
  induction next generalizing p with
  | nil => simp [scanNodes, eq_comm]
  | cons q next ih =>
      by_cases h : p.macAdd = item
      · simp [scanNodes, h]
      · rw [scanNodes, if_neg h, ih q, addrs_cons p, List.mem_cons]
        simp [Ne.symm h]

/-- **`mac_list_add` does nothing when the address is in the table and adds a node
otherwise.** -/
theorem macListAdd_eq (host : Host) (item : CStr) (s : Sys) :
    macListAdd host item s = if item ∈ addrs s.listTop then .ok s else addNode host item s := by
  unfold macListAdd
  cases hl : s.listTop with
  | nil => simp
  | cons top next =>
      by_cases h : item ∈ addrs (top :: next)
      · simp only [if_pos h, if_pos ((scanNodes_iff item top next).mpr h)]
      · have hs : ¬ scanNodes item top next = true := fun hs => h ((scanNodes_iff _ _ _).mp hs)
        simp only [if_neg h, if_neg hs]

theorem macListAdd_of_mem (host : Host) {item : CStr} {s : Sys} (h : item ∈ addrs s.listTop) :
    macListAdd host item s = .ok s := by
  rw [macListAdd_eq, if_pos h]

@[simp] theorem macListPrint_listTop (s : Sys) : (macListPrint s).listTop = s.listTop := rfl

/-- `mac_list_print` only prints. -/
theorem macListPrint_emit (s : Sys) :
    ∃ es, macListPrint s = s.emit es ∧ ∀ e ∈ es, ∃ line, e = .print line := by
  refine ⟨_, rfl, fun e he => ?_⟩
  rcases List.mem_append.mp he with he | he
  · obtain ⟨p, _, rfl⟩ := List.mem_map.mp he
    exact ⟨_, rfl⟩
  · exact ⟨_, List.mem_singleton.mp he⟩

theorem bringUp_eq (s : Sys) :
    bringUp s = { s with
      cmdStr := linkUp s.listTop.length
      trace := s.trace ++ [.system mktun, .system (linkUp s.listTop.length)] } := by
  simp [bringUp, Sys.emit]

/-! ## Adding an address that is new -/

/-- The state after the new node is linked: `fd` is what `tun_alloc` returned, `es` what it did. -/
def linked (item : CStr) (fd : Int) (es : List Event) (s : Sys) : Sys :=
  { (bringUp s).emit es with
    listTop := s.listTop ++ [⟨item, tapName s.listTop.length, fd⟩] }

/-- The descriptor `tun_alloc` takes for the next node, when the system's calls succeed. -/
def newFd (host : Host) (s : Sys) : Int := host.openTun (bringUp s).trace

/-- Adding a node ends in one of two ways, whatever the system answers: an exit after
`tun_alloc` failed, or the printed table. -/
theorem addNode_cases (host : Host) (item : CStr) (s : Sys) :
    ∃ fd es, (∀ e ∈ es, e.isFd = true) ∧
      (addNode host item s
          = .error ⟨.exit 1, (linked item fd es s).emit [.print "error:tun_alloc".toList]⟩
        ∨ addNode host item s = .ok (macListPrint (linked item fd es s))) := by
  have htop : (bringUp s).listTop = s.listTop := by rw [bringUp_eq]
  obtain ⟨es, hes, hfd⟩ := tunAlloc_emit host (tapName s.listTop.length) (flags ||| IFF_NO_PI)
    (bringUp s)
  refine ⟨(tunAlloc host (tapName s.listTop.length) (flags ||| IFF_NO_PI) (bringUp s)).1, es, hfd,
    ?_⟩
  simp only [addNode, htop, macListCount_eq, hes, Sys.emit_listTop]
  split
  · exact Or.inl rfl
  · exact Or.inr rfl

theorem addNode_of_succeeds {host : Host} (h : host.Succeeds) (item : CStr) (s : Sys) :
    addNode host item s
      = .ok (macListPrint (linked item (newFd host s) [.openFd (newFd host s)] s)) := by
  have htop : (bringUp s).listTop = s.listTop := by rw [bringUp_eq]
  obtain ⟨hfd, hs⟩ := tunAlloc_of_succeeds h (tapName s.listTop.length) (flags ||| IFF_NO_PI)
    (bringUp s)
  have hopen : ¬ host.openTun (bringUp s).trace < 0 := by have := h.opens (bringUp s).trace; omega
  simp only [addNode, htop, macListCount_eq, hfd, hs, Sys.emit_listTop]
  rw [if_neg hopen]
  rfl

theorem macListAdd_of_not_mem {host : Host} (h : host.Succeeds) {item : CStr} {s : Sys}
    (hn : item ∉ addrs s.listTop) :
    macListAdd host item s
      = .ok (macListPrint (linked item (newFd host s) [.openFd (newFd host s)] s)) := by
  rw [macListAdd_eq, if_neg hn, addNode_of_succeeds h]

theorem macListAdd_succeeds {host : Host} (h : host.Succeeds) (item : CStr) (s : Sys) :
    ∃ s', macListAdd host item s = .ok s' := by
  by_cases hmem : item ∈ addrs s.listTop
  · exact ⟨s, macListAdd_of_mem host hmem⟩
  · exact ⟨_, macListAdd_of_not_mem h hmem⟩

/-! ## Whatever the system answers -/

/-- Events that neither read the captured frame nor write it. -/
def Event.offFrame : Event → Bool
  | .load _ _ => false
  | .write _ _ => false
  | _ => true

theorem Event.offFrame_of_isFd {e : Event} (h : e.isFd = true) : e.offFrame = true := by
  cases e <;> simp_all [Event.isFd, Event.offFrame]

theorem linked_trace (item : CStr) (fd : Int) (es : List Event) (s : Sys) :
    (linked item fd es s).trace
      = s.trace ++ ([.system mktun, .system (linkUp s.listTop.length)] ++ es) := by
  simp [linked, bringUp_eq, Sys.emit]

/-- `mac_list_add` adds at most one node, at the end of the table and for the address it is
given. -/
theorem macListAdd_listTop (host : Host) {item : CStr} {s : Sys} (h : item ∉ addrs s.listTop) :
    ∃ fd, (lastSys (macListAdd host item s)).listTop
      = s.listTop ++ [⟨item, tapName s.listTop.length, fd⟩] := by
  rw [macListAdd_eq, if_neg h]
  obtain ⟨fd, es, _, herr | hok⟩ := addNode_cases host item s
  · exact ⟨fd, by rw [herr]; rfl⟩
  · exact ⟨fd, by rw [hok]; rfl⟩

/-- `mac_list_add` does not touch the captured frame. -/
theorem macListAdd_offFrame (host : Host) (item : CStr) (s : Sys) :
    ∃ es, (lastSys (macListAdd host item s)).trace = s.trace ++ es
      ∧ ∀ e ∈ es, e.offFrame = true := by
  rw [macListAdd_eq]
  split
  · exact ⟨[], by simp, by simp⟩
  · obtain ⟨fd, es, hfd, herr | hok⟩ := addNode_cases host item s
    · refine ⟨[.system mktun, .system (linkUp s.listTop.length)] ++ es
        ++ [.print "error:tun_alloc".toList], by rw [herr]; simp [linked_trace], ?_⟩
      simp only [List.forall_mem_append]
      exact ⟨⟨by simp [Event.offFrame], fun e he => Event.offFrame_of_isFd (hfd e he)⟩,
        by simp [Event.offFrame]⟩
    · obtain ⟨ps, hps, hprint⟩ := macListPrint_emit (linked item fd es s)
      refine ⟨[.system mktun, .system (linkUp s.listTop.length)] ++ es ++ ps,
        by rw [hok, hps]; simp [linked_trace], ?_⟩
      simp only [List.forall_mem_append]
      refine ⟨⟨by simp [Event.offFrame], fun e he => Event.offFrame_of_isFd (hfd e he)⟩, ?_⟩
      intro e he
      obtain ⟨line, rfl⟩ := hprint e he
      rfl

end TapProject
