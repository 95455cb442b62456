import TapProject.Dispatch.HubLaws
import TapProject.Lib.Traces

set_option autoImplicit false

/-! # Order of events, whatever the system answers

The calls of the system may fail. The only thing assumed of it here is that `open` never returns a
descriptor that is open already (`Host.Fresh`). A run of the dispatcher then keeps an order on what
it does, `Allowed`: a device is created and put up before its descriptor is opened, only the
descriptor opened last is ever closed, and a frame is only written to a descriptor that is open at
that moment.

As long as the run goes on, the descriptors that are open are those of the table, in its order
(`Orderly`). The dispatcher ends early in one way only, by the exit after a failed `tun_alloc`, and
then no descriptor has been lost (`Failed`). The body of the loop around it has two more ways to end
the program (`BodyFailed`). -/

namespace TapProject

open EbtUlogPacketMsg Runs Traces

/-- `open` does not return a descriptor that is open. -/
def Host.Fresh (host : Host) : Prop :=
  ∀ es, 0 ≤ host.openTun es → host.openTun es ∉ openFds es

/-! ## The order -/

/-- The number of times a descriptor was opened. -/
def openCount (es : List Event) : Nat := es.countP fun
  | .openFd _ => true
  | _ => false

/-- What may happen after the events `past`. -/
def Allowed (past : List Event) : Event → Prop
  | .system cmd => cmd = mktun ∨ ∃ p, past = p ++ [.system mktun] ∧ cmd = linkUp (openCount p)
  | .openFd fd => fd ∉ openFds past
      ∧ ∃ p, past = p ++ [.system mktun, .system (linkUp (openCount p))]
  | .closeFd fd => ∃ p, past = p ++ [.openFd fd]
  | .write fd _ => fd ∈ openFds past
  | .load _ _ => True
  | .print _ => True

/-- A running dispatcher. -/
structure Orderly (s : Sys) : Prop where
  names_eq : names s.listTop = (List.range s.listTop.length).map tapName
  addrs_nodup : (addrs s.listTop).Nodup
  fds_nodup : (fds s.listTop).Nodup
  open_eq : openFds s.trace = fds s.listTop
  count_eq : openCount s.trace = s.listTop.length
  lawful : Lawful Allowed [] s.trace

/-- The dispatcher after a device could not be opened: the last node has no descriptor, and those
that are open are the ones of the nodes before it. -/
structure Failed (h : Halt) : Prop where
  why : h.why = .exit 1
  table : ∃ l p, h.sys.listTop = l ++ [p] ∧ p.tapFdNum < 0 ∧ openFds h.sys.trace = fds l
  said : ∃ es, h.sys.trace = es ++ [.print "error:tun_alloc".toList]
  lawful : Lawful Allowed [] h.sys.trace

/-- How a run of the dispatcher is at any time. -/
def Outcome : Except Halt Sys → Prop
  | .ok s => Orderly s
  | .error h => Failed h

theorem Orderly.boot : Orderly Sys.boot :=
  ⟨rfl, List.nodup_nil, List.nodup_nil, rfl, rfl, trivial⟩

/-- Events that do not matter to the order. -/
def Event.passive : Event → Bool
  | .load _ _ => true
  | .print _ => true
  | _ => false

theorem allowed_of_passive {e : Event} (h : e.passive = true) (past : List Event) :
    Allowed past e := by
  cases e <;> simp_all [Event.passive, Allowed]

theorem openFds_append_quiet {es fs : List Event} (h : Quiet fs) :
    openFds (es ++ fs) = openFds es :=
  openFds_append_of_not_fd fun e he => by
    have := h e he
    cases e <;> simp_all [Event.setsUp, Event.isFd]

theorem openCount_append (es fs : List Event) :
    openCount (es ++ fs) = openCount es + openCount fs := List.countP_append

theorem openCount_quiet {es : List Event} (h : Quiet es) : openCount es = 0 := by
  rw [openCount, List.countP_eq_zero]
  intro e he
  have := h e he
  cases e <;> simp_all [Event.setsUp]

/-- A dispatcher that neither executes a command nor opens or closes anything goes on. -/
theorem Orderly.emit {s : Sys} (h : Orderly s) {es : List Event} (hes : Quiet es)
    (hlaw : Lawful Allowed s.trace es) : Orderly (s.emit es) where
  names_eq := h.names_eq
  addrs_nodup := h.addrs_nodup
  fds_nodup := h.fds_nodup
  open_eq := (openFds_append_quiet hes).trans h.open_eq
  count_eq := by
    rw [Sys.emit_trace, openCount_append, openCount_quiet hes]
    exact h.count_eq
  lawful := lawful_append.mpr ⟨h.lawful, hlaw⟩

theorem Orderly.passive {s : Sys} (h : Orderly s) {es : List Event}
    (hes : ∀ e ∈ es, e.passive = true) : Orderly (s.emit es) := by
  apply h.emit
  · intro e he
    have := hes e he
    cases e <;> simp_all [Event.passive, Event.setsUp]
  · exact lawful_of_forall fun e he past => allowed_of_passive (hes e he) past

theorem Orderly.macListPrint {s : Sys} (h : Orderly s) : Orderly (macListPrint s) := by
  obtain ⟨es, hes, hprint⟩ := macListPrint_emit s
  rw [hes]
  apply h.passive
  intro e he
  obtain ⟨line, rfl⟩ := hprint e he
  rfl

/-! ## A new device -/

/-- The ways `tun_alloc` ends: nothing could be opened, or what was opened could not be attached and
is closed again, or it is returned. -/
theorem tunAlloc_cases (host : Host) (dev : CStr) (flags : Nat) (s : Sys) :
    (host.openTun s.trace < 0 ∧ tunAlloc host dev flags s = (host.openTun s.trace, dev, s))
    ∨ (0 ≤ host.openTun s.trace ∧ ∃ err < 0, tunAlloc host dev flags s
        = (err, dev, s.emit [.openFd (host.openTun s.trace), .closeFd (host.openTun s.trace)]))
    ∨ (0 ≤ host.openTun s.trace ∧ ∃ name, tunAlloc host dev flags s
        = (host.openTun s.trace, name, s.emit [.openFd (host.openTun s.trace)])) := by
  by_cases hopen : host.openTun s.trace < 0
  · exact Or.inl ⟨hopen, by simp [tunAlloc, hopen]⟩
  · have hpos : 0 ≤ host.openTun s.trace := by omega
    by_cases hioctl : (host.tunsetiff (s.trace ++ [.openFd (host.openTun s.trace)])
        (host.openTun s.trace) flags (if dev = [] then [] else dev.take IFNAMSIZ)).1 < 0
    · exact Or.inr (Or.inl ⟨hpos, _, hioctl, by simp [tunAlloc, hopen, hioctl]⟩)
    · exact Or.inr (Or.inr ⟨hpos, _, by simp [tunAlloc, hopen, hioctl]; rfl⟩)

/-- The ways adding a node ends. -/
theorem addNode_ends (host : Host) (item : CStr) (s : Sys) :
    (∃ fd < 0, ∃ es,
      (es = [] ∨ 0 ≤ newFd host s ∧ es = [.openFd (newFd host s), .closeFd (newFd host s)])
        ∧ addNode host item s
          = .error ⟨.exit 1, (linked item fd es s).emit [.print "error:tun_alloc".toList]⟩)
    ∨ (0 ≤ newFd host s ∧ addNode host item s
        = .ok (macListPrint (linked item (newFd host s) [.openFd (newFd host s)] s))) := by
  have htop : (bringUp s).listTop = s.listTop := by rw [bringUp_eq]
  rcases tunAlloc_cases host (tapName s.listTop.length) (flags ||| IFF_NO_PI) (bringUp s) with
    ⟨hneg, h⟩ | ⟨hpos, err, hneg, h⟩ | ⟨hpos, name, h⟩
  · refine Or.inl ⟨_, hneg, [], Or.inl rfl, ?_⟩
    simp only [addNode, htop, macListCount_eq, h, if_pos hneg]
    simp [linked, Sys.emit]
  · refine Or.inl ⟨err, hneg, _, Or.inr ⟨hpos, rfl⟩, ?_⟩
    simp only [addNode, htop, macListCount_eq, h, if_pos hneg]
    rfl
  · refine Or.inr ⟨hpos, ?_⟩
    simp only [addNode, htop, macListCount_eq, h, if_neg (Int.not_lt.mpr hpos)]
    rfl

section

variable {host : Host} {s : Sys}

/-- The commands for the next device. -/
theorem Orderly.lawful_bringUp (h : Orderly s) :
    Lawful Allowed s.trace [.system mktun, .system (linkUp s.listTop.length)] :=
  ⟨Or.inl rfl, Or.inr ⟨s.trace, rfl, by rw [h.count_eq]⟩, trivial⟩

/-- A descriptor opened behind them. -/
theorem Orderly.allowed_open (hf : host.Fresh) (h : Orderly s) (hpos : 0 ≤ newFd host s) :
    Allowed (s.trace ++ [.system mktun, .system (linkUp s.listTop.length)])
      (.openFd (newFd host s)) := by
  have htrace : (bringUp s).trace
      = s.trace ++ [.system mktun, .system (linkUp s.listTop.length)] := by rw [bringUp_eq]
  exact ⟨htrace ▸ hf (bringUp s).trace hpos, s.trace, by rw [h.count_eq]⟩

/-- The new node is there. -/
theorem Orderly.linked (hf : host.Fresh) (h : Orderly s) (hpos : 0 ≤ newFd host s) {item : CStr}
    (hn : item ∉ addrs s.listTop) :
    Orderly (linked item (newFd host s) [.openFd (newFd host s)] s) := by
  have hfresh : newFd host s ∉ fds s.listTop := by
    rw [← h.open_eq, ← openFds_bringUp]
    exact hf (bringUp s).trace hpos
  constructor
  case names_eq =>
    show names (s.listTop ++ [_]) = (List.range (s.listTop ++ [_]).length).map tapName
    rw [names_append, h.names_eq, List.length_append, List.length_singleton, List.range_succ,
      List.map_append]
    rfl
  case addrs_nodup =>
    show (addrs (s.listTop ++ [_])).Nodup
    rw [addrs_append, addrs_cons, addrs_nil, ← List.concat_eq_append]
    exact h.addrs_nodup.concat hn
  case fds_nodup =>
    show (fds (s.listTop ++ [_])).Nodup
    rw [fds_append]
    show (fds s.listTop ++ [newFd host s]).Nodup
    rw [← List.concat_eq_append]
    exact h.fds_nodup.concat hfresh
  case open_eq =>
    rw [openFds_linked, h.open_eq]
    show _ = fds (s.listTop ++ [⟨item, _, newFd host s⟩])
    rw [fds_append]
    rfl
  case count_eq =>
    rw [linked_trace, openCount_append, h.count_eq]
    show _ = (s.listTop ++ [_]).length
    rw [List.length_append]
    rfl
  case lawful =>
    rw [linked_trace]
    exact lawful_append.mpr ⟨h.lawful, lawful_append.mpr
      ⟨h.lawful_bringUp, h.allowed_open hf hpos, trivial⟩⟩

/-- What was opened in vain was closed again. -/
theorem Orderly.failed (hf : host.Fresh) (h : Orderly s) {item : CStr} {fd : Int} (hneg : fd < 0)
    {es : List Event} (hes : es = [] ∨ 0 ≤ newFd host s
      ∧ es = [.openFd (newFd host s), .closeFd (newFd host s)]) :
    Failed ⟨.exit 1,
      (TapProject.linked item fd es s).emit [.print "error:tun_alloc".toList]⟩ := by
  have hlaw : Lawful Allowed (s.trace ++ [.system mktun, .system (linkUp s.listTop.length)]) es
      ∧ openFds ((bringUp s).trace ++ es) = openFds s.trace := by
    rcases hes with rfl | ⟨hpos, rfl⟩
    · exact ⟨trivial, by rw [List.append_nil, openFds_bringUp]⟩
    · refine ⟨⟨h.allowed_open hf hpos, ⟨_, rfl⟩, trivial⟩, ?_⟩
      have hfresh : newFd host s ∉ openFds (bringUp s).trace := hf (bringUp s).trace hpos
      rw [← openFds_bringUp, openFds, List.foldl_append, ← openFds]
      show (openFds (bringUp s).trace ++ [newFd host s]).erase (newFd host s) = _
      rw [List.erase_append_right _ hfresh, List.erase_cons_head, List.append_nil]
  refine ⟨rfl, ⟨s.listTop, _, rfl, hneg, ?_⟩, ⟨_, rfl⟩, ?_⟩
  · show openFds ((bringUp s).trace ++ es ++ _) = _
    rw [openFds_append_quiet (by simp [Quiet, Event.setsUp]), hlaw.2, h.open_eq]
  · rw [Sys.emit_trace, linked_trace, List.append_assoc, List.append_assoc]
    refine lawful_append.mpr ⟨h.lawful, lawful_append.mpr ⟨h.lawful_bringUp, ?_⟩⟩
    exact lawful_append.mpr ⟨hlaw.1, trivial, trivial⟩

/-- **Adding a node** goes on with a new device or ends the run. -/
theorem Orderly.addNode (hf : host.Fresh) (h : Orderly s) {item : CStr}
    (hn : item ∉ addrs s.listTop) : Outcome (addNode host item s) := by
  rcases addNode_ends host item s with ⟨fd, hneg, es, hes, hadd⟩ | ⟨hpos, hadd⟩
  · rw [hadd]
    exact h.failed hf hneg hes
  · rw [hadd]
    exact (h.linked hf hpos hn).macListPrint

end

/-! ## A message -/

section

variable {host : Host} {s : Sys}

theorem Orderly.macListAdd (hf : host.Fresh) (h : Orderly s) (item : CStr) :
    Outcome (macListAdd host item s) := by
  rw [macListAdd_eq]
  split
  · exact h
  next hn => exact h.addNode hf hn

/-- An address that was added is in the table. -/
theorem mem_of_macListAdd {item : CStr} {s' : Sys} (h : macListAdd host item s = .ok s') :
    item ∈ addrs s'.listTop := by
  rw [macListAdd_eq] at h
  split at h
  next hmem => rwa [← Except.ok.inj h]
  next =>
    rcases addNode_ends host item s with ⟨fd, -, es, -, hadd⟩ | ⟨-, hadd⟩
    · rw [hadd] at h
      exact absurd h (by simp)
    · rw [hadd, Except.ok.injEq] at h
      rw [← h]
      show item ∈ addrs (s.listTop ++ [_])
      simp

theorem mem_of_macListCheck {item : CStr} {l : List MacList} {p : MacList}
    (h : macListCheck item l = some p) : p ∈ l := by
  induction l with
  | nil => simp [macListCheck] at h
  | cons q next ih =>
      rw [macListCheck] at h
      split at h
      · rw [Option.some.injEq] at h
        exact h ▸ List.mem_cons_self
      · exact List.mem_cons_of_mem q (ih h)

/-- Loads, prints, and writes to descriptors that are open. -/
theorem lawful_quiet {past es : List Event} (hes : Quiet es)
    (hopen : ∀ fd bytes, .write fd bytes ∈ es → fd ∈ openFds past) :
    Lawful Allowed past es := by
  induction es generalizing past with
  | nil => trivial
  | cons e es ih =>
      obtain ⟨he, hes⟩ := List.forall_mem_cons.mp hes
      refine ⟨?_, ih hes fun fd bytes hmem => ?_⟩
      · cases e with
        | load off len => trivial
        | print line => trivial
        | write fd bytes => exact hopen fd bytes List.mem_cons_self
        | _ => exact absurd he (by simp [Event.setsUp])
      · rw [openFds_append_quiet (by simpa [Quiet] using he)]
        exact hopen fd bytes (List.mem_cons_of_mem e hmem)

theorem Orderly.quiet (h : Orderly s) {es : List Event} (hes : Quiet es)
    (hopen : ∀ fd bytes, .write fd bytes ∈ es → fd ∈ fds s.listTop) : Orderly (s.emit es) :=
  h.emit hes (lawful_quiet hes (by rwa [h.open_eq]))

theorem Orderly.learnAndWrite (hf : host.Fresh) (h : Orderly s) (off : Nat)
    (m : EbtUlogPacketMsg) : Outcome (learnAndWrite host off m s) := by
  have hread : Orderly (readAddr off s) := h.passive (by simp [Event.passive])
  have hadd := hread.macListAdd hf (etherNtoa (m.etherAddr off))
  unfold TapProject.learnAndWrite
  cases hr : TapProject.macListAdd host (etherNtoa (m.etherAddr off)) (readAddr off s) with
  | error e => rwa [hr] at hadd
  | ok t =>
      rw [hr] at hadd
      have ht : Orderly (readAddr off t) := Orderly.passive hadd (by simp [Event.passive])
      -- what was added is found, so there is no `NULL` to dereference
      obtain ⟨p, hp⟩ := macListCheck_of_mem (mem_of_macListAdd hr)
      have htop : (readAddr off t).listTop = t.listTop := rfl
      simp only [htop, hp]
      apply ht.quiet (by simp [Quiet, Event.setsUp])
      intro fd bytes hmem
      simp only [List.mem_cons, List.not_mem_nil, or_false, reduceCtorEq, false_or,
        Event.write.injEq] at hmem
      rw [hmem.1]
      exact List.mem_map_of_mem (mem_of_macListCheck hp)

/-- **A message** leaves the dispatcher running in order, or ends it. -/
theorem Orderly.distributePacket (hf : host.Fresh) (h : Orderly s) (m : EbtUlogPacketMsg) :
    Outcome (distributePacket host m s) := by
  have htests : ∀ fd bytes, .write fd bytes ∈ (groupTest m).1 → fd ∈ fds s.listTop := by
    intro fd bytes hmem
    obtain ⟨off, len, heq⟩ := groupTest_loads m _ hmem
    exact absurd heq (by simp)
  rw [distributePacket_eq]
  cases (groupTest m).2 with
  | some off =>
      apply Orderly.macListPrint
      apply h.quiet ((quiet_groupTest m).append (quiet_floodEvents m off s.listTop))
      intro fd bytes hmem
      rcases List.mem_append.mp hmem with hmem | hmem
      · exact htests fd bytes hmem
      · obtain ⟨p, hp, heq⟩ := List.mem_flatMap.mp hmem
        simp only [List.mem_cons, List.not_mem_nil, or_false, reduceCtorEq, false_or,
          Event.write.injEq] at heq
        rw [heq.1]
        exact List.mem_map_of_mem hp
  | none =>
      have huni : Outcome (unicast host m (s.emit (groupTest m).1)) := by
        rw [unicast_eq_run]
        exact run_result (P := Outcome) (h.quiet (quiet_groupTest m) htests)
          fun off _ t ht => Orderly.learnAndWrite hf ht off m
      cases hu : unicast host m (s.emit (groupTest m).1) with
      | error e => rwa [hu] at huni
      | ok t =>
          rw [hu] at huni
          exact Orderly.macListPrint huni

end

/-! ## The body of the loop -/

/-- The program between two turns of its loop: all names fitted. -/
structure Running (s : Sys) : Prop extends Orderly s where
  fit : NamesFit s.listTop.length

/-- The body of the loop ended the program: a device could not be opened, the stamp of the message
has no date, or the name of the eleventh device does not fit. -/
inductive BodyFailed : Halt → Prop
  | device {h : Halt} : Failed h → BodyFailed h
  | date {s : Sys} : Orderly s → BodyFailed ⟨.nullDeref, s⟩
  | name {s : Sys} : 10 < s.listTop.length → BodyFailed ⟨.overrun, s⟩

/-- How the program is after the body of its loop. -/
def BodyOutcome : Except Halt Sys → Prop
  | .ok s => Running s
  | .error h => BodyFailed h

theorem Outcome.checkNames {r : Except Halt Sys} (h : Outcome r) : BodyOutcome (checkNames r) := by
  unfold TapProject.checkNames
  split
  next hfit =>
    cases r with
    | ok s => exact ⟨h, hfit⟩
    | error e => exact .device h
  next hfit => exact .name (by rwa [namesFit_iff, Nat.not_le] at hfit)

/-- **A message** leaves the program running, or ends it in one of three ways. -/
theorem Running.mainBody {localtime : Int → Bool} {host : Host} {s : Sys} (hf : host.Fresh)
    (h : Running s) (m : EbtUlogPacketMsg) : BodyOutcome (mainBody localtime host m s) := by
  unfold TapProject.mainBody
  split
  · exact ⟨h.toOrderly.passive (by simp [Event.passive]), h.fit⟩
  · split
    · exact .date h.toOrderly
    · exact (h.toOrderly.distributePacket hf m).checkNames

end TapProject
