import Mathlib.Data.Finset.Card
import TapProject.Dispatch.HubRefinement

set_option autoImplicit false

/-! # What the hub is good for

What holds of the hub, for the runs of the dispatcher:

* two frames that are forwarded for one address each are written to the same device exactly when
  the addresses are the same, whatever passes before and in between (`same_tap_iff`);
* which devices exist after a run does not depend on the order of the frames (`taps_of_perm`);
* a run that meets no address for the first time changes nothing and needs nothing of the system;
  each of its frames is handled by itself (`trained_run`). -/

namespace TapProject

open EbtUlogPacketMsg Hub Insertion Runs

variable {known : List EtherAddr} {sent : List (Nat × List UInt8)} {s : Sys}

/-! ## Isolation -/

/-- Different places of a table have different descriptors. -/
theorem fdAt_inj {l : List MacList} (hnd : (fds l).Nodup) {j k : Nat} (hj : j < l.length)
    (hk : k < l.length) : fdAt l j = fdAt l k ↔ j = k := by
  have hlen : (fds l).length = l.length := by simp [fds]
  rw [fdAt, fdAt, List.getD_eq_getElem _ _ (by omega), List.getD_eq_getElem _ _ (by omega),
    hnd.getElem_inj_iff]

/-- The descriptors of two addresses that are known are the same only for the same address. -/
theorem HubState.fdAt_port_inj (h : HubState known sent s) {a b : EtherAddr} (ha : a ∈ known)
    (hb : b ∈ known) :
    fdAt s.listTop (port known a) = fdAt s.listTop (port known b) ↔ a = b := by
  rw [fdAt_inj h.inv.fds_nodup (h.length_eq ▸ port_lt ha) (h.length_eq ▸ port_lt hb), port_inj ha]

/-- An address keeps its descriptor. -/
theorem HubState.fdAt_port_grows {known' : List EtherAddr} {s' : Sys} (h : HubState known sent s)
    (hl : s.listTop <+: s'.listTop) (hk : known <+: known') {a : EtherAddr} (ha : a ∈ known) :
    fdAt s'.listTop (port known' a) = fdAt s.listTop (port known a) := by
  rw [port_grows hk ha, fdAt_grows hl (h.length_eq ▸ port_lt ha)]

/-- A frame that is forwarded for one address is written once, to the descriptor at the place of
the address. -/
theorem HubState.forward_one {host : Host} (hh : host.Succeeds) (h : HubState known sent s)
    {m : EbtUlogPacketMsg} {a : EtherAddr} (ha : action m = .forward [a]) :
    ∃ t sent', distributePacket host m s = .ok t ∧ s.listTop <+: t.listTop
      ∧ HubState (insertNew known a) sent' t
      ∧ writes t.trace
          = writes s.trace ++ [(fdAt t.listTop (port (insertNew known a) a), sentBytes m)] := by
  obtain ⟨t, hok, hpre, ht⟩ := h.step hh m
  rw [ha] at ht
  exact ⟨t, _, hok, hpre, ht, h.writes_since ht hpre⟩

/-- **Guests are kept apart.** In any run, take two frames that are forwarded for one address each,
with any frames before and in between. Each is written once, and to the same descriptor exactly when
the addresses are the same. -/
theorem same_tap_iff (host : Host) (hh : host.Succeeds) (ms₁ ms₂ : List EbtUlogPacketMsg)
    (m₁ m₂ : EbtUlogPacketMsg) (a₁ a₂ : EtherAddr) (h₁ : action m₁ = .forward [a₁])
    (h₂ : action m₂ = .forward [a₂]) :
    ∃ s₁ t₁ s₂ t₂ fd₁ fd₂, runDispatch host ms₁ = .ok s₁ ∧ distributePacket host m₁ s₁ = .ok t₁
      ∧ run (distributePacket host) ms₂ t₁ = .ok s₂ ∧ distributePacket host m₂ s₂ = .ok t₂
      ∧ writes t₁.trace = writes s₁.trace ++ [(fd₁, sentBytes m₁)]
      ∧ writes t₂.trace = writes s₂.trace ++ [(fd₂, sentBytes m₂)]
      ∧ (fd₁ = fd₂ ↔ a₁ = a₂) := by
  obtain ⟨s₁, hrun₁, -, hs₁⟩ := HubState.boot.run hh ms₁
  obtain ⟨t₁, sent₁, hok₁, -, ht₁, hw₁⟩ := hs₁.forward_one hh h₁
  obtain ⟨s₂, hrun₂, hpre, hs₂⟩ := ht₁.run hh ms₂
  obtain ⟨t₂, sent₂, hok₂, hpre', ht₂, hw₂⟩ := hs₂.forward_one hh h₂
  refine ⟨s₁, t₁, s₂, t₂, _, _, hrun₁, hok₁, hrun₂, hok₂, hw₁, hw₂, ?_⟩
  -- the first address has kept its descriptor up to the last table
  have hknown := (prefix_insertAll (insertNew (table [] (ms₁.map frame)) a₁)
    ((ms₂.map frame).flatMap fun f => f.1.learned)).trans (prefix_insertAll _ [a₂])
  have hmem₁ : a₁ ∈ insertNew (table [] (ms₁.map frame)) a₁ := mem_insertNew.mpr (Or.inr rfl)
  have hmem₂ : a₂
      ∈ insertNew (table (insertNew (table [] (ms₁.map frame)) a₁) (ms₂.map frame)) a₂ :=
    mem_insertNew.mpr (Or.inr rfl)
  rw [← ht₁.fdAt_port_grows (hpre.trans hpre') hknown hmem₁]
  exact ht₂.fdAt_port_inj (hknown.subset hmem₁) hmem₂

/-- The two frames of the guests, one in each direction, get to different devices. -/
theorem same_tap_iff_guests :
    ∃ s₁ t₁ s₂ t₂ fd₁ fd₂, runDispatch freshHost [] = .ok s₁
      ∧ distributePacket freshHost (.ofBytes [] interfaceDev guestFrame) s₁ = .ok t₁
      ∧ run (distributePacket freshHost) [] t₁ = .ok s₂
      ∧ distributePacket freshHost (.ofBytes interfaceDev [] guestFrame) s₂ = .ok t₂
      ∧ writes t₁.trace
          = writes s₁.trace ++ [(fd₁, sentBytes (.ofBytes [] interfaceDev guestFrame))]
      ∧ writes t₂.trace
          = writes s₂.trace ++ [(fd₂, sentBytes (.ofBytes interfaceDev [] guestFrame))]
      ∧ fd₁ ≠ fd₂ := by
  obtain ⟨s₁, t₁, s₂, t₂, fd₁, fd₂, h₁, ht₁, h₂, ht₂, hw₁, hw₂, hiff⟩ :=
    same_tap_iff freshHost freshHost_succeeds [] [] (.ofBytes [] interfaceDev guestFrame)
      (.ofBytes interfaceDev [] guestFrame) ⟨0x00, 0x16, 0x3e, 0x0d, 0x58, 0xc1⟩
      ⟨0x00, 0xa0, 0xde, 0xaa, 0x5b, 0x89⟩ (by decide) (by decide)
  exact ⟨s₁, t₁, s₂, t₂, fd₁, fd₂, h₁, ht₁, h₂, ht₂, hw₁, hw₂, mt hiff.mp (by decide)⟩

/-! ## The order of the frames -/

theorem table_frames (ms : List EbtUlogPacketMsg) :
    table [] (ms.map frame) = insertAll [] (ms.flatMap learnedFrom) := by
  rw [table, List.flatMap_map]
  congr 1
  exact List.flatMap_congr fun m _ => learned_action m

/-- **Which devices exist does not depend on the order of the frames**, nor on the descriptors that
the system hands out: only which guest gets which device does. There is one for each address that
was learned. -/
theorem taps_of_perm (host host' : Host) (hh : host.Succeeds) (hh' : host'.Succeeds)
    (ms ms' : List EbtUlogPacketMsg) (hperm : ms.Perm ms') :
    ∃ s s', runDispatch host ms = .ok s ∧ runDispatch host' ms' = .ok s'
      ∧ (addrs s.listTop).Perm (addrs s'.listTop) ∧ names s.listTop = names s'.listTop
      ∧ macListCount s.listTop = (ms.flatMap learnedFrom).toFinset.card := by
  obtain ⟨s, hok, -, hs⟩ := HubState.boot.run hh ms
  obtain ⟨s', hok', -, hs'⟩ := HubState.boot.run hh' ms'
  have htables : (table [] (ms.map frame)).Perm (table [] (ms'.map frame)) :=
    table_perm List.nodup_nil (hperm.map frame)
  refine ⟨s, s', hok, hok', ?_, ?_, ?_⟩
  · rw [hs.addrs_eq, hs'.addrs_eq]
    exact htables.map etherNtoa
  · rw [hs.inv.names_eq, hs'.inv.names_eq, hs.length_eq, hs'.length_eq, htables.length_eq]
  · have hnd : (table [] (ms.map frame)).Nodup := nodup_insertAll List.nodup_nil _
    rw [macListCount_eq, hs.length_eq, ← List.toFinset_card_of_nodup hnd, table_frames]
    congr 1
    ext a
    rw [List.mem_toFinset, List.mem_toFinset, mem_insertAll]
    exact or_iff_right List.not_mem_nil

theorem taps_of_perm_guests :
    ∃ s s', runDispatch freshHost
        [.ofBytes [] interfaceDev guestFrame, .ofBytes interfaceDev [] guestFrame] = .ok s
      ∧ runDispatch freshHost
        [.ofBytes interfaceDev [] guestFrame, .ofBytes [] interfaceDev guestFrame] = .ok s'
      ∧ names s.listTop = names s'.listTop ∧ macListCount s.listTop = 2 := by
  obtain ⟨s, s', hok, hok', -, hnames, hcount⟩ := taps_of_perm freshHost freshHost
    freshHost_succeeds freshHost_succeeds
    [.ofBytes [] interfaceDev guestFrame, .ofBytes interfaceDev [] guestFrame] _ (.swap _ _ [])
  exact ⟨s, s', hok, hok', hnames, hcount.trans (by decide +kernel)⟩

/-! ## Frames of addresses that are known -/

/-- An event that sets something up or takes it down: a command, or a descriptor. -/
def Event.setsUp : Event → Bool
  | .system _ => true
  | .openFd _ => true
  | .closeFd _ => true
  | _ => false

/-- The events are loads, writes and prints. -/
def Quiet (es : List Event) : Prop := ∀ e ∈ es, e.setsUp = false

theorem Quiet.append {es fs : List Event} (h : Quiet es) (h' : Quiet fs) : Quiet (es ++ fs) :=
  List.forall_mem_append.mpr ⟨h, h'⟩

theorem quiet_groupTest (m : EbtUlogPacketMsg) : Quiet (groupTest m).1 := by
  intro e he
  obtain ⟨off, len, rfl⟩ := groupTest_loads m e he
  rfl

theorem quiet_floodEvents (m : EbtUlogPacketMsg) (off : Nat) (l : List MacList) :
    Quiet (floodEvents m off l) := by
  intro e he
  obtain ⟨p, _, hp⟩ := List.mem_flatMap.mp he
  simp only [List.mem_cons, List.not_mem_nil, or_false] at hp
  rcases hp with rfl | rfl <;> rfl

/-- Printing the table, as events. -/
theorem macListPrint_quiet (s : Sys) :
    ∃ es, (∀ fs, macListPrint (s.emit fs) = s.emit (fs ++ es)) ∧ Quiet es := by
  refine ⟨s.listTop.map (fun p => .print p.line) ++ [.print "------------------------".toList],
    fun fs => by rw [macListPrint, Sys.emit_emit]; rfl, ?_⟩
  intro e he
  rcases List.mem_append.mp he with he | he
  · obtain ⟨p, _, rfl⟩ := List.mem_map.mp he
    rfl
  · rw [List.mem_singleton.mp he]
    rfl

/-- An address that is known is looked up twice and written to; the system is not asked. -/
theorem learnAndWrite_of_mem {m : EbtUlogPacketMsg} {off : Nat} {s : Sys}
    (h : etherNtoa (m.etherAddr off) ∈ addrs s.listTop) :
    ∃ es, (∀ host, learnAndWrite host off m s = .ok (s.emit es)) ∧ Quiet es := by
  obtain ⟨p, hp⟩ := macListCheck_of_mem h
  refine ⟨[.load off 6, .load off 6, .load ipLenOff 2, .write p.tapFdNum (m.counted ipLenOff)],
    fun host => ?_, by simp [Quiet, Event.setsUp]⟩
  have hadd : macListAdd host (etherNtoa (m.etherAddr off)) (readAddr off s)
      = .ok (readAddr off s) := macListAdd_of_mem host h
  have htop : (readAddr off (readAddr off s)).listTop = s.listTop := rfl
  simp only [learnAndWrite, hadd, htop, hp]
  simp [readAddr]

/-- The unicast part for addresses that are known. -/
theorem unicast_of_known {m : EbtUlogPacketMsg} {s : Sys}
    (h : ∀ off ∈ unicastOffs m, etherNtoa (m.etherAddr off) ∈ addrs s.listTop) :
    ∃ es, (∀ host, unicast host m s = .ok (s.emit es)) ∧ Quiet es := by
  simp only [unicast_eq_run]
  generalize unicastOffs m = offs at h
  induction offs generalizing s with
  | nil => exact ⟨[], fun host => by simp [Sys.emit], by simp [Quiet]⟩
  | cons off offs ih =>
      obtain ⟨hoff, hoffs⟩ := List.forall_mem_cons.mp h
      obtain ⟨es, hok, hes⟩ := learnAndWrite_of_mem hoff
      obtain ⟨fs, hrun, hfs⟩ := ih (s := s.emit es) hoffs
      refine ⟨es ++ fs, fun host => ?_, hes.append hfs⟩
      rw [run_cons_ok (f := fun off s => learnAndWrite host off m s) (hok host), hrun host,
        Sys.emit_emit]

/-- **A frame whose addresses are known is handled without the system**: the same events happen
whatever it would answer, no command or descriptor is among them, and the table stays. -/
theorem distributePacket_of_known {m : EbtUlogPacketMsg} {s : Sys}
    (h : ∀ a ∈ (action m).learned, etherNtoa a ∈ addrs s.listTop) :
    ∃ es, (∀ host, distributePacket host m s = .ok (s.emit es)) ∧ Quiet es := by
  obtain ⟨ps, hprint, hps⟩ := macListPrint_quiet s
  simp only [distributePacket_eq]
  cases ht : (groupTest m).2 with
  | some off =>
      refine ⟨(groupTest m).1 ++ floodEvents m off s.listTop ++ ps, fun host => ?_,
        ((quiet_groupTest m).append (quiet_floodEvents m off s.listTop)).append hps⟩
      exact congrArg Except.ok (hprint _)
  | none =>
      have hlearned : (action m).learned = (unicastOffs m).map m.etherAddr := by
        rw [learned_action, learnedFrom, if_neg (not_groupFrame_of_none ht), unicastOffs_addrs]
      have hknown : ∀ off ∈ unicastOffs m, etherNtoa (m.etherAddr off) ∈ addrs s.listTop :=
        fun off hoff => h _ (hlearned ▸ List.mem_map_of_mem hoff)
      obtain ⟨es, hok, hes⟩ := unicast_of_known (s := s.emit (groupTest m).1) hknown
      refine ⟨(groupTest m).1 ++ es ++ ps, fun host => ?_,
        ((quiet_groupTest m).append hes).append hps⟩
      simp only [hok host, Sys.emit_emit]
      exact congrArg Except.ok (hprint _)

/-- Frames whose addresses are known are handled without the system. -/
theorem run_of_known {ms : List EbtUlogPacketMsg} {s : Sys}
    (h : ∀ m ∈ ms, ∀ a ∈ (action m).learned, etherNtoa a ∈ addrs s.listTop) :
    ∃ es, (∀ host, run (distributePacket host) ms s = .ok (s.emit es)) ∧ Quiet es := by
  induction ms generalizing s with
  | nil => exact ⟨[], fun host => by simp [Sys.emit], by simp [Quiet]⟩
  | cons m ms ih =>
      obtain ⟨hm, hms⟩ := List.forall_mem_cons.mp h
      obtain ⟨es, hok, hes⟩ := distributePacket_of_known hm
      obtain ⟨fs, hrun, hfs⟩ := ih (s := s.emit es) hms
      refine ⟨es ++ fs, fun host => ?_, hes.append hfs⟩
      rw [run_cons_ok (hok host), hrun host, Sys.emit_emit]

/-- What is written for the frames `ms` with the table `l` of the addresses `known`, each frame by
itself. -/
def frameWrites (known : List EtherAddr) (l : List MacList) (ms : List EbtUlogPacketMsg) :
    List (Int × List UInt8) :=
  ms.flatMap fun m => (ports known (action m)).map fun k => (fdAt l k, sentBytes m)

/-- The hub is trained, so it sends each frame by itself. -/
theorem HubState.run_of_known (h : HubState known sent s) (ms : List EbtUlogPacketMsg)
    (hms : ∀ m ∈ ms, ∀ a ∈ (action m).learned, a ∈ known) :
    ∃ es, (∀ host, Runs.run (distributePacket host) ms s = .ok (s.emit es)) ∧ Quiet es
      ∧ writes es = frameWrites known s.listTop ms := by
  obtain ⟨es, hok, hes⟩ := TapProject.run_of_known fun m hm a ha => by
    rw [h.addrs_eq]
    exact List.mem_map_of_mem (hms m hm a ha)
  refine ⟨es, hok, hes, ?_⟩
  -- on a system that succeeds the run is one of the hub
  obtain ⟨s', hok', hpre, hs'⟩ := h.run freshHost_succeeds ms
  obtain rfl : s.emit es = s' := Except.ok.inj ((hok freshHost).symm.trans hok')
  have hsent : deliveries known (ms.map frame)
      = (ms.map frame).flatMap fun f => (ports known f.1).map (·, f.2) :=
    (deliveries_trained (List.forall_mem_map.mpr hms)).2
  have hwrites := h.writes_since hs' hpre
  rw [Sys.emit_trace, writes_append, List.append_cancel_left_eq, hsent, List.map_flatMap,
    List.flatMap_map] at hwrites
  simp only [List.map_map] at hwrites
  exact hwrites

/-- **A trained dispatcher is a stateless one.** After any run, let frames follow whose addresses
were all learned in it. Whatever the system would answer now, the frames are handled; the table
stays as it is, no command is executed and no descriptor opened or closed, and each frame is written
to the devices that the frame and the table say. -/
theorem trained_run (host : Host) (hh : host.Succeeds) (ms ms' : List EbtUlogPacketMsg)
    (h : ∀ a ∈ ms'.flatMap learnedFrom, a ∈ ms.flatMap learnedFrom) :
    ∃ s es, runDispatch host ms = .ok s
      ∧ (∀ host', run (distributePacket host') ms' s = .ok (s.emit es)) ∧ Quiet es
      ∧ writes es = frameWrites (table [] (ms.map frame)) s.listTop ms' := by
  obtain ⟨s, hok, -, hs⟩ := HubState.boot.run hh ms
  obtain ⟨es, hrun, hes, hwrites⟩ := hs.run_of_known ms' (by
    intro m hm a ha
    rw [table_frames, mem_insertAll]
    rw [learned_action] at ha
    exact Or.inr (h a (List.mem_flatMap.mpr ⟨m, hm, ha⟩)))
  exact ⟨s, es, hok, hrun, hes, hwrites⟩

/-- A system that opens nothing any more still lets the guest's frames through. -/
theorem trained_run_guest :
    ∃ s es, runDispatch freshHost [.ofBytes [] interfaceDev guestFrame] = .ok s
      ∧ run (distributePacket ⟨fun _ => -1, fun _ _ _ name => (-1, name)⟩)
          [.ofBytes [] interfaceDev guestFrame] s = .ok (s.emit es)
      ∧ Quiet es ∧ (writes es).map (fun w => (w.1, w.2.take 34)) = [(4, guestFrame)] := by
  obtain ⟨s, es, hok, hrun, hes, hwrites⟩ := trained_run freshHost freshHost_succeeds
    [.ofBytes [] interfaceDev guestFrame] [.ofBytes [] interfaceDev guestFrame] fun _ h => h
  refine ⟨s, es, hok, hrun _, hes, ?_⟩
  obtain rfl : lastSys (runDispatch freshHost [.ofBytes [] interfaceDev guestFrame]) = s := by
    rw [hok]
    rfl
  rw [hwrites]
  decide +kernel

end TapProject
