import Mathlib.Data.List.GetD
import TapProject.Dispatch.TableLaw
import TapProject.Dispatch.WholeFrames
import TapProject.Lib.Hub

set_option autoImplicit false

/-! # The dispatcher is a hub

What the dispatcher is for, said without its texts, buffers and descriptors: it is a hub on
Ethernet addresses. `action` says from the bytes of a frame and the bridge ports it passed whether
the frame is flooded or for which addresses it is forwarded, and `frame` adds the bytes that are
sent of it. When the system's calls succeed, a run of the dispatcher is the run of the hub on these
frames (`run_hub`): port `k` of the hub is the device `tap<k>`, and what the hub sends to it is
written to the device's descriptor.

Both sides are related by `HubState`; one message is one step of the hub (`HubState.step`), and a
run of the one a run of the other (`HubState.run`). -/

namespace TapProject

open EbtUlogPacketMsg Hub Insertion Runs

/-! ## Frames as the hub sees them -/

section

variable (m : EbtUlogPacketMsg)

/-- One of the Ethernet addresses is a group address, or one of the IP addresses passes for a
broadcast address. -/
def Flooded : Prop :=
  isGroupAddr m.hDest ∨ isGroupAddr m.hSource
    ∨ (EndsIn255 m ipSrcOff ∨ Misread m ipSrcOff) ∨ EndsIn255 m ipDstOff ∨ Misread m ipDstOff

instance (a : EtherAddr) : Decidable (isGroupAddr a) := inferInstanceAs (Decidable (_ ∨ _))

instance : Decidable (Flooded m) := inferInstanceAs (Decidable (_ ∨ _))

/-- The addresses a frame that is not flooded is forwarded for: its destination when it leaves
through the interface, its source when it came in through it. -/
def endpoints : List EtherAddr :=
  (if m.physoutdev = interfaceDev then [m.hDest] else [])
    ++ (if m.physindev = interfaceDev then [m.hSource] else [])

/-- What the dispatcher does with a frame. -/
def action : Action EtherAddr := if Flooded m then .flood else .forward (endpoints m)

/-- The bytes that are sent of a frame: as many as its length field says, whatever lies behind what
was captured. -/
def sentBytes : List UInt8 := m.counted (if ip6Flooded m then ip6PlenOff else ipLenOff)

/-- A frame as the hub sees it. -/
def frame : Action EtherAddr × List UInt8 := (action m, sentBytes m)

end

theorem floodOff_isSome_iff (a : EtherAddr) :
    (floodOff (etherNtoa a)).isSome ↔ a.ipv4Multicast ∨ a.ipv6Multicast := by
  rw [floodOff_etherNtoa]
  split_ifs <;> simp [*]

theorem etherNtoa_eq_broadcast_iff (a : EtherAddr) :
    etherNtoa a = broadcastMac ↔ a = ⟨0xff, 0xff, 0xff, 0xff, 0xff, 0xff⟩ := by
  have hmac : broadcastMac = etherNtoa ⟨0xff, 0xff, 0xff, 0xff, 0xff, 0xff⟩ := by decide
  rw [hmac, etherNtoa_injective.eq_iff]

/-- The group tests decide from the bytes of the frame. -/
theorem groupFrame_iff_flooded (m : EbtUlogPacketMsg) : groupFrame m ↔ Flooded m := by
  unfold groupFrame Flooded isGroupAddr
  rw [floodOff_isSome_iff, floodOff_isSome_iff, etherNtoa_eq_broadcast_iff,
    etherNtoa_eq_broadcast_iff, ipv4Broadcast_iff]
  unfold EtherAddr.ipv4Multicast EtherAddr.ipv6Multicast
  tauto

theorem learned_action (m : EbtUlogPacketMsg) : (action m).learned = learnedFrom m := by
  rw [action, learnedFrom]
  by_cases h : Flooded m
  · rw [if_pos h, if_pos ((groupFrame_iff_flooded m).mpr h)]
    rfl
  · rw [if_neg h, if_neg (mt (groupFrame_iff_flooded m).mp h)]
    rfl

theorem counted_countOff (m : EbtUlogPacketMsg) : m.counted (countOff m) = sentBytes m := by
  rw [countOff_eq, sentBytes]

/-! ## Ports and descriptors -/

/-- The descriptor of the `k`-th node. -/
def fdAt (l : List MacList) (k : Nat) : Int := (fds l).getD k (-1)

theorem fdAt_grows {l l' : List MacList} (h : l <+: l') {k : Nat} (hk : k < l.length) :
    fdAt l' k = fdAt l k := by
  obtain ⟨later, rfl⟩ := h
  rw [fdAt, fds_append, List.getD_append _ _ _ _ (by simpa [fds] using hk), fdAt]

/-- The descriptors of a table are those at its places. -/
theorem fds_eq_map_fdAt (l : List MacList) : fds l = (List.range l.length).map (fdAt l) := by
  apply List.ext_getElem (by simp [fds])
  intro k hk hk'
  rw [List.getElem_map, List.getElem_range, fdAt, List.getD_eq_getElem _ _ hk]

/-- The port of an address in the table is the descriptor at its place. -/
theorem portsOf_eq_fdAt {l : List MacList} {known : List EtherAddr} (hnd : (addrs l).Nodup)
    (hknown : addrs l = known.map etherNtoa) {a : EtherAddr} (ha : a ∈ known) :
    portsOf (etherNtoa a) l = [fdAt l (port known a)] := by
  have hmem : etherNtoa a ∈ addrs l := hknown ▸ List.mem_map_of_mem ha
  obtain ⟨p, hp⟩ := macListCheck_of_mem hmem
  have hlen : l.length = known.length := by
    have := congrArg List.length hknown
    simpa [addrs] using this
  have hk : port known a < l.length := hlen ▸ port_lt ha
  -- the node at the address's place is the one that is found
  have hnode : l[port known a].macAdd = etherNtoa a := by
    have hget : (addrs l)[port known a]? = some (etherNtoa a) := by
      rw [hknown, List.getElem?_map, port, List.getElem?_idxOf ha, Option.map_some]
    rw [addrs, List.getElem?_map, List.getElem?_eq_getElem hk, Option.map_some] at hget
    exact Option.some.inj hget
  have hfound : l[port known a] ∈ l.filter fun q => q.macAdd = etherNtoa a :=
    List.mem_filter.mpr ⟨List.getElem_mem hk, by simpa using hnode⟩
  rw [filter_macAdd_of_check hnd hp, List.mem_singleton] at hfound
  rw [portsOf_of_check hnd hp, ← hfound, fdAt, fds,
    List.getD_eq_getElem _ _ (by simpa using hk), List.getElem_map]

/-! ## The simulation -/

/-- The state of the dispatcher that stands for a hub which knows the addresses `known` and has
sent `sent`. -/
structure HubState (known : List EtherAddr) (sent : List (Nat × List UInt8)) (s : Sys) :
    Prop where
  inv : TableInv s
  addrs_eq : addrs s.listTop = known.map etherNtoa
  sent_lt : ∀ d ∈ sent, d.1 < s.listTop.length
  writes_eq : writes s.trace = sent.map fun d => (fdAt s.listTop d.1, d.2)

theorem HubState.boot : HubState [] [] Sys.boot := ⟨TableInv.boot, rfl, by simp, rfl⟩

variable {known : List EtherAddr} {sent : List (Nat × List UInt8)} {s : Sys}

theorem HubState.length_eq (h : HubState known sent s) : s.listTop.length = known.length := by
  have := congrArg List.length h.addrs_eq
  simpa [addrs] using this

/-- What was sent stays where it was when the table grows. -/
theorem HubState.sent_grows (h : HubState known sent s) {l : List MacList}
    (hl : s.listTop <+: l) :
    sent.map (fun d => (fdAt l d.1, d.2)) = sent.map fun d => (fdAt s.listTop d.1, d.2) := by
  apply List.map_congr_left
  intro d hd
  rw [fdAt_grows hl (h.sent_lt d hd)]

/-- What is sent from one state to a later one is written in between. -/
theorem HubState.writes_since {known' : List EtherAddr} {new : List (Nat × List UInt8)} {s' : Sys}
    (h : HubState known sent s) (h' : HubState known' (sent ++ new) s')
    (hl : s.listTop <+: s'.listTop) :
    writes s'.trace = writes s.trace ++ new.map fun d => (fdAt s'.listTop d.1, d.2) := by
  rw [h'.writes_eq, List.map_append, h.sent_grows hl, h.writes_eq]

/-- A flooded frame goes to every port. -/
theorem HubState.flood (h : HubState known sent s) (host : Host) {m : EbtUlogPacketMsg}
    (hf : Flooded m) :
    ∃ s', distributePacket host m s = .ok s' ∧ s.listTop <+: s'.listTop
      ∧ HubState known (sent ++ (List.range known.length).map (·, sentBytes m)) s' := by
  have hg := (groupFrame_iff_flooded m).mpr hf
  obtain ⟨off, hoff⟩ := Option.isSome_iff_exists.mp ((groupTest_isSome m).mpr hg)
  obtain ⟨s', -, hok, htop, -, hinv⟩ := distributePacket_group host hg s
  have hwrites := writes_distributePacket_some host hoff s
  rw [hok, lastSys_ok, ← countOff_of_some hoff, counted_countOff] at hwrites
  refine ⟨s', hok, htop ▸ List.prefix_refl _, hinv h.inv, htop ▸ h.addrs_eq, ?_, ?_⟩
  · intro d hd
    rw [htop]
    rcases List.mem_append.mp hd with hd | hd
    · exact h.sent_lt d hd
    · obtain ⟨k, hk, rfl⟩ := List.mem_map.mp hd
      rw [h.length_eq]
      exact List.mem_range.mp hk
  · have hports : s.listTop.map (fun p => (p.tapFdNum, sentBytes m))
        = (List.range known.length).map fun k => (fdAt s.listTop k, sentBytes m) := by
      have hmap := congrArg (List.map (·, sentBytes m)) (fds_eq_map_fdAt s.listTop)
      rw [fds, List.map_map, List.map_map, h.length_eq] at hmap
      exact hmap
    rw [hwrites, htop, h.writes_eq, hports, List.map_append, List.map_map]
    rfl

/-- The writes of a frame that is forwarded go to the ports of its addresses. -/
theorem unicastWrites_eq {m : EbtUlogPacketMsg} {l : List MacList} (hf : ¬ Flooded m)
    (hnd : (addrs l).Nodup) (hknown : addrs l = known.map etherNtoa)
    (hmem : ∀ a ∈ endpoints m, a ∈ known) :
    unicastWrites m (unicastOffs m) l
      = (endpoints m).map fun a => (fdAt l (port known a), sentBytes m) := by
  have hbytes : m.counted ipLenOff = sentBytes m := by
    have hnone : (groupTest m).2 = none := by
      rw [← Option.not_isSome_iff_eq_none, groupTest_isSome, groupFrame_iff_flooded]
      exact hf
    rw [← countOff_of_none hnone, counted_countOff]
  have haddrs : endpoints m = (unicastOffs m).map m.etherAddr := (unicastOffs_addrs m).symm
  rw [unicastWrites, haddrs, List.map_map, List.map_eq_flatMap]
  apply List.flatMap_congr
  intro off hoff
  have ha : m.etherAddr off ∈ known := hmem _ (haddrs ▸ List.mem_map_of_mem hoff)
  rw [portsOf_eq_fdAt hnd hknown ha, hbytes]
  rfl

/-- A frame that is forwarded is learned and goes to the ports of its addresses. -/
theorem HubState.forward {host : Host} (hh : host.Succeeds) (h : HubState known sent s)
    {m : EbtUlogPacketMsg} (hf : ¬ Flooded m) :
    ∃ s', distributePacket host m s = .ok s' ∧ s.listTop <+: s'.listTop
      ∧ HubState (insertAll known (endpoints m))
          (sent ++ (ports known (.forward (endpoints m))).map (·, sentBytes m)) s' := by
  obtain ⟨s', hok, hfw⟩ :=
    distributePacket_unicast hh (mt (groupFrame_iff_flooded m).mp hf) h.inv
  have haddrs : addrs s'.listTop = (insertAll known (endpoints m)).map etherNtoa := by
    have hitems : (unicastOffs m).map (fun off => etherNtoa (m.etherAddr off))
        = (endpoints m).map etherNtoa := by
      rw [endpoints, ← unicastOffs_addrs, List.map_map]
      rfl
    rw [hfw.learned, hitems, h.addrs_eq, insertAll_map etherNtoa_injective]
  have hmem : ∀ a ∈ endpoints m, a ∈ insertAll known (endpoints m) := fun a ha =>
    mem_insertAll.mpr (Or.inr ha)
  have hlen : s'.listTop.length = (insertAll known (endpoints m)).length := by
    have := congrArg List.length haddrs
    simpa [addrs] using this
  refine ⟨s', hok, hfw.table, hfw.inv, haddrs, ?_, ?_⟩
  · intro d hd
    rcases List.mem_append.mp hd with hd | hd
    · exact Nat.lt_of_lt_of_le (h.sent_lt d hd) hfw.table.length_le
    · obtain ⟨k, hk, rfl⟩ := List.mem_map.mp hd
      rw [hlen]
      exact ports_lt hk
  · rw [hfw.written, h.writes_eq, unicastWrites_eq hf hfw.inv.addrs_nodup haddrs hmem,
      List.map_append, h.sent_grows hfw.table, ports, List.map_map, List.map_map]
    rfl

/-- **One message is one step of the hub.** -/
theorem HubState.step {host : Host} (hh : host.Succeeds) (h : HubState known sent s)
    (m : EbtUlogPacketMsg) :
    ∃ s', distributePacket host m s = .ok s' ∧ s.listTop <+: s'.listTop
      ∧ HubState (insertAll known (action m).learned)
          (sent ++ (ports known (action m)).map (·, sentBytes m)) s' := by
  by_cases hf : Flooded m
  · rw [action, if_pos hf]
    exact h.flood host hf
  · rw [action, if_neg hf]
    exact h.forward hh hf

/-- A run from a state that stands for a hub. -/
theorem HubState.run {host : Host} (hh : host.Succeeds) (h : HubState known sent s)
    (ms : List EbtUlogPacketMsg) :
    ∃ s', Runs.run (distributePacket host) ms s = .ok s' ∧ s.listTop <+: s'.listTop
      ∧ HubState (table known (ms.map frame)) (sent ++ deliveries known (ms.map frame)) s' := by
  refine run_ok (I := fun ms s' => s.listTop <+: s'.listTop
    ∧ HubState (table known (ms.map frame)) (sent ++ deliveries known (ms.map frame)) s')
    ⟨List.prefix_refl _, by simpa [deliveries] using h⟩ ?_ ms
  rintro ms m s' ⟨hpre, h'⟩
  obtain ⟨s'', hok, hpre', h''⟩ := h'.step hh m
  refine ⟨s'', hok, hpre.trans hpre', ?_⟩
  rw [List.map_append, List.map_singleton, table_concat, deliveries_concat, ← List.append_assoc]
  exact h''

/-- **The dispatcher refines the hub.** A run from the empty table succeeds; the table holds the
addresses the hub knows, the `k`-th under the name `tap<k>`, and the writes of the whole run are
what the hub sends, port `k` being the descriptor of the `k`-th node. -/
theorem run_hub (host : Host) (hh : host.Succeeds) (ms : List EbtUlogPacketMsg) :
    ∃ s, runDispatch host ms = .ok s
      ∧ addrs s.listTop = (table [] (ms.map frame)).map etherNtoa
      ∧ names s.listTop = (List.range s.listTop.length).map tapName
      ∧ (∀ d ∈ deliveries [] (ms.map frame), d.1 < s.listTop.length)
      ∧ writes s.trace
          = (deliveries [] (ms.map frame)).map fun d => (fdAt s.listTop d.1, d.2) := by
  obtain ⟨s, hok, -, h⟩ := HubState.boot.run hh ms
  exact ⟨s, hok, h.addrs_eq, h.inv.names_eq, h.sent_lt, h.writes_eq⟩

theorem run_hub_guests :
    ∃ s, runDispatch freshHost
        [.ofBytes [] interfaceDev guestFrame, .ofBytes interfaceDev [] guestFrame] = .ok s
      ∧ (deliveries [] ([.ofBytes [] interfaceDev guestFrame,
          .ofBytes interfaceDev [] guestFrame].map frame)).map Prod.fst = [0, 1]
      ∧ names s.listTop = (List.range s.listTop.length).map tapName := by
  obtain ⟨s, hok, -, hnames, -⟩ := run_hub freshHost freshHost_succeeds
    [.ofBytes [] interfaceDev guestFrame, .ofBytes interfaceDev [] guestFrame]
  exact ⟨s, hok, by decide +kernel, hnames⟩

end TapProject
