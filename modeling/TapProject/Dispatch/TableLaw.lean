import TapProject.Dispatch.Step
import TapProject.Packet.Prefixes

set_option autoImplicit false

/-! # The MAC table over whole runs

A run of the dispatcher passes a list of messages through `distributePacket`, starting from the
empty table. When the system's calls succeed, the table at its end is determined by the
addresses of the frames that are no group frames: `learnedFrom` says which addresses a frame
contributes, and the table holds their first occurrences, numbered in order
(`table_of_run`). No group address is among them, whatever the system answers
(`no_tap_for_group`). -/

namespace TapProject

open EbtUlogPacketMsg Insertion Runs

/-- The run of the dispatcher over the messages `ms`, from the empty table. -/
def runDispatch (host : Host) (ms : List EbtUlogPacketMsg) : Except Halt Sys :=
  run (distributePacket host) ms Sys.boot

/-- The addresses a frame contributes to the table. -/
def learnedFrom (m : EbtUlogPacketMsg) : List EtherAddr :=
  if groupFrame m then []
  else (if m.physoutdev = interfaceDev then [m.hDest] else [])
    ++ (if m.physindev = interfaceDev then [m.hSource] else [])

theorem unicastOffs_addrs (m : EbtUlogPacketMsg) :
    (unicastOffs m).map m.etherAddr
      = (if m.physoutdev = interfaceDev then [m.hDest] else [])
        ++ (if m.physindev = interfaceDev then [m.hSource] else []) := by
  unfold unicastOffs
  by_cases hout : m.physoutdev = interfaceDev <;> by_cases hin : m.physindev = interfaceDev <;>
    simp [hout, hin, hDest, hSource]

/-- One message keeps the table invariant, extends the table at its end and inserts what the
frame contributes. -/
theorem distributePacket_table {host : Host} (hh : host.Succeeds) (m : EbtUlogPacketMsg) {s : Sys}
    (h : TableInv s) :
    ∃ s', distributePacket host m s = .ok s' ∧ TableInv s' ∧ s.listTop <+: s'.listTop
      ∧ addrs s'.listTop = insertAll (addrs s.listTop) ((learnedFrom m).map etherNtoa) := by
  by_cases hg : groupFrame m
  · obtain ⟨s', off, hok, htop, -, hinv⟩ := distributePacket_group host hg s
    refine ⟨s', hok, hinv h, by rw [htop], ?_⟩
    rw [htop, learnedFrom, if_pos hg]
    rfl
  · obtain ⟨s', hok, hf⟩ := distributePacket_unicast hh hg h
    refine ⟨s', hok, hf.inv, hf.table, ?_⟩
    rw [hf.learned, learnedFrom, if_neg hg, ← unicastOffs_addrs, List.map_map]
    rfl

/-- The run from any state with the invariant: it succeeds, the table is extended at its end,
and the addresses contributed are inserted in order. -/
theorem run_distributePacket {host : Host} (hh : host.Succeeds) (ms : List EbtUlogPacketMsg)
    {s : Sys} (h : TableInv s) :
    ∃ s', run (distributePacket host) ms s = .ok s' ∧ TableInv s' ∧ s.listTop <+: s'.listTop
      ∧ addrs s'.listTop
          = insertAll (addrs s.listTop) ((ms.flatMap learnedFrom).map etherNtoa) := by
  refine run_ok (I := fun ms s' => TableInv s' ∧ s.listTop <+: s'.listTop
    ∧ addrs s'.listTop = insertAll (addrs s.listTop) ((ms.flatMap learnedFrom).map etherNtoa))
    ⟨h, List.prefix_refl _, rfl⟩ ?_ ms
  rintro ms m s' ⟨hinv, hpre, haddrs⟩
  obtain ⟨s'', hok, hinv', hpre', haddrs'⟩ := distributePacket_table hh m hinv
  refine ⟨s'', hok, hinv', hpre.trans hpre', ?_⟩
  calc addrs s''.listTop
      = insertAll (addrs s'.listTop) ((learnedFrom m).map etherNtoa) := haddrs'
    _ = insertAll (addrs s.listTop)
          ((ms.flatMap learnedFrom).map etherNtoa ++ (learnedFrom m).map etherNtoa) := by
        rw [haddrs, insertAll_append]
    _ = insertAll (addrs s.listTop) (((ms ++ [m]).flatMap learnedFrom).map etherNtoa) := by
        rw [← List.map_append, List.flatMap_append, List.flatMap_singleton]

/-- **The table after a run.** Its addresses are the first occurrences of what the frames
contribute, its nodes are numbered in order, nothing in it occurs twice, and the table after any
first part of the run is a first part of it. -/
theorem table_of_run (host : Host) (hh : host.Succeeds) (ms : List EbtUlogPacketMsg) :
    ∃ s, runDispatch host ms = .ok s
      ∧ addrs s.listTop = ((ms.flatMap learnedFrom).eraseDups).map etherNtoa
      ∧ (∀ k p, s.listTop[k]? = some p → p.tapName = "tap".toList ++ decimal k)
      ∧ (addrs s.listTop).Nodup ∧ (names s.listTop).Nodup ∧ (fds s.listTop).Nodup
      ∧ ∀ ms₁ ms₂, ms = ms₁ ++ ms₂ →
          ∃ s₁, runDispatch host ms₁ = .ok s₁ ∧ s₁.listTop <+: s.listTop := by
  obtain ⟨s, hok, hinv, -, haddrs⟩ := run_distributePacket hh ms TableInv.boot
  refine ⟨s, hok, ?_, fun k p hk => hinv.getElem_tapName hk, hinv.addrs_nodup, hinv.names_nodup,
    hinv.fds_nodup, ?_⟩
  · calc addrs s.listTop
        = insertAll [] ((ms.flatMap learnedFrom).map etherNtoa) := haddrs
      _ = (insertAll [] (ms.flatMap learnedFrom)).map etherNtoa :=
          insertAll_map etherNtoa_injective [] (ms.flatMap learnedFrom)
      _ = ((ms.flatMap learnedFrom).eraseDups).map etherNtoa := by rw [insertAll_nil]
  · -- the run over the whole list goes on from the state after its first part
    rintro ms₁ ms₂ rfl
    obtain ⟨s₁, hok₁, hinv₁, -, -⟩ := run_distributePacket hh ms₁ TableInv.boot
    obtain ⟨s₂, hok₂, -, hpre, -⟩ := run_distributePacket hh ms₂ hinv₁
    have hs : s = s₂ := by
      rw [run_append_ok hok₁, hok₂, Except.ok.injEq] at hok
      exact hok.symm
    exact ⟨s₁, hok₁, hs ▸ hpre⟩

/-- A UDP frame from 192.168.0.2 to 192.168.0.3. -/
def guestFrame : List UInt8 :=
  [0x00, 0x16, 0x3e, 0x0d, 0x58, 0xc1, 0x00, 0xa0, 0xde, 0xaa, 0x5b, 0x89, 0x08, 0x00,
    0x45, 0, 0, 20, 0, 0, 0, 0, 64, 17, 0, 0, 192, 168, 0, 2, 192, 168, 0, 3]

theorem table_of_run_guests :
    ∃ s, runDispatch freshHost
        [.ofBytes [] interfaceDev guestFrame, .ofBytes interfaceDev [] guestFrame] = .ok s
      ∧ addrs s.listTop = ["0:16:3e:d:58:c1".toList, "0:a0:de:aa:5b:89".toList]
      ∧ ∀ k p, s.listTop[k]? = some p → p.tapName = "tap".toList ++ decimal k := by
  obtain ⟨s, hok, haddrs, hnames, -⟩ := table_of_run freshHost freshHost_succeeds
    [.ofBytes [] interfaceDev guestFrame, .ofBytes interfaceDev [] guestFrame]
  exact ⟨s, hok, haddrs.trans (by decide +kernel), hnames⟩

/-! ## Group addresses -/

/-- The addresses 01:00:5e:…, 33:33:… and ff:ff:ff:ff:ff:ff. -/
def isGroupAddr (a : EtherAddr) : Prop :=
  (a.o0 = 0x01 ∧ a.o1 = 0x00 ∧ a.o2 = 0x5e) ∨ (a.o0 = 0x33 ∧ a.o1 = 0x33)
    ∨ a = ⟨0xff, 0xff, 0xff, 0xff, 0xff, 0xff⟩

/-- The texts the tests on a printed address send to `label`. -/
def groupItem (item : CStr) : Prop := (floodOff item).isSome ∨ item = broadcastMac

/-- The tests are made on both addresses, so on every address that could be learned. -/
theorem groupFrame_of_groupItem {m : EbtUlogPacketMsg} {off : Nat} (hoff : off ∈ unicastOffs m)
    (h : groupItem (etherNtoa (m.etherAddr off))) : groupFrame m := by
  rcases mem_unicastOffs hoff with rfl | rfl
  · rcases h with h | h
    · exact Or.inl h
    · exact Or.inr (Or.inr (Or.inl h))
  · rcases h with h | h
    · exact Or.inr (Or.inl h)
    · exact Or.inr (Or.inr (Or.inr (Or.inl h)))

/-- Every group address prints as a text the tests catch. -/
theorem groupItem_etherNtoa {a : EtherAddr} (h : isGroupAddr a) : groupItem (etherNtoa a) := by
  rcases h with h4 | h6 | rfl
  · have hoff := EtherAddr.ipv4Multicast.floodOff_eq h4
    exact Or.inl (by rw [hoff]; rfl)
  · have hoff := EtherAddr.ipv6Multicast.floodOff_eq h6
    exact Or.inl (by rw [hoff]; rfl)
  · exact Or.inr (by decide)

/-- No node of the table has an address that the tests catch. -/
def NoGroupItem (l : List MacList) : Prop := ∀ p ∈ l, ¬ groupItem p.macAdd

theorem NoGroupItem.macListAdd {host : Host} {item : CStr} {s : Sys} (h : NoGroupItem s.listTop)
    (hitem : ¬ groupItem item) :
    NoGroupItem (lastSys (TapProject.macListAdd host item s)).listTop := by
  by_cases hmem : item ∈ addrs s.listTop
  · rw [macListAdd_of_mem host hmem]
    exact h
  · obtain ⟨fd, hfd⟩ := macListAdd_listTop host hmem
    rw [hfd]
    exact List.forall_mem_append.mpr ⟨h, by simpa using hitem⟩

theorem NoGroupItem.learnAndWrite {host : Host} {off : Nat} {m : EbtUlogPacketMsg} {s : Sys}
    (h : NoGroupItem s.listTop) (hitem : ¬ groupItem (etherNtoa (m.etherAddr off))) :
    NoGroupItem (lastSys (TapProject.learnAndWrite host off m s)).listTop := by
  have hadd : NoGroupItem (lastSys (TapProject.macListAdd host (etherNtoa (m.etherAddr off))
      (readAddr off s))).listTop := NoGroupItem.macListAdd (s := readAddr off s) h hitem
  unfold TapProject.learnAndWrite
  cases hr : TapProject.macListAdd host (etherNtoa (m.etherAddr off)) (readAddr off s) with
  | error e => rw [hr] at hadd; exact hadd
  | ok t =>
      rw [hr] at hadd
      simp only
      split
      · exact hadd
      · exact hadd

theorem NoGroupItem.distributePacket {host : Host} {m : EbtUlogPacketMsg} {s : Sys}
    (h : NoGroupItem s.listTop) :
    NoGroupItem (lastSys (TapProject.distributePacket host m s)).listTop := by
  by_cases hg : groupFrame m
  · obtain ⟨s', off, hok, htop, -⟩ := distributePacket_group host hg s
    rw [hok, lastSys_ok, htop]
    exact h
  · have hoff : (groupTest m).2 = none := by
      rw [← Option.not_isSome_iff_eq_none, groupTest_isSome]
      exact hg
    have hitem : ∀ off ∈ unicastOffs m, ¬ groupItem (etherNtoa (m.etherAddr off)) :=
      fun off hmem hi => hg (groupFrame_of_groupItem hmem hi)
    have huni : NoGroupItem (lastSys (unicast host m (s.emit (groupTest m).1))).listTop := by
      rw [unicast_eq_run]
      exact run_result (P := fun r => NoGroupItem (lastSys r).listTop) h
        fun off hmem t ht => NoGroupItem.learnAndWrite ht (hitem off hmem)
    rw [distributePacket_eq, hoff]
    cases hu : unicast host m (s.emit (groupTest m).1) with
    | error e => rw [hu] at huni; exact huni
    | ok t => rw [hu] at huni; exact huni

/-- **No group address ever gets a TAP device**, in whatever state a run ends. -/
theorem no_tap_for_group (host : Host) (ms : List EbtUlogPacketMsg) (a : EtherAddr)
    (ha : isGroupAddr a) :
    ∀ p ∈ (lastSys (runDispatch host ms)).listTop, p.macAdd ≠ etherNtoa a := by
  have hrun : NoGroupItem (lastSys (runDispatch host ms)).listTop :=
    run_result (P := fun r => NoGroupItem (lastSys r).listTop) (by simp [NoGroupItem, Sys.boot])
      fun m _ s hs => NoGroupItem.distributePacket hs
  intro p hp heq
  exact hrun p hp (heq ▸ groupItem_etherNtoa ha)

theorem no_tap_for_group_guest :
    (⟨"0:16:3e:d:58:c1".toList, "tap0".toList, 4⟩ : MacList)
        ∈ (lastSys (runDispatch freshHost [.ofBytes [] interfaceDev guestFrame])).listTop
      ∧ "0:16:3e:d:58:c1".toList ≠ etherNtoa ⟨0x01, 0x00, 0x5e, 0, 0, 0xfb⟩ := by
  have hmem : (⟨"0:16:3e:d:58:c1".toList, "tap0".toList, 4⟩ : MacList)
      ∈ (lastSys (runDispatch freshHost [.ofBytes [] interfaceDev guestFrame])).listTop := by
    decide +kernel
  exact ⟨hmem, no_tap_for_group freshHost _ ⟨0x01, 0x00, 0x5e, 0, 0, 0xfb⟩
    (Or.inl ⟨rfl, rfl, rfl⟩) _ hmem⟩

end TapProject
