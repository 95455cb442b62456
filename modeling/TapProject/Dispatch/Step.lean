import TapProject.Dispatch.Distribute
import TapProject.Lib.Runs

set_option autoImplicit false

/-! # One message

What one message does to the table and which writes it issues, from any state with the table
invariant, when the system's calls succeed. The unicast part is a run of learn-lookup-write
sequences over the addresses the frame is forwarded for (`unicast_eq_run`), so its effect is an
induction over that run (`unicast_ok`); `distributePacket_unicast` puts the group tests before
it. -/

namespace TapProject

open EbtUlogPacketMsg Insertion Runs

/-- The descriptors of the nodes with the address `item`. -/
def portsOf (item : CStr) (l : List MacList) : List Int :=
  (l.filter fun p => p.macAdd = item).map (·.tapFdNum)

theorem portsOf_of_check {item : CStr} {l : List MacList} {p : MacList}
    (hnd : (addrs l).Nodup) (h : macListCheck item l = some p) : portsOf item l = [p.tapFdNum] := by
  rw [portsOf, filter_macAdd_of_check hnd h]
  rfl

/-- A table that grows without repeating an address keeps the port of an address it had. -/
theorem portsOf_prefix {item : CStr} {l l' : List MacList} (hl : l <+: l')
    (hnd : (addrs l').Nodup) (hmem : item ∈ addrs l) : portsOf item l' = portsOf item l := by
  obtain ⟨ext, rfl⟩ := hl
  rw [addrs_append, List.nodup_append] at hnd
  have hext : ext.filter (fun p => p.macAdd = item) = [] := by
    rw [List.filter_eq_nil_iff]
    intro p hp hpi
    have hpi' : p.macAdd = item := by simpa using hpi
    exact hnd.2.2 item hmem p.macAdd (List.mem_map_of_mem hp) hpi'.symm
  rw [portsOf, List.filter_append, hext, List.append_nil, portsOf]

/-! ## The unicast part as a run -/

/-- Where the addresses are that a frame is forwarded for, in the order of the block. -/
def unicastOffs (m : EbtUlogPacketMsg) : List Nat :=
  (if m.physoutdev = interfaceDev then [hDestOff] else [])
    ++ (if m.physindev = interfaceDev then [hSourceOff] else [])

theorem mem_unicastOffs {m : EbtUlogPacketMsg} {off : Nat} (h : off ∈ unicastOffs m) :
    off = hDestOff ∨ off = hSourceOff := by
  rcases List.mem_append.mp h with h | h
  · split at h
    · exact Or.inl (List.mem_singleton.mp h)
    · exact absurd h List.not_mem_nil
  · split at h
    · exact Or.inr (List.mem_singleton.mp h)
    · exact absurd h List.not_mem_nil

theorem unicast_eq_run (host : Host) (m : EbtUlogPacketMsg) (s : Sys) :
    unicast host m s = run (fun off s => learnAndWrite host off m s) (unicastOffs m) s := by
  unfold unicast unicastOffs
  -- the second half, from any state
  have hsource : ∀ t,
      (if m.physindev = interfaceDev then learnAndWrite host hSourceOff m t else .ok t)
      = run (fun off s => learnAndWrite host off m s)
          (if m.physindev = interfaceDev then [hSourceOff] else []) t := by
    intro t
    split
    · rw [run_singleton]
    · rw [run_nil]
  by_cases hout : m.physoutdev = interfaceDev
  · rw [if_pos hout, if_pos hout]
    cases h : learnAndWrite host hDestOff m s with
    | error e => exact (run_cons_error (f := fun off s => learnAndWrite host off m s) h _).symm
    | ok t =>
        rw [List.singleton_append, run_cons_ok (f := fun off s => learnAndWrite host off m s) h]
        exact hsource t
  · rw [if_neg hout, if_neg hout, List.nil_append]
    exact hsource s

/-- The writes to the ports that the addresses at `offs` have in the table `l`. -/
def unicastWrites (m : EbtUlogPacketMsg) (offs : List Nat) (l : List MacList) :
    List (Int × List UInt8) :=
  offs.flatMap fun off => (portsOf (etherNtoa (m.etherAddr off)) l).map (·, m.counted ipLenOff)

/-- What holds after the addresses at `offs` were learned and written, starting from `s`. -/
structure Forwarded (m : EbtUlogPacketMsg) (s : Sys) (offs : List Nat) (t : Sys) : Prop where
  inv : TableInv t
  table : s.listTop <+: t.listTop
  learned : addrs t.listTop
    = insertAll (addrs s.listTop) (offs.map fun off => etherNtoa (m.etherAddr off))
  known : ∀ off ∈ offs, etherNtoa (m.etherAddr off) ∈ addrs t.listTop
  onePort : ∀ off ∈ offs, (portsOf (etherNtoa (m.etherAddr off)) t.listTop).length = 1
  written : writes t.trace = writes s.trace ++ unicastWrites m offs t.listTop

theorem writes_emit_load (s : Sys) (off len : Nat) :
    writes (s.emit [.load off len]).trace = writes s.trace := by
  rw [Sys.emit_trace, writes_append]
  exact List.append_nil _

/-- Learning an address makes it known, keeps the table invariant and writes once, to the one
port of the address. -/
theorem learnAndWrite_ok {host : Host} (hh : host.Succeeds) {s : Sys} (h : TableInv s) (off : Nat)
    (m : EbtUlogPacketMsg) :
    ∃ t fd, learnAndWrite host off m s = .ok t ∧ TableInv t ∧ s.listTop <+: t.listTop
      ∧ addrs t.listTop = insertNew (addrs s.listTop) (etherNtoa (m.etherAddr off))
      ∧ portsOf (etherNtoa (m.etherAddr off)) t.listTop = [fd]
      ∧ writes t.trace = writes s.trace ++ [(fd, m.counted ipLenOff)] := by
  have hread : TableInv (readAddr off s) := h.emit (by simp [Event.isFd])
  obtain ⟨t, hadd, ht, haddrs, hpre, es, hes, hoff⟩ :=
    hread.macListAdd hh (etherNtoa (m.etherAddr off))
  have hmem : etherNtoa (m.etherAddr off) ∈ addrs t.listTop := by
    rw [haddrs, mem_insertNew]; exact Or.inr rfl
  obtain ⟨p, hp⟩ := macListCheck_of_mem hmem
  have hwrites : writes t.trace = writes s.trace := by
    have hnil : writes es = [] := writes_eq_nil fun e he => by
      have := hoff e he
      cases e <;> simp_all [Event.offFrame, Event.isWrite]
    rw [hes, writes_append, hnil, List.append_nil]
    exact writes_emit_load s off 6
  refine ⟨(readAddr off t).emit [.load ipLenOff 2, .write p.tapFdNum (m.counted ipLenOff)],
    p.tapFdNum, ?_, ?_, hpre, haddrs, portsOf_of_check ht.addrs_nodup hp, ?_⟩
  · have htop : (readAddr off t).listTop = t.listTop := rfl
    simp only [learnAndWrite, hadd, htop, hp]
  · exact (ht.emit (by simp [Event.isFd])).emit (by simp [Event.isFd])
  · rw [Sys.emit_trace, writes_append, readAddr, writes_emit_load, hwrites]
    rfl

/-- One more address. -/
theorem Forwarded.step {host : Host} (hh : host.Succeeds) {m : EbtUlogPacketMsg} {s t : Sys}
    {offs : List Nat} (h : Forwarded m s offs t) (off : Nat) :
    ∃ t', learnAndWrite host off m t = .ok t' ∧ Forwarded m s (offs ++ [off]) t' := by
  obtain ⟨t', fd, hok, hinv, hpre, haddrs, hport, hwritten⟩ := learnAndWrite_ok hh h.inv off m
  have hkept : ∀ o ∈ offs, portsOf (etherNtoa (m.etherAddr o)) t'.listTop
      = portsOf (etherNtoa (m.etherAddr o)) t.listTop := fun o ho =>
    portsOf_prefix hpre hinv.addrs_nodup (h.known o ho)
  refine ⟨t', hok, hinv, h.table.trans hpre, ?_, ?_, ?_, ?_⟩
  · -- learned
    rw [haddrs, h.learned, List.map_append, insertAll_append]
    rfl
  · -- known
    intro o ho
    rw [haddrs, mem_insertNew]
    rcases List.mem_append.mp ho with ho | ho
    · exact Or.inl (h.known o ho)
    · exact Or.inr (by rw [List.mem_singleton.mp ho])
  · -- onePort
    intro o ho
    rcases List.mem_append.mp ho with ho | ho
    · rw [hkept o ho, h.onePort o ho]
    · rw [List.mem_singleton.mp ho, hport]; rfl
  · -- written: the ports of the addresses before are the same in the longer table
    have hold : unicastWrites m offs t'.listTop = unicastWrites m offs t.listTop := by
      simp only [unicastWrites]
      exact List.flatMap_congr fun o ho => by rw [hkept o ho]
    have hnew : unicastWrites m (offs ++ [off]) t'.listTop
        = unicastWrites m offs t.listTop ++ [(fd, m.counted ipLenOff)] := by
      rw [← hold]
      simp [unicastWrites, hport]
    calc writes t'.trace
        = writes t.trace ++ [(fd, m.counted ipLenOff)] := hwritten
      _ = writes s.trace ++ unicastWrites m offs t.listTop ++ [(fd, m.counted ipLenOff)] := by
          rw [h.written]
      _ = writes s.trace ++ unicastWrites m (offs ++ [off]) t'.listTop := by
          rw [hnew, List.append_assoc]

/-- **The unicast part succeeds and forwards the frame once for each of its addresses.** -/
theorem unicast_ok {host : Host} (hh : host.Succeeds) {s : Sys} (h : TableInv s)
    (m : EbtUlogPacketMsg) :
    ∃ t, unicast host m s = .ok t ∧ Forwarded m s (unicastOffs m) t := by
  rw [unicast_eq_run]
  refine run_ok (I := Forwarded m s) ?_ (fun offs off t ht => ht.step hh off) (unicastOffs m)
  exact ⟨h, List.prefix_refl _, rfl, by simp, by simp, by simp [unicastWrites]⟩

/-! ## The whole block -/

theorem groupTest_loads (m : EbtUlogPacketMsg) :
    ∀ e ∈ (groupTest m).1, ∃ off len, e = .load off len := by
  rcases groupTest_cases m with ⟨off, _, h⟩ | ⟨off, _, _, h⟩ | ⟨_, _, _, h⟩ | ⟨_, _, _, _, h⟩
    | ⟨_, _, _, _, h⟩ <;> simp [h]

theorem writes_loads {es : List Event} (h : ∀ e ∈ es, ∃ off len, e = .load off len) :
    writes es = [] :=
  writes_eq_nil fun e he => by
    obtain ⟨off, len, rfl⟩ := h e he
    rfl

theorem not_fd_loads {es : List Event} (h : ∀ e ∈ es, ∃ off len, e = .load off len) :
    ∀ e ∈ es, e.isFd = false := fun e he => by
  obtain ⟨off, len, rfl⟩ := h e he
  rfl

theorem writes_macListPrint (s : Sys) : writes (macListPrint s).trace = writes s.trace := by
  obtain ⟨es, hes, hprint⟩ := macListPrint_emit s
  have hnil : writes es = [] := writes_eq_nil fun e he => by
    obtain ⟨line, rfl⟩ := hprint e he
    rfl
  rw [hes, Sys.emit_trace, writes_append, hnil, List.append_nil]

theorem writes_distributePacket_some (host : Host) {m : EbtUlogPacketMsg} {off : Nat}
    (h : (groupTest m).2 = some off) (s : Sys) :
    writes (lastSys (distributePacket host m s)).trace
      = writes s.trace ++ s.listTop.map (fun p => (p.tapFdNum, m.counted off)) := by
  rw [distributePacket_eq, h, lastSys_ok, writes_macListPrint, Sys.emit_trace, writes_append,
    writes_append, writes_loads (groupTest_loads m), writes_floodEvents, List.nil_append]

/-- **A group frame is flooded to every node once and leaves the table alone.** -/
theorem distributePacket_group (host : Host) {m : EbtUlogPacketMsg} (hg : groupFrame m) (s : Sys) :
    ∃ s' off, distributePacket host m s = .ok s' ∧ s'.listTop = s.listTop
      ∧ writes s'.trace = writes s.trace ++ s.listTop.map (fun p => (p.tapFdNum, m.counted off))
      ∧ (TableInv s → TableInv s') := by
  obtain ⟨off, hoff⟩ := Option.isSome_iff_exists.mp ((groupTest_isSome m).mpr hg)
  have hwrites := writes_distributePacket_some host hoff s
  rw [distributePacket_eq, hoff] at hwrites ⊢
  refine ⟨_, off, rfl, rfl, hwrites, fun h => (h.emit ?_).macListPrint⟩
  exact List.forall_mem_append.mpr
    ⟨not_fd_loads (groupTest_loads m), floodEvents_not_fd m off s.listTop⟩

/-- **Any other frame is forwarded once for each of its addresses.** -/
theorem distributePacket_unicast {host : Host} (hh : host.Succeeds) {m : EbtUlogPacketMsg}
    (hg : ¬ groupFrame m) {s : Sys} (h : TableInv s) :
    ∃ s', distributePacket host m s = .ok s' ∧ Forwarded m s (unicastOffs m) s' := by
  have hoff : (groupTest m).2 = none := by
    rw [← Option.not_isSome_iff_eq_none, groupTest_isSome]
    exact hg
  have hloads := groupTest_loads m
  obtain ⟨t, hok, ht⟩ := unicast_ok hh (h.emit (not_fd_loads hloads)) m
  refine ⟨macListPrint t, ?_, ?_⟩
  · rw [distributePacket_eq, hoff, hok]
  · refine ⟨ht.inv.macListPrint, ht.table, ht.learned, ht.known, ht.onePort, ?_⟩
    rw [writes_macListPrint, ht.written, Sys.emit_trace, writes_append, writes_loads hloads,
      List.append_nil]
    rfl

end TapProject
