import TapProject.Dispatch.Step

set_option autoImplicit false

/-! # What the dispatcher reads behind the captured frame

The length of a `write` is a field of the frame, and the group tests read the frame at fixed
offsets; neither is compared with `data_len`. `OwnBytesOnly` says that a message is handled
without a look behind its captured bytes: the writes are the same whatever follows them in the
receive buffer, and no read goes beyond them. This holds exactly for the frames of which enough
was captured, by their own length field (`ownBytesOnly_iff`). -/

namespace TapProject

open EbtUlogPacketMsg Runs Slices

/-! ## Reads of the frame -/

/-- Where the bytes end that an event reads, counted from `msg->data`. -/
def Event.reach : Event → Nat
  | .load off len => off + len
  | .write _ bytes => bytes.length
  | _ => 0

theorem Event.reach_of_offFrame {e : Event} (h : e.offFrame = true) : e.reach = 0 := by
  cases e <;> simp_all [Event.offFrame, Event.reach]

/-- Two messages with the same header fields and the same captured bytes. -/
structure SameCapture (m m' : EbtUlogPacketMsg) : Prop where
  version : m'.version = m.version
  physindev : m'.physindev = m.physindev
  physoutdev : m'.physoutdev = m.physoutdev
  dataLen : m'.dataLen = m.dataLen
  data : ∀ i, i < m.dataLen → m'.data i = m.data i

/-- Handling `m` with the table `l` issues writes that do not depend on what follows the
captured bytes, and reads nothing behind them. -/
def OwnBytesOnly (l : List MacList) (m : EbtUlogPacketMsg) : Prop :=
  ∀ (host : Host) (s : Sys), s.listTop = l →
    (∀ m', SameCapture m m' → writes (lastSys (distributePacket host m' s)).trace
      = writes (lastSys (distributePacket host m s)).trace)
    ∧ ∃ es, (lastSys (distributePacket host m s)).trace = s.trace ++ es
        ∧ ∀ e ∈ es, e.reach ≤ m.dataLen

/-! ## Which bytes decide -/

/-- How many bytes the group tests read of a frame: one address, both, or all up to the IP
addresses. -/
def testedBytes (m : EbtUlogPacketMsg) : Nat :=
  if (floodOff (etherNtoa m.hDest)).isSome then 6
  else if (floodOff (etherNtoa m.hSource)).isSome ∨ etherNtoa m.hDest = broadcastMac
    ∨ etherNtoa m.hSource = broadcastMac then 12
  else 34

/-- Where the count of the writes is read. -/
def countOff (m : EbtUlogPacketMsg) : Nat :=
  ((floodOff (etherNtoa m.hDest)).or (floodOff (etherNtoa m.hSource))).getD ipLenOff

/-- The frame is written to some node: a group frame to those of the table, any other frame if
it passed the interface. -/
def IsWritten (l : List MacList) (m : EbtUlogPacketMsg) : Prop :=
  if groupFrame m then l ≠ [] else m.physoutdev = interfaceDev ∨ m.physindev = interfaceDev

/-- The captured bytes reach as far as the group tests read and, if the frame is written, as far
as the field with the count and as the count says. -/
structure Captured (l : List MacList) (m : EbtUlogPacketMsg) : Prop where
  tested : testedBytes m ≤ m.dataLen
  count : IsWritten l m → countOff m + 2 ≤ m.dataLen
  counted : IsWritten l m → le16 m.data (countOff m) ≤ m.dataLen

theorem countOff_of_some {m : EbtUlogPacketMsg} {off : Nat} (h : (groupTest m).2 = some off) :
    countOff m = off := by
  unfold countOff
  rcases groupTest_cases m with ⟨off', hd, ht⟩ | ⟨off', hd, hs, ht⟩ | ⟨hd, hs, _, ht⟩
    | ⟨hd, hs, _, _, ht⟩ | ⟨hd, hs, _, _, ht⟩
  · simpa [hd, ht] using h
  · simpa [hd, hs, ht] using h
  · simpa [hd, hs, ht] using h
  · simpa [hd, hs, ht] using h
  · rw [ht, Option.ite_none_right_eq_some] at h
    simpa [hd, hs] using h.2

theorem not_groupFrame_of_none {m : EbtUlogPacketMsg} (h : (groupTest m).2 = none) :
    ¬ groupFrame m := by
  rw [← groupTest_isSome, h]
  simp

theorem countOff_of_none {m : EbtUlogPacketMsg} (h : (groupTest m).2 = none) :
    countOff m = ipLenOff := by
  have hg := not_groupFrame_of_none h
  simp only [groupFrame, not_or, Option.not_isSome_iff_eq_none] at hg
  rw [countOff, hg.1, hg.2.1]
  rfl

theorem testedBytes_of_none {m : EbtUlogPacketMsg} (h : (groupTest m).2 = none) :
    testedBytes m = 34 := by
  have hg := not_groupFrame_of_none h
  simp only [groupFrame, not_or] at hg
  rw [testedBytes, if_neg hg.1, if_neg]
  rintro (h' | h' | h')
  · exact hg.2.1 h'
  · exact hg.2.2.1 h'
  · exact hg.2.2.2.1 h'

/-- The group tests read the first `testedBytes` bytes. -/
theorem testedBytes_le_iff (m : EbtUlogPacketMsg) (n : Nat) :
    testedBytes m ≤ n ↔ ∀ e ∈ (groupTest m).1, e.reach ≤ n := by
  unfold testedBytes
  rcases groupTest_cases m with ⟨off, hd, h⟩ | ⟨off, hd, hs, h⟩ | ⟨hd, hs, hdb, h⟩
    | ⟨hd, hs, hdb, hsb, h⟩ | ⟨hd, hs, hdb, hsb, h⟩
  · simp [h, hd, Event.reach, hDestOff]
  · simp [h, hd, hs, Event.reach, hDestOff, hSourceOff]
    omega
  · rw [if_neg (by simp [hd]), if_pos (Or.inr (Or.inl hdb)), h]
    simp [Event.reach, hDestOff, hSourceOff]
    omega
  · rw [if_neg (by simp [hd]), if_pos (Or.inr (Or.inr hsb)), h]
    simp [Event.reach, hDestOff, hSourceOff]
    omega
  · simp [h, hd, hs, hdb, hsb, Event.reach, hDestOff, hSourceOff, ipSrcOff, ipDstOff,
      SIZE_ETHERNET]
    omega

/-! ## What the run does to the frame -/

/-- From `s` to the result `r`, the run only does what `P` allows. -/
def Emits (P : Event → Prop) (s : Sys) (r : Except Halt Sys) : Prop :=
  ∃ es, (lastSys r).trace = s.trace ++ es ∧ ∀ e ∈ es, P e

variable {P : Event → Prop}

theorem Emits.refl (s : Sys) : Emits P s (.ok s) := ⟨[], by simp, by simp⟩

theorem Emits.trans {s t : Sys} {r : Except Halt Sys} (h : Emits P s (.ok t)) (h' : Emits P t r) :
    Emits P s r := by
  obtain ⟨es, hes, hP⟩ := h
  obtain ⟨fs, hfs, hP'⟩ := h'
  refine ⟨es ++ fs, ?_, List.forall_mem_append.mpr ⟨hP, hP'⟩⟩
  rw [hfs, ← List.append_assoc, ← hes, lastSys_ok]

theorem Emits.emit {es : List Event} (h : ∀ e ∈ es, P e) (s : Sys) : Emits P s (.ok (s.emit es)) :=
  ⟨es, rfl, h⟩

theorem Emits.mem {s : Sys} {r : Except Halt Sys} (h : Emits P s r) {e : Event}
    (he : e ∈ s.trace) : e ∈ (lastSys r).trace := by
  obtain ⟨es, hes, _⟩ := h
  rw [hes]
  exact List.mem_append_left es he

theorem Emits.macListPrint (hP : ∀ e, e.offFrame = true → P e) (s : Sys) :
    Emits P s (.ok (macListPrint s)) := by
  obtain ⟨es, hes, hprint⟩ := macListPrint_emit s
  rw [hes]
  refine Emits.emit (fun e he => ?_) s
  obtain ⟨line, rfl⟩ := hprint e he
  exact hP _ rfl

theorem Emits.macListAdd (hP : ∀ e, e.offFrame = true → P e) (host : Host) (item : CStr)
    (s : Sys) : Emits P s (macListAdd host item s) := by
  obtain ⟨es, hes, hoff⟩ := macListAdd_offFrame host item s
  exact ⟨es, hes, fun e he => hP e (hoff e he)⟩

/-- Whatever the system answers, the unicast sequence reads the address and the count, and
writes as many bytes as the count says. -/
theorem Emits.learnAndWrite (hP : ∀ e, e.offFrame = true → P e) {off : Nat}
    {m : EbtUlogPacketMsg} (haddr : P (.load off 6)) (hfield : P (.load ipLenOff 2))
    (hwrite : ∀ fd, P (.write fd (m.counted ipLenOff))) (host : Host) (s : Sys) :
    Emits P s (learnAndWrite host off m s) := by
  have hread : ∀ t, Emits P t (.ok (readAddr off t)) := fun t =>
    Emits.emit (by simpa using haddr) t
  have hadd := Emits.macListAdd hP host (etherNtoa (m.etherAddr off)) (readAddr off s)
  unfold TapProject.learnAndWrite
  cases hr : TapProject.macListAdd host (etherNtoa (m.etherAddr off)) (readAddr off s) with
  | error e =>
      rw [hr] at hadd
      exact (hread s).trans hadd
  | ok t =>
      rw [hr] at hadd
      have hlookup := ((hread s).trans hadd).trans (hread t)
      simp only
      split
      · exact hlookup
      · next p _ => exact hlookup.trans (Emits.emit (by simp [hfield, hwrite]) _)

theorem Emits.unicast (hP : ∀ e, e.offFrame = true → P e) {m : EbtUlogPacketMsg}
    (haddr : ∀ off ∈ unicastOffs m, P (.load off 6))
    (hfield : unicastOffs m ≠ [] → P (.load ipLenOff 2))
    (hwrite : unicastOffs m ≠ [] → ∀ fd, P (.write fd (m.counted ipLenOff))) (host : Host)
    (s : Sys) : Emits P s (unicast host m s) := by
  rw [unicast_eq_run]
  apply run_result (P := Emits P s) (Emits.refl s)
  intro off hoff t ht
  have hne : unicastOffs m ≠ [] := List.ne_nil_of_mem hoff
  exact ht.trans (Emits.learnAndWrite hP (haddr off hoff) (hfield hne) (hwrite hne) host t)

/-- After `mac_list_add` the address is in the table, whatever else the table holds. -/
theorem macListAdd_known {host : Host} (hh : host.Succeeds) (item : CStr) (s : Sys) :
    ∃ t, macListAdd host item s = .ok t ∧ item ∈ addrs t.listTop := by
  by_cases hmem : item ∈ addrs s.listTop
  · exact ⟨s, macListAdd_of_mem host hmem, hmem⟩
  · refine ⟨_, macListAdd_of_not_mem hh hmem, ?_⟩
    simp [linked]

theorem learnAndWrite_writes {host : Host} (hh : host.Succeeds) (off : Nat)
    (m : EbtUlogPacketMsg) (s : Sys) :
    ∃ t fd, learnAndWrite host off m s = .ok t ∧ .load ipLenOff 2 ∈ t.trace
      ∧ .write fd (m.counted ipLenOff) ∈ t.trace := by
  obtain ⟨t, hadd, hmem⟩ :=
    macListAdd_known hh (etherNtoa (m.etherAddr off)) (readAddr off s)
  obtain ⟨p, hp⟩ := macListCheck_of_mem hmem
  have htop : (readAddr off t).listTop = t.listTop := rfl
  refine ⟨(readAddr off t).emit [.load ipLenOff 2, .write p.tapFdNum (m.counted ipLenOff)],
    p.tapFdNum, by simp only [learnAndWrite, hadd, htop, hp], by simp, by simp⟩

/-- Whatever the table holds, the unicast part comes to its first write. -/
theorem unicast_writes {host : Host} (hh : host.Succeeds) {m : EbtUlogPacketMsg}
    (hne : unicastOffs m ≠ []) (s : Sys) :
    .load ipLenOff 2 ∈ (lastSys (unicast host m s)).trace
      ∧ ∃ fd, .write fd (m.counted ipLenOff) ∈ (lastSys (unicast host m s)).trace := by
  obtain ⟨off, offs, hoffs⟩ := List.exists_cons_of_ne_nil hne
  obtain ⟨t, fd, hok, hload, hwrite⟩ := learnAndWrite_writes hh off m s
  -- what is in the trace stays there
  have hkept : ∀ e ∈ t.trace, e ∈ (lastSys (unicast host m s)).trace := by
    rw [unicast_eq_run, hoffs, run_cons_ok (f := fun off s => learnAndWrite host off m s) hok]
    intro e he
    refine run_result (P := fun r => e ∈ (lastSys r).trace) he fun off' _ u hu => ?_
    exact (Emits.learnAndWrite (P := fun _ => True) (fun _ _ => trivial) trivial trivial
      (fun _ => trivial) host u).mem hu
  exact ⟨hkept _ hload, fd, hkept _ hwrite⟩

theorem mem_distributePacket_some (host : Host) {m : EbtUlogPacketMsg} {off : Nat} {s : Sys}
    (h : (groupTest m).2 = some off) {e : Event}
    (he : e ∈ (groupTest m).1 ++ floodEvents m off s.listTop) :
    e ∈ (lastSys (distributePacket host m s)).trace := by
  rw [distributePacket_eq, h]
  exact (Emits.macListPrint (P := fun _ => True) (fun _ _ => trivial) _).mem
    (List.mem_append_right _ he)

theorem mem_distributePacket_none (host : Host) {m : EbtUlogPacketMsg} {s : Sys}
    (h : (groupTest m).2 = none) {e : Event}
    (he : e ∈ (lastSys (unicast host m (s.emit (groupTest m).1))).trace) :
    e ∈ (lastSys (distributePacket host m s)).trace := by
  rw [distributePacket_eq, h]
  cases hu : unicast host m (s.emit (groupTest m).1) with
  | error e => rwa [hu] at he
  | ok t =>
      rw [hu] at he
      exact (Emits.macListPrint (P := fun _ => True) (fun _ _ => trivial) t).mem he

theorem mem_distributePacket_of_tested (host : Host) {m : EbtUlogPacketMsg} {e : Event}
    (he : e ∈ (groupTest m).1) (s : Sys) : e ∈ (lastSys (distributePacket host m s)).trace := by
  cases h : (groupTest m).2 with
  | some off => exact mem_distributePacket_some host h (List.mem_append_left _ he)
  | none =>
      refine mem_distributePacket_none host h ?_
      exact (Emits.unicast (P := fun _ => True) (fun _ _ => trivial) (fun _ _ => trivial)
        (fun _ => trivial) (fun _ _ => trivial) host _).mem (List.mem_append_right _ he)

/-! ## When enough was captured -/

theorem isWritten_of_some {l : List MacList} {m : EbtUlogPacketMsg} {off : Nat}
    (h : (groupTest m).2 = some off) : IsWritten l m ↔ l ≠ [] := by
  have hg : groupFrame m := (groupTest_isSome m).mp (by rw [h]; rfl)
  rw [IsWritten, if_pos hg]

theorem isWritten_of_none {l : List MacList} {m : EbtUlogPacketMsg}
    (h : (groupTest m).2 = none) : IsWritten l m ↔ unicastOffs m ≠ [] := by
  rw [IsWritten, if_neg (not_groupFrame_of_none h), unicastOffs]
  by_cases hout : m.physoutdev = interfaceDev <;> by_cases hin : m.physindev = interfaceDev <;>
    simp [hout, hin]

/-- Whatever the system answers, the block makes the reads of the group tests, and if the frame is
written, it reads the addresses and the count and writes as many bytes as the count says. -/
theorem Emits.distributePacket (hP : ∀ e, e.offFrame = true → P e) {m : EbtUlogPacketMsg} {s : Sys}
    (htest : ∀ e ∈ (groupTest m).1, P e)
    (haddr : (groupTest m).2 = none → ∀ off ∈ unicastOffs m, P (.load off 6))
    (hfield : IsWritten s.listTop m → P (.load (countOff m) 2))
    (hwrite : IsWritten s.listTop m → ∀ fd, P (.write fd (m.counted (countOff m)))) (host : Host) :
    Emits P s (TapProject.distributePacket host m s) := by
  rw [distributePacket_eq]
  cases ht : (groupTest m).2 with
  | some off =>
      rw [isWritten_of_some ht, countOff_of_some ht] at hfield hwrite
      refine (Emits.emit (List.forall_mem_append.mpr ⟨htest, fun e he => ?_⟩) s).trans
        (Emits.macListPrint hP _)
      obtain ⟨p, hp, hep⟩ := List.mem_flatMap.mp he
      have hne : s.listTop ≠ [] := List.ne_nil_of_mem hp
      simp only [List.mem_cons, List.not_mem_nil, or_false] at hep
      rcases hep with rfl | rfl
      · exact hfield hne
      · exact hwrite hne p.tapFdNum
  | none =>
      rw [isWritten_of_none ht, countOff_of_none ht] at hfield hwrite
      have huni := (Emits.emit htest s).trans
        (Emits.unicast hP (haddr ht) hfield hwrite host (s.emit (groupTest m).1))
      cases hu : TapProject.unicast host m (s.emit (groupTest m).1) with
      | error e => rwa [hu] at huni
      | ok t =>
          rw [hu] at huni
          exact huni.trans (Emits.macListPrint hP t)

/-- What is read of a frame of which enough was captured. -/
theorem Captured.emits {m : EbtUlogPacketMsg} {s : Sys} (h : Captured s.listTop m) (host : Host) :
    Emits (fun e => e.reach ≤ m.dataLen) s (distributePacket host m s) := by
  apply Emits.distributePacket
  case hP =>
    intro e he
    rw [Event.reach_of_offFrame he]
    exact Nat.zero_le _
  case htest => exact (testedBytes_le_iff m m.dataLen).mp h.tested
  case haddr =>
    -- both addresses lie in front of the IP addresses, which were tested
    intro ht off hmem
    have hlen := h.tested
    rw [testedBytes_of_none ht] at hlen
    show off + 6 ≤ m.dataLen
    rcases mem_unicastOffs hmem with rfl | rfl
    · simp only [hDestOff]; omega
    · simp only [hSourceOff]; omega
  case hfield => exact h.count
  case hwrite =>
    intro hw fd
    rw [Event.reach, counted_length]
    exact h.counted hw

/-! ## Two buffers with the same captured bytes -/

variable {m m' : EbtUlogPacketMsg}

theorem SameCapture.etherAddr (h : SameCapture m m') {off : Nat} (hoff : off + 6 ≤ m.dataLen) :
    m'.etherAddr off = m.etherAddr off := by
  simp only [EbtUlogPacketMsg.etherAddr]
  rw [h.data off (by omega), h.data (off + 1) (by omega), h.data (off + 2) (by omega),
    h.data (off + 3) (by omega), h.data (off + 4) (by omega), h.data (off + 5) (by omega)]

theorem SameCapture.le16 (h : SameCapture m m') {off : Nat} (hoff : off + 2 ≤ m.dataLen) :
    le16 m'.data off = le16 m.data off :=
  le16_congr fun i _ hi => h.data i (by omega)

theorem SameCapture.le32 (h : SameCapture m m') {off : Nat} (hoff : off + 4 ≤ m.dataLen) :
    le32 m'.data off = le32 m.data off :=
  le32_congr fun i _ hi => h.data i (by omega)

theorem SameCapture.counted (h : SameCapture m m') {off : Nat} (hoff : off + 2 ≤ m.dataLen)
    (hcount : TapProject.le16 m.data off ≤ m.dataLen) : m'.counted off = m.counted off := by
  rw [EbtUlogPacketMsg.counted, EbtUlogPacketMsg.counted, h.le16 hoff]
  exact slice_congr fun i _ hi => h.data i (by omega)

theorem SameCapture.groupTest (h : SameCapture m m') (hlen : testedBytes m ≤ m.dataLen) :
    groupTest m' = groupTest m := by
  have hdest : 6 ≤ m.dataLen → m'.hDest = m.hDest := fun hl =>
    show m'.etherAddr hDestOff = m.etherAddr hDestOff from h.etherAddr hl
  have hsource : 12 ≤ m.dataLen → m'.hSource = m.hSource := fun hl =>
    show m'.etherAddr hSourceOff = m.etherAddr hSourceOff from h.etherAddr hl
  unfold testedBytes at hlen
  rcases groupTest_cases m with ⟨off, hd, ht⟩ | ⟨off, hd, hs, ht⟩ | ⟨hd, hs, hdb, ht⟩
    | ⟨hd, hs, hdb, hsb, ht⟩ | ⟨hd, hs, hdb, hsb, ht⟩
  · -- the destination is a multicast address
    rw [if_pos (by simp [hd])] at hlen
    rw [ht, TapProject.groupTest, hdest hlen, hd]
  · -- the source is one
    rw [if_neg (by simp [hd]), if_pos (Or.inl (by simp [hs]))] at hlen
    rw [ht, TapProject.groupTest, hdest (by omega), hsource hlen, hd, hs]
  · -- the destination is the broadcast address
    rw [if_neg (by simp [hd]), if_pos (Or.inr (Or.inl hdb))] at hlen
    rw [TapProject.groupTest, hdest (by omega), hsource hlen, ht, hd, hs]
    simp only [if_pos hdb]
  · -- the source is it
    rw [if_neg (by simp [hd]), if_pos (Or.inr (Or.inr hsb))] at hlen
    rw [TapProject.groupTest, hdest (by omega), hsource hlen, ht, hd, hs]
    simp only [if_neg hdb, if_pos hsb]
  · -- none of them, and the IP addresses decide
    rw [if_neg (by simp [hd]), if_neg (by simp [hs, hdb, hsb])] at hlen
    have hip : ipv4Broadcast m' = ipv4Broadcast m := by
      have hsrc : m'.ipSrc = m.ipSrc := h.le32 (by simp only [ipSrcOff, SIZE_ETHERNET]; omega)
      have hdst : m'.ipDst = m.ipDst := h.le32 (by simp only [ipDstOff, SIZE_ETHERNET]; omega)
      rw [ipv4Broadcast, ipv4Broadcast, hsrc, hdst]
    rw [TapProject.groupTest, hdest (by omega), hsource (by omega), ht, hd, hs, hip]
    simp only [if_neg hdb, if_neg hsb]
    rfl

theorem SameCapture.learnAndWrite (h : SameCapture m m') {off : Nat} (hoff : off + 6 ≤ m.dataLen)
    (hcounted : m'.counted ipLenOff = m.counted ipLenOff) (host : Host) (s : Sys) :
    learnAndWrite host off m' s = learnAndWrite host off m s := by
  unfold TapProject.learnAndWrite
  rw [h.etherAddr hoff, hcounted]

theorem SameCapture.unicast (h : SameCapture m m') (hlen : 34 ≤ m.dataLen)
    (hcounted : unicastOffs m ≠ [] → m'.counted ipLenOff = m.counted ipLenOff) (host : Host)
    (s : Sys) : unicast host m' s = unicast host m s := by
  have hoffs : unicastOffs m' = unicastOffs m := by
    rw [unicastOffs, unicastOffs, h.physindev, h.physoutdev]
  rw [unicast_eq_run, unicast_eq_run, hoffs]
  refine run_congr fun off hoff t => h.learnAndWrite ?_ (hcounted (List.ne_nil_of_mem hoff)) host t
  rcases mem_unicastOffs hoff with rfl | rfl
  · simp only [hDestOff]; omega
  · simp only [hSourceOff]; omega

/-- **What follows the captured bytes does not matter when enough was captured.** -/
theorem SameCapture.distributePacket {s : Sys} (h : SameCapture m m')
    (hc : Captured s.listTop m) (host : Host) :
    distributePacket host m' s = distributePacket host m s := by
  rw [distributePacket_eq, distributePacket_eq, h.groupTest hc.tested]
  have hcount := hc.count
  have hcounted := hc.counted
  cases ht : (TapProject.groupTest m).2 with
  | some off =>
      rw [isWritten_of_some ht, countOff_of_some ht] at hcount hcounted
      have hflood : floodEvents m' off s.listTop = floodEvents m off s.listTop :=
        List.flatMap_congr fun p hp => by
          have hne : s.listTop ≠ [] := List.ne_nil_of_mem hp
          rw [h.counted (hcount hne) (hcounted hne)]
      simp only [hflood]
  | none =>
      rw [isWritten_of_none ht, countOff_of_none ht] at hcount hcounted
      have hlen := hc.tested
      rw [testedBytes_of_none ht] at hlen
      simp only [h.unicast hlen (fun hne => h.counted (hcount hne) (hcounted hne)) host]

/-- A frame that is written has its count read and as many bytes written, on a system on which
every call succeeds. -/
theorem mem_distributePacket_of_isWritten {host : Host} (hh : host.Succeeds) {s : Sys}
    (hw : IsWritten s.listTop m) :
    .load (countOff m) 2 ∈ (lastSys (distributePacket host m s)).trace
      ∧ ∃ fd, .write fd (m.counted (countOff m)) ∈ (lastSys (distributePacket host m s)).trace := by
  cases ht : (groupTest m).2 with
  | some off =>
      rw [isWritten_of_some ht] at hw
      obtain ⟨p, l, hl⟩ := List.exists_cons_of_ne_nil hw
      rw [countOff_of_some ht]
      have hflood : ∀ e ∈ [.load off 2, .write p.tapFdNum (m.counted off)],
          e ∈ (groupTest m).1 ++ floodEvents m off s.listTop := fun e he =>
        List.mem_append_right _ (by rw [hl]; exact List.mem_append_left _ he)
      exact ⟨mem_distributePacket_some host ht (hflood _ (by simp)), p.tapFdNum,
        mem_distributePacket_some host ht (hflood _ (by simp))⟩
  | none =>
      rw [isWritten_of_none ht] at hw
      rw [countOff_of_none ht]
      obtain ⟨hload, fd, hwrite⟩ := unicast_writes hh hw (s.emit (groupTest m).1)
      exact ⟨mem_distributePacket_none host ht hload, fd, mem_distributePacket_none host ht hwrite⟩

/-- A frame that is handled by its own bytes only was captured far enough: the tests are made and
the frame is written, and both are reads. -/
theorem captured_of_ownBytesOnly {l : List MacList} (h : OwnBytesOnly l m) : Captured l m := by
  obtain ⟨-, es, hes, hreach⟩ := h freshHost ⟨l, [], []⟩ rfl
  have hall : ∀ e ∈ (lastSys (distributePacket freshHost m ⟨l, [], []⟩)).trace,
      e.reach ≤ m.dataLen := by
    rw [hes, List.nil_append]
    exact hreach
  constructor
  case tested =>
    apply (testedBytes_le_iff m m.dataLen).mpr
    intro e he
    exact hall e (mem_distributePacket_of_tested freshHost he _)
  case count =>
    intro hw
    exact hall _ (mem_distributePacket_of_isWritten freshHost_succeeds (s := ⟨l, [], []⟩) hw).1
  case counted =>
    intro hw
    obtain ⟨-, fd, hwrite⟩ :=
      mem_distributePacket_of_isWritten freshHost_succeeds (s := ⟨l, [], []⟩) hw
    have := hall _ hwrite
    rwa [Event.reach, counted_length] at this

/-- **A frame is handled by its own bytes only exactly when enough of it was captured**: all that
the group tests read of it and, if it is written, the field with the count and as many bytes as
the count says. -/
theorem ownBytesOnly_iff (l : List MacList) (m : EbtUlogPacketMsg) :
    OwnBytesOnly l m ↔ Captured l m := by
  constructor
  · exact captured_of_ownBytesOnly
  · intro hc host s hl
    rw [← hl] at hc
    constructor
    · intro m' hm'
      rw [hm'.distributePacket hc host]
    · exact hc.emits host

/-- A broadcast frame of 34 bytes from 192.168.0.2: its IP length is 20, which the field holds
in network order. -/
def broadcastFrame : List UInt8 :=
  [0xff, 0xff, 0xff, 0xff, 0xff, 0xff, 0x00, 0xa0, 0xde, 0xaa, 0x5b, 0x89, 0x08, 0x00,
    0x45, 0, 0, 20, 0, 0, 0, 0, 64, 17, 0, 0, 192, 168, 0, 2, 192, 168, 0, 255]

/-- The frame as it was captured, in a buffer that holds `rest` behind it. -/
def broadcastMsg (rest : UInt8) : EbtUlogPacketMsg :=
  ⟨1, [], interfaceDev, 0, 34, fun i => broadcastFrame.getD i rest⟩

/-- The table with one guest in it. -/
def oneGuest : Sys := ⟨[⟨"0:16:3e:d:58:c1".toList, "tap0".toList, 4⟩], [], []⟩

theorem not_ownBytesOnly_broadcast :
    SameCapture (broadcastMsg 0) (broadcastMsg 1)
      ∧ writes (lastSys (distributePacket freshHost (broadcastMsg 1) oneGuest)).trace
          ≠ writes (lastSys (distributePacket freshHost (broadcastMsg 0) oneGuest)).trace
      ∧ ¬ OwnBytesOnly oneGuest.listTop (broadcastMsg 0) := by
  have hsame : SameCapture (broadcastMsg 0) (broadcastMsg 1) :=
    ⟨rfl, rfl, rfl, rfl, by decide⟩
  have hne : writes (lastSys (distributePacket freshHost (broadcastMsg 1) oneGuest)).trace
      ≠ writes (lastSys (distributePacket freshHost (broadcastMsg 0) oneGuest)).trace := by
    have htest : (groupTest (broadcastMsg 0)).2 = some ipLenOff := by decide
    have htest' : (groupTest (broadcastMsg 1)).2 = some ipLenOff := by decide
    rw [writes_distributePacket_some freshHost htest,
      writes_distributePacket_some freshHost htest']
    intro h
    have hcounted : (broadcastMsg 1).counted ipLenOff = (broadcastMsg 0).counted ipLenOff := by
      simpa [oneGuest, writes] using h
    have hlen : ∀ rest, le16 (broadcastMsg rest).data ipLenOff = 5120 := fun rest => by rfl
    have hbyte := congrArg (fun l => l[34]?) hcounted
    simp only [counted, hlen, slice] at hbyte
    simp [broadcastMsg, broadcastFrame] at hbyte
  exact ⟨hsame, hne, fun h => hne ((h freshHost oneGuest rfl).1 _ hsame)⟩

end TapProject
