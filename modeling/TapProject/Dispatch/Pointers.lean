import TapProject.Dispatch.Discipline
import TapProject.MacList.PointerRuns

set_option autoImplicit false

/-! # The dispatcher on the table in memory

The dispatcher of `write_tap_v5.c` once more, with the table as its nodes lie in memory: the floods
follow the links from `list_top` on, and the unicast part writes through the pointer that
`mac_list_check` returned. Whatever the system answers, it does what the dispatcher on the list
does (`Refines.mainBody`). When a device cannot be opened, the node that is linked by then is left
without its own link, and the program exits before anything follows it. -/

namespace TapProject.Pointers

open Cells Chains Insertion Loops Runs EbtUlogPacketMsg

/-! ## The functions -/

/-- `write(p->tap_fd_num, msg->data, <field>)` with the count at `off`. -/
def Mem.writeFrame (m : Mem) (p : Ptr) (msg : EbtUlogPacketMsg) (off : Nat) : Except Halt Mem := do
  let fd ← m.read p (·.tapFdNum)
  .ok (m.emit [.load off 2, .write fd (msg.counted off)])

def writeTurn (msg : EbtUlogPacketMsg) (off : Nat) : Ptr × Mem → Except Halt (Turn (Ptr × Mem) Mem)
  | (none, m) => .ok (.leave m)
  | (some a, m) => do
      let m ← m.writeFrame (some a) msg off
      let next ← m.read (some a) (·.macListNext)
      .ok (.again (next, m))

/-- `p = list_top; while(p != MAC_LIST_TAIL){ write(...); p = p->mac_list_next; }` -/
def writeAll (msg : EbtUlogPacketMsg) (off : Nat) (m : Mem) : Except Halt Mem :=
  m.while (writeTurn msg off) (m.listTop, m)

def writePacketForMulticastadd (item : CStr) (msg : EbtUlogPacketMsg) (m : Mem) :
    Except Halt (Int × Mem) := do
  let multicastMacaddTemp := strncpy 6 item
  if multicastMacaddTemp = multicastMacaddIpv4 then .ok (1, ← writeAll msg ipLenOff m)
  else if multicastMacaddTemp = multicastMacaddIpv6 then .ok (1, ← writeAll msg ip6PlenOff m)
  else .ok (0, m)

def writePacketForBroadcastadd (msg : EbtUlogPacketMsg) (m : Mem) : Except Halt (Int × Mem) := do
  let m := m.emit [.load ipSrcOff 4, .load ipDstOff 4]
  let tempSrc := strncpy 2 (hex msg.ipSrc)
  let tempDst := strncpy 2 (hex msg.ipDst)
  if broadcastMacaddIpv4 = tempSrc ∨ broadcastMacaddIpv4 = tempDst then
    .ok (1, ← writeAll msg ipLenOff m)
  else .ok (0, m)

def writePacketForBroadcastMacadd (msg : EbtUlogPacketMsg) (m : Mem) :
    Except Halt (Int × Mem) := do
  .ok (1, ← writeAll msg ipLenOff m)

def readAddr (off : Nat) (m : Mem) : Mem := m.emit [.load off 6]

/-- The unicast sequence for the address at `off`. -/
def learnAndWrite (host : Host) (alloc : Alloc) (off : Nat) (msg : EbtUlogPacketMsg) (m : Mem) :
    Except Halt Mem := do
  let m ← macListAdd host alloc (etherNtoa (msg.etherAddr off)) (readAddr off m)
  let m := readAddr off m
  let tempMacPointer ← macListCheck (etherNtoa (msg.etherAddr off)) m
  m.writeFrame tempMacPointer msg ipLenOff

/-- The part of the block after the group tests. -/
def unicast (host : Host) (alloc : Alloc) (msg : EbtUlogPacketMsg) (m : Mem) : Except Halt Mem :=
  (if msg.physoutdev = interfaceDev then learnAndWrite host alloc hDestOff msg m else .ok m)
    >>= fun m =>
  if msg.physindev = interfaceDev then learnAndWrite host alloc hSourceOff msg m else .ok m

def distributePacket (host : Host) (alloc : Alloc) (msg : EbtUlogPacketMsg) (m : Mem) :
    Except Halt Mem := do
  let (r, m) ← writePacketForMulticastadd (etherNtoa msg.hDest) msg (readAddr hDestOff m)
  if r = 1 then macListPrint m else
  let (r, m) ← writePacketForMulticastadd (etherNtoa msg.hSource) msg (readAddr hSourceOff m)
  if r = 1 then macListPrint m else
  let m := readAddr hDestOff m
  if etherNtoa msg.hDest = broadcastMac then
    macListPrint (← writePacketForBroadcastMacadd msg m).2 else
  let m := readAddr hSourceOff m
  if etherNtoa msg.hSource = broadcastMac then
    macListPrint (← writePacketForBroadcastMacadd msg m).2 else
  let (r, m) ← writePacketForBroadcastadd msg m
  if r = 1 then macListPrint m else
  let m ← unicast host alloc msg m
  macListPrint m

def lastMem : Except Halt Mem → Mem
  | .ok m => m
  | .error h => h.mem

/-- The names of the nodes that were allocated fit their arrays, or the run ends here. -/
def checkNames (r : Except Halt Mem) : Except Halt Mem :=
  if NamesFit (lastMem r).heap.keys.card then r else .error ⟨.program .overrun, lastMem r⟩

/-- The body of `main`'s loop for a message that was received. -/
def mainBody (localtime : Int → Bool) (host : Host) (alloc : Alloc) (msg : EbtUlogPacketMsg)
    (m : Mem) : Except Halt Mem :=
  if msg.version ≠ EBT_ULOG_VERSION then
    .ok (m.emit [.print ("WRONG VERSION: ".toList ++ signed msg.version ++ " INSTEAD OF ".toList
      ++ signed EBT_ULOG_VERSION)])
  else if ¬ localtime msg.stamp then .error ⟨.program .nullDeref, m⟩
  else checkNames (distributePacket host alloc msg m)

/-! ## Each refines the function on the list -/

variable {m : Mem} {s : Sys} {l : Nodes}

theorem Refines.emit (h : Refines m s l) (es : List Event) : Refines (m.emit es) (s.emit es) l :=
  ⟨h.shape, h.table, h.cmdStr, congrArg (· ++ es) h.trace⟩

theorem Shape.writeFrame {a : Addr} {p : MacList} {q : Ptr}
    (h : m.heap.lookup a = some (written p q)) (msg : EbtUlogPacketMsg) (off : Nat) :
    m.writeFrame (some a) msg off
      = .ok (m.emit [.load off 2, .write p.tapFdNum (msg.counted off)]) := by
  have hread : m.read (some a) (·.tapFdNum) = .ok p.tapFdNum := Mem.read_of_lookup h rfl
  simp only [Mem.writeFrame, hread, ok_bind]

/-- **A flood in memory** writes to the descriptors of the nodes, in the order of the links. -/
theorem Shape.writeAll (h : Shape m l) (msg : EbtUlogPacketMsg) (off : Nat) :
    writeAll msg off m = .ok (m.emit (floodEvents msg off (l.map Prod.snd))) := by
  have hloop : ∃ m', m.while (writeTurn msg off) (m.listTop, m) = .ok m'
      ∧ m' = m.emit (floodEvents msg off (l.map Prod.snd)) := by
    apply h.while_along (I := fun xs s => Seg written m.heap s.1 xs none
      ∧ ∃ ys, l = ys ++ xs ∧ s.2 = m.emit (floodEvents msg off (ys.map Prod.snd)))
    case hnil =>
      rintro ⟨p, m'⟩ ⟨hseg, ys, hys, hm'⟩
      obtain rfl : p = none := seg_nil_iff.mp hseg
      rw [List.append_nil] at hys
      exact ⟨m', rfl, hys ▸ hm'⟩
    case hcons =>
      rintro ⟨a, b⟩ xs ⟨p, m'⟩ ⟨hseg, ys, hys, hm'⟩
      obtain ⟨rfl, q, ha, hseg⟩ := seg_cons_iff.mp hseg
      have hm' : m' = m.emit (floodEvents msg off (ys.map Prod.snd)) := hm'
      -- what was written so far did not touch the heap
      have ha' : m'.heap.lookup a = some (written b q) := by rw [hm']; exact ha
      have hnext : (m'.emit [.load off 2, .write b.tapFdNum (msg.counted off)]).read (some a)
          (·.macListNext) = .ok q := Mem.read_of_lookup (m := m'.emit _) ha' rfl
      refine Or.inl ⟨(q, m'.emit [.load off 2, .write b.tapFdNum (msg.counted off)]), ?_, hseg,
        ys ++ [(a, b)], ?_, ?_⟩
      · simp only [writeTurn, Shape.writeFrame ha', ok_bind, hnext]
      · rw [hys, List.append_assoc]
        rfl
      · show m'.emit _ = _
        rw [hm']
        simp [Mem.emit, floodEvents]
    case hs => exact ⟨h.chain, [], rfl, by simp [Mem.emit, floodEvents]⟩
  obtain ⟨m', hm', rfl⟩ := hloop
  exact hm'

theorem Refines.writeAll (h : Refines m s l) (msg : EbtUlogPacketMsg) (off : Nat) :
    ∃ m', writeAll msg off m = .ok m'
      ∧ Refines m' (TapProject.writeAll msg off s.listTop s) l := by
  refine ⟨_, h.shape.writeAll msg off, ?_⟩
  rw [writeAll_eq, h.table]
  exact h.emit _

theorem Refines.writePacketForMulticastadd (h : Refines m s l) (item : CStr)
    (msg : EbtUlogPacketMsg) :
    ∃ m', writePacketForMulticastadd item msg m
        = .ok ((TapProject.writePacketForMulticastadd item msg s).1, m')
      ∧ Refines m' (TapProject.writePacketForMulticastadd item msg s).2 l := by
  simp only [Pointers.writePacketForMulticastadd, TapProject.writePacketForMulticastadd]
  split
  · obtain ⟨m', hok, h'⟩ := h.writeAll msg ipLenOff
    exact ⟨m', by rw [hok]; rfl, h'⟩
  · split
    · obtain ⟨m', hok, h'⟩ := h.writeAll msg ip6PlenOff
      exact ⟨m', by rw [hok]; rfl, h'⟩
    · exact ⟨m, rfl, h⟩

theorem Refines.writePacketForBroadcastadd (h : Refines m s l) (msg : EbtUlogPacketMsg) :
    ∃ m', writePacketForBroadcastadd msg m
        = .ok ((TapProject.writePacketForBroadcastadd msg s).1, m')
      ∧ Refines m' (TapProject.writePacketForBroadcastadd msg s).2 l := by
  have hread := h.emit [.load ipSrcOff 4, .load ipDstOff 4]
  simp only [Pointers.writePacketForBroadcastadd, TapProject.writePacketForBroadcastadd]
  split
  · obtain ⟨m', hok, h'⟩ := hread.writeAll msg ipLenOff
    exact ⟨m', by rw [hok]; rfl, h'⟩
  · exact ⟨_, rfl, hread⟩

theorem Refines.writePacketForBroadcastMacadd (h : Refines m s l) (msg : EbtUlogPacketMsg) :
    ∃ m', writePacketForBroadcastMacadd msg m
        = .ok ((TapProject.writePacketForBroadcastMacadd msg s).1, m')
      ∧ Refines m' (TapProject.writePacketForBroadcastMacadd msg s).2 l := by
  obtain ⟨m', hok, h'⟩ := h.writeAll msg ipLenOff
  exact ⟨m', by simp only [Pointers.writePacketForBroadcastMacadd, hok]; rfl, h'⟩

/-! ## The dispatcher -/

/-- The memory holds the table of the state. -/
def InStep (m : Mem) (s : Sys) : Prop := ∃ l, Refines m s l

theorem Refines.agree_print (h : Refines m s l) :
    Agree InStep SameExit (Pointers.macListPrint m) (.ok (TapProject.macListPrint s)) := by
  obtain ⟨m', hok, h'⟩ := h.macListPrint
  rw [hok]
  exact ⟨l, h'⟩

/-- Both bodies ended with as many nodes made, so their names fit alike. -/
theorem checkNames_agree {r : Except Halt Mem} {r' : Except TapProject.Halt Sys}
    (h : Agree InStep SameExit r r') :
    Agree InStep SameExit (checkNames r) (TapProject.checkNames r') := by
  have hlast : (lastMem r).heap.keys.card = (lastSys r').listTop.length
      ∧ (lastMem r).trace = (lastSys r').trace := by
    rcases r with e | m <;> rcases r' with e' | s
    case error.error => exact ⟨h.card, h.trace⟩
    case error.ok => exact h.elim
    case ok.error => exact h.elim
    case ok.ok =>
      obtain ⟨l, hl⟩ := h
      exact ⟨hl.card_eq, hl.trace⟩
  unfold checkNames TapProject.checkNames
  rw [hlast.1]
  exact h.ite ⟨rfl, hlast.2, hlast.1⟩

section

variable (host : Host) {alloc : Alloc} (ha : Succeeds alloc)

include ha

/-- **The pointer that the frame is written through leads to a node of the table.** -/
theorem Refines.learnAndWrite (h : Refines m s l) (off : Nat) (msg : EbtUlogPacketMsg) :
    Agree InStep SameExit (Pointers.learnAndWrite host alloc off msg m)
      (TapProject.learnAndWrite host off msg s) := by
  have hadd := (h.emit [.load off 6]).macListAdd host ha (etherNtoa (msg.etherAddr off))
  simp only [Pointers.learnAndWrite, TapProject.learnAndWrite, readAddr, TapProject.readAddr]
  generalize Pointers.macListAdd host alloc (etherNtoa (msg.etherAddr off))
    (m.emit [.load off 6]) = r at hadd
  generalize TapProject.macListAdd host (etherNtoa (msg.etherAddr off))
    (s.emit [.load off 6]) = r' at hadd
  rcases r with e | m₁ <;> rcases r' with e' | s₁
  case error.error => exact hadd
  case error.ok => exact hadd.elim
  case ok.error => exact hadd.elim
  case ok.ok =>
    obtain ⟨l₁, h₁, hadded⟩ := hadd
    have hmem : etherNtoa (msg.etherAddr off) ∈ l₁.addrs := by
      rw [hadded.addrs]
      exact mem_insertNew.mpr (Or.inr rfl)
    have h₂ := h₁.emit [.load off 6]
    obtain ⟨e, hcheck, hcheck', he⟩ := h₂.macListCheck (etherNtoa (msg.etherAddr off))
    -- the address is there, so a node is found
    obtain ⟨⟨a, p⟩, rfl⟩ : ∃ e', e = some e' := by
      rw [he, ← Option.isSome_iff_exists, List.find?_isSome]
      obtain ⟨p, hp, heq⟩ := List.mem_map.mp hmem
      obtain ⟨e', he', rfl⟩ := List.mem_map.mp hp
      exact ⟨e', he', by simpa using heq⟩
    obtain ⟨next, hlookup⟩ := written_of_seg h₂.shape.chain _ (List.mem_of_find?_eq_some he.symm)
    have hfind : TapProject.macListCheck (etherNtoa (msg.etherAddr off)) s₁.listTop = some p :=
      hcheck'.symm
    simp only [ok_bind, hcheck, Option.map_some, Shape.writeFrame hlookup msg ipLenOff,
      Sys.emit_listTop, hfind]
    exact ⟨l₁, h₂.emit [.load ipLenOff 2, .write p.tapFdNum (msg.counted ipLenOff)]⟩

theorem Refines.unicast (h : Refines m s l) (msg : EbtUlogPacketMsg) :
    Agree InStep SameExit (Pointers.unicast host alloc msg m)
      (TapProject.unicast host msg s) := by
  have hfirst : Agree InStep SameExit
      (if msg.physoutdev = interfaceDev then Pointers.learnAndWrite host alloc hDestOff msg m
        else .ok m)
      (if msg.physoutdev = interfaceDev then TapProject.learnAndWrite host hDestOff msg s
        else .ok s) := (h.learnAndWrite host ha hDestOff msg).ite ⟨l, h⟩
  have hunicast : TapProject.unicast host msg s
      = (if msg.physoutdev = interfaceDev then TapProject.learnAndWrite host hDestOff msg s
          else .ok s).bind fun s =>
        if msg.physindev = interfaceDev then TapProject.learnAndWrite host hSourceOff msg s
        else .ok s := by
    unfold TapProject.unicast
    split
    next herr => rw [herr]; rfl
    next hok => rw [hok]; rfl
  rw [hunicast]
  apply hfirst.bind
  rintro m₁ s₁ ⟨l₁, h₁⟩
  exact (h₁.learnAndWrite host ha hSourceOff msg).ite ⟨l₁, h₁⟩

/-- **The dispatcher in memory is the dispatcher on the list.** -/
theorem Refines.distributePacket (h : Refines m s l) (msg : EbtUlogPacketMsg) :
    Agree InStep SameExit (Pointers.distributePacket host alloc msg m)
      (TapProject.distributePacket host msg s) := by
  -- each test starts from the state that the one before it left
  obtain ⟨m₁, hdest, h₁⟩ :=
    (h.emit [.load hDestOff 6]).writePacketForMulticastadd (etherNtoa msg.hDest) msg
  simp only [Pointers.distributePacket, TapProject.distributePacket, readAddr,
    TapProject.readAddr, hdest, ok_bind]
  refine h₁.agree_print.ite ?_
  obtain ⟨m₂, hsource, h₂⟩ :=
    (h₁.emit [.load hSourceOff 6]).writePacketForMulticastadd (etherNtoa msg.hSource) msg
  simp only [hsource, ok_bind]
  refine h₂.agree_print.ite ?_
  have h₃ := h₂.emit [.load hDestOff 6]
  obtain ⟨m₃, hmac, hflood⟩ := h₃.writePacketForBroadcastMacadd msg
  simp only [hmac, ok_bind]
  refine hflood.agree_print.ite ?_
  have h₄ := h₃.emit [.load hSourceOff 6]
  obtain ⟨m₄, hmac', hflood'⟩ := h₄.writePacketForBroadcastMacadd msg
  simp only [hmac', ok_bind]
  refine hflood'.agree_print.ite ?_
  obtain ⟨m₅, hip, h₅⟩ := h₄.writePacketForBroadcastadd msg
  simp only [hip, ok_bind]
  refine h₅.agree_print.ite ?_
  have huni := h₅.unicast host ha msg
  generalize Pointers.unicast host alloc msg m₅ = r at huni
  generalize TapProject.unicast host msg _ = r' at huni
  rcases r with e | m₆ <;> rcases r' with e' | s₆
  case error.error => exact huni
  case error.ok => exact huni.elim
  case ok.error => exact huni.elim
  case ok.ok =>
    obtain ⟨l₆, h₆⟩ := huni
    exact h₆.agree_print

/-- **The body of the loop in memory is the body on the list.** -/
theorem Refines.mainBody (localtime : Int → Bool) (h : Refines m s l) (msg : EbtUlogPacketMsg) :
    Agree InStep SameExit (Pointers.mainBody localtime host alloc msg m)
      (TapProject.mainBody localtime host msg s) := by
  unfold Pointers.mainBody TapProject.mainBody
  apply Agree.ite
  case hthen => exact ⟨l, h.emit _⟩
  case helse =>
    apply Agree.ite
    case hthen => exact ⟨rfl, h.trace, h.card_eq⟩
    case helse => exact checkNames_agree (h.distributePacket host ha msg)

end

end TapProject.Pointers
