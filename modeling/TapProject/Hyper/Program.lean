import TapProject.Dispatch.Discipline
import TapProject.Hyper.Dump
import TapProject.Lib.Codes
import TapProject.MacList.Lifecycle
import TapProject.Netlink.Startup
import TapProject.Packet.MacFilter

set_option autoImplicit false

/-! # The hypercall program from its start

Before the loop `main` of `write_tap_v5_hyper.c` binds its socket, which it never reads, creates one
device, puts it up and opens it. The loop then turns what the hypervisor hands over into writes to
that device and a log on standard output. `Carries` says that a batch was put together from a list
of packets; `packets_written` takes it apart again, and `packets_logged` reads the packets back from
the log. Both are about batches that keep to the arrays `sizes` and `data` (`Batch.Fits`). -/

namespace TapProject.Hyper

open Runs Slices Codes
open Netlink (SocketEnd SocketHost Selects openSocket openSocket_of_selects)

/-! ## The program -/

/-- From the first call of `system` up to the loop: the descriptor of the device `tap0`. -/
def start (host : Host) : Except TapProject.Halt (Int × Sys) :=
  let s := macListInit Sys.boot
  let s := s.emit [.system mktun]
  let s := { s with cmdStr := linkUp 0 }
  let s := s.emit [.system s.cmdStr]
  let (tapFdNum, _, s) := tunAlloc host (tapName 0) (flags ||| IFF_NO_PI) s
  if tapFdNum < 0 then .error ⟨.exit 1, s.emit [.print "error:tun_alloc".toList]⟩
  else .ok (tapFdNum, s)

/-- How the program ends: in front of the loop or in it. -/
inductive End
  | socket (why : SocketEnd)
  | start (h : TapProject.Halt)
  | loop (sys : Sys) (h : Halt)

/-- The program on the batches `bs`: what was done in front of the loop, and the state of the
loop. A batch is taken as it is handed over; `Batch.Fits` says that it keeps to the arrays. -/
def main (net : SocketHost) (host : Host) (wrote : List Output → Int) (argv : List CStr)
    (bs : List Batch) : Except End (Sys × State) :=
  match openSocket net argv with
  | .error e => .error (.socket e)
  | .ok _ =>
      match start host with
      | .error h => .error (.start h)
      | .ok (tapFdNum, s) =>
          match runBatches wrote tapFdNum bs ⟨0, []⟩ with
          | .error h => .error (.loop s h)
          | .ok t => .ok (s, t)

/-! ## Batches of packets -/

/-- The batch was put together from the packets `ps`. -/
structure Batch.Carries (b : Batch) (ps : List (List UInt8)) : Prop where
  n_eq : b.n = ps.length
  sizes : Sizes b.size ps
  data : Holds b.data 0 ps.flatten

theorem Batch.Carries.toNat_n {b : Batch} {ps : List (List UInt8)} (h : b.Carries ps) :
    b.n.toNat = ps.length := by
  rw [h.n_eq, Int.toNat_natCast]

/-- What is dumped of a packet is its own, if no packet of the batch is shorter. -/
theorem Batch.Carries.long {b : Batch} {ps : List (List UInt8)} (h : b.Carries ps)
    (hlong : ∀ p ∈ ps, 15 ≤ p.length) {i : Nat} (hi : i < b.n.toNat) : 15 ≤ b.size i := by
  rw [h.toNat_n] at hi
  rw [h.sizes i hi]
  exact hlong _ (List.getElem_mem hi)

/-- **The slices of a batch are the packets it was put together from.** -/
theorem Batch.Carries.slices {b : Batch} {ps : List (List UInt8)} (h : b.Carries ps)
    (tapFdNum : Int) :
    (b.slices tapFdNum).map (fun w => (w.1, w.2.2)) = ps.map fun p => (tapFdNum, p) := by
  have hparts := h.data.parts h.sizes
  calc (b.slices tapFdNum).map (fun w => (w.1, w.2.2))
      = ((List.range ps.length).map fun i => slice b.data (offset b.size i) (b.size i)).map
          fun p => (tapFdNum, p) := by
        rw [Batch.slices, h.toNat_n, List.map_map, List.map_map]
        rfl
    _ = ps.map fun p => (tapFdNum, p) := by rw [hparts]

/-! ## The log -/

/-- What was printed. -/
def text : List Output → CStr
  | [] => []
  | .print t :: os => t ++ text os
  | _ :: os => text os

/-- The lines of the log for a packet. -/
def logLines (p : List UInt8) : CStr :=
  "write:".toList ++ decimal p.length ++ [newline] ++ (p.take 15).flatMap hex02 ++ [newline]

/-- The dump of a packet that is long enough ends inside it. -/
theorem logLines_slice (mem : Nat → UInt8) (off : Nat) {len : Nat} (h : 15 ≤ len) :
    logLines (slice mem off len) = "write:".toList ++ decimal len ++ [newline]
      ++ (slice mem off 15).flatMap hex02 ++ [newline] := by
  unfold logLines
  rw [slice_length, slice_take _ _ h]

/-- `write` takes all bytes that it is handed. -/
def TakesAll (wrote : List Output → Int) : Prop :=
  ∀ past fd off bytes, wrote (past ++ [.write fd off bytes]) = bytes.length

theorem text_append (os ps : List Output) : text (os ++ ps) = text os ++ text ps := by
  induction os with
  | nil => rfl
  | cons o os ih => cases o <;> simp [text, ih]

theorem text_dump (data : Nat → UInt8) (msg : Nat) :
    text (dump data msg) = (slice data msg 15).flatMap hex02 := by
  unfold dump slice
  induction List.range 15 with
  | nil => rfl
  | cons j js ih => simpa [text] using ih

section

variable {wrote : List Output → Int} (hw : TakesAll wrote) (tapFdNum : Int)

include hw

/-- What a round prints; the dump starts at the cursor. -/
theorem text_packet (b : Batch) (i : Nat) (s : State) :
    text (packet wrote tapFdNum b i s).trace = text s.trace
      ++ ("write:".toList ++ decimal (b.size i) ++ [newline]
        ++ (slice b.data s.msg 15).flatMap hex02 ++ [newline]) := by
  have hsize : b.size i < 2 ^ 32 := (b.sizes i).toNat_lt
  have hcount : (wrote (s.trace ++ [Output.write tapFdNum s.msg (slice b.data s.msg (b.size i))])
      % 2 ^ 64).toNat = b.size i := by
    rw [hw, slice_length]
    omega
  simp only [packet, State.emit, hcount, text_append, text_dump]
  simp [text]

theorem text_rounds (b : Batch) (n : Nat) (trace : List Output) :
    text (rounds wrote tapFdNum b n ⟨0, trace⟩).trace = text trace
      ++ (List.range n).flatMap fun i => "write:".toList ++ decimal (b.size i) ++ [newline]
        ++ (slice b.data (offset b.size i) 15).flatMap hex02 ++ [newline] := by
  induction n with
  | zero => simp [rounds]
  | succ n ih =>
      have hmsg : (rounds wrote tapFdNum b n ⟨0, trace⟩).msg = offset b.size n := by
        rw [rounds_msg, Nat.zero_add]
      rw [rounds, text_packet hw, hmsg, ih, List.range_succ, List.flatMap_append,
        List.append_assoc, List.flatMap_singleton]

/-- **The log of a batch**, when every packet has the bytes that are dumped. -/
theorem Batch.Carries.text {b : Batch} {ps : List (List UInt8)} (h : b.Carries ps)
    (hlong : ∀ p ∈ ps, 15 ≤ p.length) (s : State) :
    ∃ t, batch wrote tapFdNum b s = .ok t
      ∧ Hyper.text t.trace = Hyper.text s.trace ++ ps.flatMap logLines := by
  refine ⟨_, by rw [batch, if_neg (by rw [h.n_eq]; omega)], ?_⟩
  have hlines : ∀ i ∈ List.range ps.length, logLines (slice b.data (offset b.size i) (b.size i))
      = "write:".toList ++ decimal (b.size i) ++ [newline]
        ++ (slice b.data (offset b.size i) 15).flatMap hex02 ++ [newline] := by
    intro i hi
    have hlt : i < b.n.toNat := by
      rw [h.toNat_n]
      exact List.mem_range.mp hi
    exact logLines_slice b.data _ (h.long hlong hlt)
  rw [text_rounds hw, h.toNat_n, ← List.flatMap_congr hlines, ← List.flatMap_map,
    h.data.parts h.sizes]

end

/-! ## Runs -/

/-- The slices of batches that were put together from packets. -/
theorem slices_of_carries {bs : List Batch} {pss : List (List (List UInt8))}
    (h : List.Forall₂ Batch.Carries bs pss) (tapFdNum : Int) :
    (bs.flatMap (Batch.slices · tapFdNum)).map (fun w => (w.1, w.2.2))
      = pss.flatten.map fun p => (tapFdNum, p) := by
  induction h with
  | nil => rfl
  | cons hb _ ih =>
      rw [List.flatMap_cons, List.map_append, hb.slices, ih, List.flatten_cons, List.map_append]

/-- The slices of a batch that fits lie in `data`. -/
theorem Batch.Fits.slice_le {b : Batch} (h : b.Fits) {tapFdNum : Int} {w : Int × Nat × List UInt8}
    (hw : w ∈ b.slices tapFdNum) : w.2.1 + w.2.2.length ≤ MAX_SIZE := by
  obtain ⟨i, hi, rfl⟩ := List.mem_map.mp hw
  rw [slice_length]
  exact Nat.le_trans (offset_add_size_le b.size (List.mem_range.mp hi)) h.size

/-- The dump of a batch that fits stays in `data`, when every packet has the bytes that are
dumped. -/
theorem Batch.Fits.loads_lt {b : Batch} (h : b.Fits)
    (hlong : ∀ i, i < b.n.toNat → 15 ≤ b.size i) (wrote : List Output → Int) (tapFdNum : Int)
    (trace : List Output) {n : Nat} (hn : n ≤ b.n.toNat) {off : Nat}
    (hoff : .load off ∈ (rounds wrote tapFdNum b n ⟨0, trace⟩).trace) :
    .load off ∈ trace ∨ off < MAX_SIZE := by
  induction n with
  | zero => exact Or.inl hoff
  | succ n ih =>
      obtain ⟨os, hos, hload⟩ :=
        load_mem_packet wrote tapFdNum b n (rounds wrote tapFdNum b n ⟨0, trace⟩)
      rw [rounds, hos] at hoff
      rcases List.mem_append.mp hoff with hold | hnew
      · exact ih (by omega) hold
      · rw [hload, rounds_msg, Nat.zero_add] at hnew
        have hlen := hlong n hn
        have hend : offset b.size n + b.size n ≤ MAX_SIZE :=
          Nat.le_trans (offset_add_size_le b.size hn) h.size
        exact Or.inr (by omega)

theorem runBatches_loads {wrote : List Output → Int} {tapFdNum : Int} {bs : List Batch}
    {pss : List (List (List UInt8))} (hfits : ∀ b ∈ bs, b.Fits)
    (h : List.Forall₂ Batch.Carries bs pss) (hlong : ∀ ps ∈ pss, ∀ p ∈ ps, 15 ≤ p.length)
    {s t : State} (ht : runBatches wrote tapFdNum bs s = .ok t) {off : Nat}
    (hoff : .load off ∈ t.trace) : .load off ∈ s.trace ∨ off < MAX_SIZE := by
  unfold runBatches at ht
  induction h generalizing s with
  | nil =>
      obtain rfl : s = t := by simpa using ht
      exact Or.inl hoff
  | @cons b ps bs pss hb _ ih =>
      obtain ⟨hbfits, hfits⟩ := List.forall_mem_cons.mp hfits
      obtain ⟨hps, hpss⟩ := List.forall_mem_cons.mp hlong
      have hbatch : batch wrote tapFdNum b s
          = .ok (rounds wrote tapFdNum b b.n.toNat ⟨0, s.trace⟩) := by
        rw [batch, if_neg (by rw [hb.n_eq]; omega)]
      rw [run_cons_ok hbatch] at ht
      rcases ih hfits hpss ht with hrounds | hlt
      · exact hbfits.loads_lt (fun _ => hb.long hps) wrote tapFdNum s.trace (Nat.le_refl _) hrounds
      · exact Or.inr hlt

theorem runBatches_text {wrote : List Output → Int} (hw : TakesAll wrote) (tapFdNum : Int)
    {bs : List Batch} {pss : List (List (List UInt8))} (h : List.Forall₂ Batch.Carries bs pss)
    (hlong : ∀ ps ∈ pss, ∀ p ∈ ps, 15 ≤ p.length) {s t : State}
    (ht : runBatches wrote tapFdNum bs s = .ok t) :
    text t.trace = text s.trace ++ pss.flatten.flatMap logLines := by
  unfold runBatches at ht
  induction h generalizing s with
  | nil =>
      obtain rfl : s = t := by simpa using ht
      simp
  | cons hb _ ih =>
      obtain ⟨hps, hpss⟩ := List.forall_mem_cons.mp hlong
      obtain ⟨u, hu, htext⟩ := hb.text hw tapFdNum hps s
      rw [run_cons_ok hu] at ht
      rw [ih hpss ht, htext, List.flatten_cons, List.flatMap_append, List.append_assoc]

/-! ## The start -/

/-- The state in which `tun_alloc` is called. -/
def broughtUp : Sys :=
  Sys.emit { (macListInit Sys.boot).emit [.system mktun] with cmdStr := linkUp 0 }
    [.system (linkUp 0)]

theorem broughtUp_trace : broughtUp.trace = [.system mktun, .system (linkUp 0)] := by
  simp [broughtUp, Sys.boot]

/-- What `tun_alloc` returns. -/
def opened (host : Host) : Int := (tunAlloc host (tapName 0) (flags ||| IFF_NO_PI) broughtUp).1

theorem start_eq (host : Host) :
    start host
      = if opened host < 0 then
          .error ⟨.exit 1, (tunAlloc host (tapName 0) (flags ||| IFF_NO_PI) broughtUp).2.2.emit
            [.print "error:tun_alloc".toList]⟩
        else .ok (opened host, (tunAlloc host (tapName 0) (flags ||| IFF_NO_PI) broughtUp).2.2) :=
  rfl

/-- Without a device nothing was written, and nothing is left open. -/
theorem start_of_neg {host : Host} (h : opened host < 0) :
    ∃ e, start host = .error e ∧ e.why = .exit 1 ∧ openFds e.sys.trace = []
      ∧ TapProject.writes e.sys.trace = [] := by
  rw [start_eq, if_pos h]
  refine ⟨_, rfl, rfl, ?_⟩
  rcases tunAlloc_cases host (tapName 0) (flags ||| IFF_NO_PI) broughtUp with ⟨-, hcall⟩
    | ⟨-, err, -, hcall⟩ | ⟨hpos, name, hcall⟩
  · rw [hcall, Sys.emit_trace, broughtUp_trace]
    exact ⟨rfl, rfl⟩
  · rw [hcall, Sys.emit_emit, Sys.emit_trace, broughtUp_trace]
    exact ⟨by simp [openFds], rfl⟩
  · rw [opened, hcall] at h
    exact absurd h (by omega)

/-- The program gets to its loop with a device that is up and open. -/
theorem start_of_nonneg {host : Host} (h : 0 ≤ opened host) :
    ∃ s, start host = .ok (opened host, s)
      ∧ s.trace = [.system mktun, .system "ip link set tap0 up".toList, .openFd (opened host)] := by
  have hneg : ¬ opened host < 0 := by omega
  rw [start_eq, if_neg hneg]
  refine ⟨_, rfl, ?_⟩
  rcases tunAlloc_cases host (tapName 0) (flags ||| IFF_NO_PI) broughtUp with ⟨hlt, hcall⟩
    | ⟨-, err, hlt, hcall⟩ | ⟨-, name, hcall⟩
  · rw [opened, hcall] at h
    exact absurd hlt (by omega)
  · rw [opened, hcall] at h
    exact absurd hlt (by omega)
  · rw [opened, hcall, Sys.emit_trace, broughtUp_trace]
    rfl

/-! ## Whole runs -/

section

variable {net : SocketHost} (hnet : net.Succeeds) {argv : List CStr} {g : Nat}
  (hargv : Selects argv g) {host : Host}

include hnet hargv

theorem main_of_start_error {e : TapProject.Halt} (h : start host = .error e)
    (wrote : List Output → Int) (bs : List Batch) :
    main net host wrote argv bs = .error (.start e) := by
  obtain ⟨addr, hopen, -⟩ := openSocket_of_selects hnet hargv
  simp only [main, hopen, h]

theorem main_of_start {fd : Int} {s : Sys} (h : start host = .ok (fd, s))
    (wrote : List Output → Int) (bs : List Batch) :
    main net host wrote argv bs
      = match runBatches wrote fd bs ⟨0, []⟩ with
        | .error h => .error (.loop s h)
        | .ok t => .ok (s, t) := by
  obtain ⟨addr, hopen, -⟩ := openSocket_of_selects hnet hargv
  simp only [main, hopen, h]

end

/-- **The packets of all batches are written, each by one `write`, in order.** The hypervisor puts
packets together into batches that fit, as many and of whatever lengths, the empty one included. A
program that gets its socket but no device exits, with nothing written and no device left open. With
a device it creates `tap0`, puts it up, opens it, and writes to it, packet by packet and from inside
`data`, what was put together; then a call that fails ends it, with nothing more written. -/
theorem packets_written (net : SocketHost) (hnet : net.Succeeds) (host : Host) (argv : List CStr)
    (g : Nat) (hargv : Selects argv g) (wrote : List Output → Int) {bs : List Batch}
    (hfits : ∀ b ∈ bs, b.Fits) {pss : List (List (List UInt8))}
    (h : List.Forall₂ Batch.Carries bs pss) :
    (opened host < 0 → ∃ e, main net host wrote argv bs = .error (.start e) ∧ e.why = .exit 1
        ∧ openFds e.sys.trace = [] ∧ TapProject.writes e.sys.trace = [])
    ∧ (0 ≤ opened host → ∃ s t, main net host wrote argv bs = .ok (s, t)
        ∧ s.trace = [.system mktun, .system "ip link set tap0 up".toList, .openFd (opened host)]
        ∧ (writes t.trace).map (fun w => (w.1, w.2.2))
          = pss.flatten.map (fun p => (opened host, p))
        ∧ (∀ w ∈ writes t.trace, w.2.1 + w.2.2.length ≤ MAX_SIZE)
        ∧ ∀ b rest, b.n < 0 →
            main net host wrote argv (bs ++ b :: rest) = .error (.loop s ⟨.exit 1, t⟩)) := by
  constructor
  · intro hneg
    obtain ⟨e, he, hwhy, hopen, hwrites⟩ := start_of_neg hneg
    exact ⟨e, main_of_start_error hnet hargv he wrote bs, hwhy, hopen, hwrites⟩
  · intro hpos
    obtain ⟨s, hs, htrace⟩ := start_of_nonneg hpos
    obtain ⟨t, ht, hwrites⟩ :=
      runBatches_ok wrote (opened host) (fun b hb => (hfits b hb).nonneg) ⟨0, []⟩
    have hslices : writes t.trace = bs.flatMap (Batch.slices · (opened host)) := hwrites
    refine ⟨s, t, by rw [main_of_start hnet hargv hs, ht], htrace, ?_, ?_, ?_⟩
    · rw [hslices, slices_of_carries h]
    · intro w hw
      rw [hslices] at hw
      obtain ⟨b, hb, hslice⟩ := List.mem_flatMap.mp hw
      exact (hfits b hb).slice_le hslice
    · intro b rest hb
      have hstop : runBatches wrote (opened host) (bs ++ b :: rest) ⟨0, []⟩
          = .error ⟨.exit 1, t⟩ := by
        unfold runBatches at ht ⊢
        rw [run_append_ok ht, run_cons_error (e := ⟨.exit 1, t⟩)]
        rw [batch, if_pos hb]
      rw [main_of_start hnet hargv hs, hstop]

/-- Two batches: two packets, of which the second is empty, and none. -/
def twoBatches : List Batch :=
  [⟨2, fun i => [3, 0].getD i 0, fun i => [1, 2, 3].getD i 0⟩, ⟨0, fun _ => 0, fun _ => 0⟩]

/-- Sockets on which every call succeeds, and that deliver nothing. -/
def quietNet : SocketHost := ⟨4711, 3, fun _ _ => 0, fun _ => [], fun _ => 0⟩

theorem quietNet_succeeds : quietNet.Succeeds :=
  ⟨by decide, fun _ => show (0 : Int) ≠ -1 by decide⟩

theorem packets_written_two :
    ∃ s t, main quietNet freshHost (fun _ => 0) ["write_to_tap_hyper".toList] twoBatches
        = .ok (s, t)
      ∧ (writes t.trace).map (fun w => (w.1, w.2.2)) = [(4, [1, 2, 3]), (4, [])]
      ∧ main quietNet freshHost (fun _ => 0) ["write_to_tap_hyper".toList]
          (twoBatches ++ [⟨-1, fun _ => 0, fun _ => 0⟩]) = .error (.loop s ⟨.exit 1, t⟩) := by
  have hcarries : List.Forall₂ Batch.Carries twoBatches [[[1, 2, 3], []], []] :=
    .cons ⟨rfl, by unfold Sizes; decide, by decide⟩ (.cons ⟨rfl, by unfold Sizes; decide, rfl⟩ .nil)
  have hfits : ∀ b ∈ twoBatches, b.Fits :=
    List.forall_mem_cons.mpr ⟨⟨by decide, by decide, by decide⟩,
      List.forall_mem_singleton.mpr ⟨by decide, by decide, by decide⟩⟩
  have hopened : opened freshHost = 4 := by decide
  obtain ⟨s, t, hrun, -, hwrites, -, hstop⟩ := (packets_written quietNet quietNet_succeeds
    freshHost ["write_to_tap_hyper".toList] 1 ⟨rfl, by decide, by decide⟩ (fun _ => 0) hfits
    hcarries).2
    (by rw [hopened]; decide)
  rw [hopened] at hwrites
  exact ⟨s, t, hrun, hwrites, hstop _ [] (by decide)⟩

/-! ## The log read back -/

theorem hex02_eq (b : UInt8) : hex02 b = MacFilter.hex02 b ++ [' '] := rfl

/-- The dump of a packet is read back. -/
theorem dump_injective (p q : List UInt8) : p.flatMap hex02 = q.flatMap hex02 ↔ p = q := by
  have hcode : Code hex02 (id : UInt8 → UInt8) :=
    (Code.fixed MacFilter.hex02_length fun _ _ => MacFilter.hex02_injective.eq_iff).append_text [' ']
  have hne : ∀ b, hex02 b ≠ [] := fun b =>
    List.append_ne_nil_of_right_ne_nil _ (List.cons_ne_nil _ _)
  rw [hcode.flatMap hne, List.map_id, List.map_id]

theorem newline_not_mem_decimal (n : Nat) : newline ∉ decimal n :=
  Digits.not_mem_toDigits (by decide) (by decide)

theorem newline_not_mem_dump (p : List UInt8) : newline ∉ p.flatMap hex02 := by
  intro h
  obtain ⟨b, -, hb⟩ := List.mem_flatMap.mp h
  rw [hex02_eq, MacFilter.hex02_eq, List.mem_append, List.mem_pair, List.mem_singleton] at hb
  have hdigit : ∀ d < 16, newline ≠ Nat.digitChar d := by decide
  have hlt := b.toNat_lt
  rcases hb with (hb | hb) | hb
  · exact hdigit _ (by omega) hb
  · exact hdigit _ (by omega) hb
  · exact absurd hb (by decide)

/-- The two fields of the lines. -/
theorem logLines_eq (p : List UInt8) : logLines p = "write:".toList
    ++ ((decimal p.length ++ [newline]) ++ ((p.take 15).flatMap hex02 ++ [newline])) := by
  unfold logLines
  generalize "write:".toList = heading
  simp only [List.append_assoc]

/-- The lines of a packet tell its length and its first fifteen bytes. -/
theorem code_logLines : Code logLines fun p => (p.length, p.take 15) := by
  have hlen : Code (fun p : List UInt8 => decimal p.length ++ [newline]) List.length :=
    .until (fun p => newline_not_mem_decimal p.length) fun _ _ => decimal_injective.eq_iff
  have hdump : Code (fun p : List UInt8 => (p.take 15).flatMap hex02 ++ [newline]) (List.take 15) :=
    .until (fun p => newline_not_mem_dump (p.take 15)) fun _ _ => dump_injective _ _
  rw [funext logLines_eq]
  exact (hlen.append hdump).cons_text _

/-- **The log tells the packets.** Once the device is open, the output of the program is, for every
packet that was put together, its length and its first fifteen bytes, in order; if the batches fit,
no packet is shorter and `write` takes what it is handed. What is read for it lies in `data`, and
from this output the lengths and the first fifteen bytes of all packets can be read back. -/
theorem packets_logged (net : SocketHost) (hnet : net.Succeeds) (host : Host)
    (hopened : 0 ≤ opened host) (argv : List CStr) (g : Nat) (hargv : Selects argv g)
    {wrote : List Output → Int} (hw : TakesAll wrote) {bs : List Batch}
    (hfits : ∀ b ∈ bs, b.Fits) {pss : List (List (List UInt8))}
    (h : List.Forall₂ Batch.Carries bs pss) (hlong : ∀ ps ∈ pss, ∀ p ∈ ps, 15 ≤ p.length) :
    ∃ s t, main net host wrote argv bs = .ok (s, t) ∧ text t.trace = pss.flatten.flatMap logLines
      ∧ (∀ off, .load off ∈ t.trace → off < MAX_SIZE)
      ∧ ∀ qs : List (List UInt8), qs.flatMap logLines = text t.trace ↔
          qs.map (fun q => (q.length, q.take 15))
            = pss.flatten.map fun p => (p.length, p.take 15) := by
  obtain ⟨s, hs, -⟩ := start_of_nonneg hopened
  obtain ⟨t, ht, -⟩ :=
    runBatches_ok wrote (opened host) (fun b hb => (hfits b hb).nonneg) ⟨0, []⟩
  have htext := runBatches_text hw (opened host) h hlong ht
  refine ⟨s, t, by rw [main_of_start hnet hargv hs, ht], htext, ?_, ?_⟩
  · intro off hoff
    exact (runBatches_loads hfits h hlong ht hoff).resolve_left List.not_mem_nil
  · intro qs
    rw [htext]
    exact code_logLines.flatMap fun p => List.append_ne_nil_of_right_ne_nil _ (List.cons_ne_nil _ _)

/-- What a `write` that takes everything returns. -/
def tookAll (past : List Output) : Int :=
  match past.getLast? with
  | some (.write _ _ bytes) => bytes.length
  | _ => 0

theorem takesAll_tookAll : TakesAll tookAll := by
  intro past fd off bytes
  simp [tookAll]

/-- A batch of one packet of sixteen bytes. -/
def sixteen : Batch := ⟨1, fun _ => 16, fun i => UInt8.ofNat i⟩

theorem packets_logged_sixteen :
    ∃ s t, main quietNet freshHost tookAll ["write_to_tap_hyper".toList] [sixteen] = .ok (s, t)
      ∧ text t.trace = logLines [0, 1, 2, 3, 4, 5, 6, 7, 8, 9, 10, 11, 12, 13, 14, 15] := by
  have hcarries : List.Forall₂ Batch.Carries [sixteen]
      [[[0, 1, 2, 3, 4, 5, 6, 7, 8, 9, 10, 11, 12, 13, 14, 15]]] :=
    .cons ⟨rfl, by unfold Sizes; decide, by decide⟩ .nil
  have hfits : ∀ b ∈ [sixteen], b.Fits :=
    List.forall_mem_singleton.mpr ⟨by decide, by decide, by decide⟩
  obtain ⟨s, t, hrun, htext, -, -⟩ := packets_logged quietNet quietNet_succeeds freshHost
    (by decide) ["write_to_tap_hyper".toList] 1 ⟨rfl, by decide, by decide⟩ takesAll_tookAll hfits
    hcarries (by decide)
  exact ⟨s, t, hrun, htext⟩

end TapProject.Hyper
