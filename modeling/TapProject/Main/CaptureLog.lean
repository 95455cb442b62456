import TapProject.Lib.Codes
import TapProject.Main.Capture

set_option autoImplicit false

/-! # The programs that print what they capture

`write_to_tap_v1.c` and `pcap_test.c` open no device. They print the addresses and the type of the
frames they capture, the first one of every frame and the second one of the frames to its address.
The loop with a `write` that stands in front of the printing in the first one has nothing to write.

Both programs print a frame by the same lines under different headings, so `Prints.printMain`
describes the runs of both. The frames printed can be read back from the output (`v1_log`,
`pcap_log`). -/

namespace TapProject.MacFilter

open Slices Codes

/-! ## The programs -/

def P_MAX_NUM : Nat := 200

/-- The variables of `start_pktfunc` that it does not initialize. -/
structure Stack where
  tapFd : Int
  tmpsize : Nat
  buffer : Nat → UInt8

/-- `for(i=0; size[i]!=0; i++)` over the entries of `size`. -/
def sendSizes (stack : Stack) : List Nat → Nat → List Event
  | [], _ => []
  | n :: size, tmpsize =>
      if n = 0 then []
      else .write stack.tapFd (slice stack.buffer tmpsize n) :: sendSizes stack size (tmpsize + n)

/-- `start_pktfunc` of `write_to_tap_v1.c`. -/
def startPktfuncV1 (stack : Stack) (packet : Nat → UInt8) : List Event :=
  let size := List.replicate P_MAX_NUM 0
  sendSizes stack size stack.tmpsize
    ++ [.print "---------ether header---------".toList,
      .load 0 6, .print ("dest mac ".toList ++ convmacTostr (etherDhost packet) [] 18),
      .load 6 6, .print ("src mac ".toList ++ convmacTostr (etherShost packet) [] 18),
      .load 12 2, .print ("ether type ".toList ++ hex (be16 packet 12)), .print []]

/-- `main` of both programs: that capturing failed is ignored. -/
def printMain (startPktfunc : Callback) (br0 : Option (List Captured)) : Halt :=
  capture startPktfunc 0 0 br0 Sys.boot

/-- `write_to_tap_v1.c`; what is on the stack may depend on what happened before. -/
def v1Main (stack : List Event → Stack) : Option (List Captured) → Halt :=
  printMain fun _ packet past => startPktfuncV1 (stack past) packet

/-- `pcap_test.c` -/
def pcapMain : Option (List Captured) → Halt :=
  printMain fun _ packet _ => startPktfuncPcap packet

/-! ## The lines of a frame -/

/-- The addresses and the type of a frame. -/
def header (f : Captured) : EtherAddr × EtherAddr × Nat :=
  (etherDhost f.packet, etherShost f.packet, be16 f.packet 12)

def addrLine (label : CStr) (a : EtherAddr) : CStr := label ++ macText a ++ [lineEnd]

/-- The line with the type, and the empty line behind it. -/
def typeLines (etherType : Nat) : CStr :=
  "ether type ".toList ++ (hex etherType ++ [lineEnd]) ++ [lineEnd]

/-- The lines that are printed for a frame. -/
def headerLines (heading : CStr) (f : Captured) : CStr :=
  heading ++ [lineEnd] ++ (addrLine "dest mac ".toList (etherDhost f.packet)
    ++ (addrLine "src mac ".toList (etherShost f.packet) ++ typeLines (be16 f.packet 12)))

theorem code_addrLine (label : CStr) : Code (addrLine label) id :=
  ((Code.fixed macText_length fun _ _ => macText_injective.eq_iff).cons_text label).append_text _

theorem code_typeLines : Code typeLines id :=
  ((Code.until (fun _ => Digits.not_mem_toDigits (by decide) (by decide))
    fun _ _ => hex_injective.eq_iff).cons_text _).append_text _

/-- **The lines of a frame tell its header**, whatever follows them. -/
theorem code_headerLines (heading : CStr) : Code (headerLines heading) header :=
  (((code_addrLine _).comp fun f : Captured => etherDhost f.packet).append
    (((code_addrLine _).comp fun f : Captured => etherShost f.packet).append
      (code_typeLines.comp fun f : Captured => be16 f.packet 12))).cons_text _

theorem headerLines_ne_nil (heading : CStr) (f : Captured) : headerLines heading f ≠ [] := by
  unfold headerLines
  rw [List.append_assoc]
  exact List.append_ne_nil_of_right_ne_nil _ (List.cons_ne_nil _ _)

/-! ## Runs of both -/

/-- The callback prints the lines of the frames that pass, and does nothing but read else. -/
structure Prints (startPktfunc : Callback) (heading : CStr) (passes : Captured → Bool) : Prop where
  quiet : ∀ tapFd packet past, ∀ e ∈ startPktfunc tapFd packet past,
    (∃ off len, e = .load off len) ∨ ∃ line, e = .print line
  prints : ∀ tapFd f past,
    stdout (startPktfunc tapFd f.packet past) = if passes f then headerLines heading f else []

variable {startPktfunc : Callback} {heading : CStr} {passes : Captured → Bool}

/-- What the loop does to the outside, and what it prints. -/
theorem Prints.pcapLoop (h : Prints startPktfunc heading passes) (tapFd : Int)
    (frames : List Captured) (s : Sys) :
    ∃ es, (pcapLoop startPktfunc tapFd frames s).trace = s.trace ++ es
      ∧ (∀ e ∈ es, (∃ off len, e = .load off len) ∨ ∃ line, e = .print line)
      ∧ stdout es = (frames.filter passes).flatMap (headerLines heading) := by
  induction frames generalizing s with
  | nil => exact ⟨[], (List.append_nil _).symm, by simp, rfl⟩
  | cons f frames ih =>
      obtain ⟨es, htrace, hquiet, hout⟩ := ih (s.emit (startPktfunc tapFd f.packet s.trace))
      refine ⟨startPktfunc tapFd f.packet s.trace ++ es, ?_, ?_, ?_⟩
      · calc (MacFilter.pcapLoop startPktfunc tapFd (f :: frames) s).trace
            = s.trace ++ startPktfunc tapFd f.packet s.trace ++ es := htrace
          _ = s.trace ++ (startPktfunc tapFd f.packet s.trace ++ es) := List.append_assoc _ _ _
      · exact List.forall_mem_append.mpr ⟨h.quiet tapFd f.packet s.trace, hquiet⟩
      · rw [stdout_append, h.prints, hout, List.filter_cons]
        by_cases hf : passes f = true
        · rw [if_pos hf, if_pos hf, List.flatMap_cons]
        · rw [if_neg hf, if_neg hf, List.nil_append]

/-- A run that prints the lines of the frames that pass, opens and writes nothing, and returns; or
that follows `NULL` with nothing printed, when there is no interface. -/
structure Printed (heading : CStr) (passes : Captured → Bool) (br0 : Option (List Captured))
    (h : Halt) : Prop where
  why : h.why = if br0.isSome then .exit 0 else .nullDeref
  quiet : ∀ e ∈ h.sys.trace, (∃ off len, e = .load off len) ∨ ∃ line, e = .print line
  out : stdout h.sys.trace = ((br0.getD []).filter passes).flatMap (headerLines heading)

theorem Prints.printMain (h : Prints startPktfunc heading passes) (br0 : Option (List Captured)) :
    Printed heading passes br0 (printMain startPktfunc br0) := by
  cases br0 with
  | none => exact ⟨rfl, fun e he => absurd he List.not_mem_nil, rfl⟩
  | some frames =>
      obtain ⟨es, htrace, hquiet, hout⟩ := h.pcapLoop 0 frames Sys.boot
      have htrace : (MacFilter.printMain startPktfunc (some frames)).sys.trace = es := htrace
      exact ⟨rfl, htrace ▸ hquiet, htrace ▸ hout⟩

/-- **Two runs print alike exactly when the frames that pass have the same headers.** -/
theorem Printed.out_eq_iff {br0 br0' : Option (List Captured)} {h h' : Halt}
    (hp : Printed heading passes br0 h) (hp' : Printed heading passes br0' h') :
    stdout h.sys.trace = stdout h'.sys.trace
      ↔ ((br0.getD []).filter passes).map header = ((br0'.getD []).filter passes).map header := by
  rw [hp.out, hp'.out]
  exact (code_headerLines heading).flatMap (headerLines_ne_nil heading)

/-! ## The two programs -/

/-- An array of zeros has nothing to send. -/
theorem sendSizes_replicate (stack : Stack) (n tmpsize : Nat) :
    sendSizes stack (List.replicate n 0) tmpsize = [] := by
  cases n <;> rfl

/-- What both programs print for a frame. -/
theorem stdout_lines (heading : CStr) (f : Captured) :
    stdout [.print heading,
      .load 0 6, .print ("dest mac ".toList ++ convmacTostr (etherDhost f.packet) [] 18),
      .load 6 6, .print ("src mac ".toList ++ convmacTostr (etherShost f.packet) [] 18),
      .load 12 2, .print ("ether type ".toList ++ hex (be16 f.packet 12)), .print []]
      = headerLines heading f := by
  unfold headerLines addrLine typeLines
  rw [convmacTostr_eq, convmacTostr_eq]
  generalize "dest mac ".toList = dest
  generalize "src mac ".toList = source
  generalize "ether type ".toList = etherType
  simp only [stdout, List.append_assoc, List.cons_append, List.nil_append]

theorem prints_v1 (stack : List Event → Stack) :
    Prints (fun _ packet past => startPktfuncV1 (stack past) packet)
      "---------ether header---------".toList fun _ => true := by
  constructor
  case quiet =>
    intro tapFd packet past e he
    rw [startPktfuncV1, sendSizes_replicate, List.nil_append] at he
    simp only [List.mem_cons, List.not_mem_nil, or_false] at he
    rcases he with rfl | rfl | rfl | rfl | rfl | rfl | rfl | rfl <;> simp
  case prints =>
    intro tapFd f past
    rw [startPktfuncV1, sendSizes_replicate, List.nil_append, if_pos rfl]
    exact stdout_lines _ f

theorem prints_pcap :
    Prints (fun _ packet _ => startPktfuncPcap packet) "ether header---------".toList
      (Captured.passes pcapFilterAddr) := by
  have hfound : ∀ packet : Nat → UInt8, startPktfuncPcap packet
      = (filterTest packet pcapFilterMac).2 ++ if (filterTest packet pcapFilterMac).1 then
          [.print "ether header---------".toList,
            .load 0 6, .print ("dest mac ".toList ++ convmacTostr (etherDhost packet) [] 18),
            .load 6 6, .print ("src mac ".toList ++ convmacTostr (etherShost packet) [] 18),
            .load 12 2, .print ("ether type ".toList ++ hex (be16 packet 12)), .print []]
        else [] := by
    intro packet
    unfold startPktfuncPcap
    cases filterTest packet pcapFilterMac with
    | mk found es =>
        cases found with
        | false => exact (List.append_nil es).symm
        | true => rfl
  constructor
  case quiet =>
    intro tapFd packet past e he
    rw [hfound, List.mem_append] at he
    rcases he with he | he
    · exact Or.inl ⟨0, 6, filterTest_loads _ e he⟩
    · split at he
      · simp only [List.mem_cons, List.not_mem_nil, or_false] at he
        rcases he with rfl | rfl | rfl | rfl | rfl | rfl | rfl | rfl <;> simp
      · exact absurd he List.not_mem_nil
  case prints =>
    intro tapFd f past
    have hiff : (filterTest f.packet (macText pcapFilterAddr)).1 = true
        ↔ etherDhost f.packet = pcapFilterAddr := filterTest_iff
    rw [macText_pcapFilterAddr] at hiff
    have hloads : stdout (filterTest f.packet pcapFilterMac).2 = [] :=
      stdout_eq_nil fun e he => by simp [filterTest_loads _ e he]
    rw [hfound, stdout_append, hloads, List.nil_append, Captured.passes]
    by_cases hdest : etherDhost f.packet = pcapFilterAddr
    · rw [if_pos (hiff.mpr hdest), if_pos (decide_eq_true hdest)]
      exact stdout_lines _ f
    · rw [if_neg (mt hiff.mp hdest), if_neg (by simpa using hdest)]
      rfl

/-- **`write_to_tap_v1.c` prints every frame and sends none**, whatever is on its stack. It returns
when capturing fails, having printed the lines of the frames in order; without its interface it
follows `NULL`, having printed nothing. Two runs print the same exactly when the destinations,
sources and types of their frames are the same. -/
theorem v1_log (stack stack' : List Event → Stack) (br0 br0' : Option (List Captured)) :
    Printed "---------ether header---------".toList (fun _ => true) br0 (v1Main stack br0)
      ∧ (stdout (v1Main stack br0).sys.trace = stdout (v1Main stack' br0').sys.trace
        ↔ (br0.getD []).map header = (br0'.getD []).map header) := by
  have h := (prints_v1 stack).printMain br0
  have h' := (prints_v1 stack').printMain br0'
  refine ⟨h, (h.out_eq_iff h').trans ?_⟩
  rw [List.filter_true, List.filter_true]

/-- Two pings, both of which are printed. -/
example : stdout (v1Main (fun _ => ⟨0, 0, fun _ => 0⟩) (some [pingTo 0x00, pingTo 0xc1])).sys.trace
    = [pingTo 0x00, pingTo 0xc1].flatMap (headerLines "---------ether header---------".toList) := by
  decide +kernel

/-- **`pcap_test.c` prints the frames to its address.** It returns when capturing fails, having
printed the lines of these frames in order; without its interface it follows `NULL`, having printed
nothing. Two runs print the same exactly when the headers of the frames to the filter address are
the same. -/
theorem pcap_log (br0 br0' : Option (List Captured)) :
    Printed "ether header---------".toList (Captured.passes pcapFilterAddr) br0 (pcapMain br0)
      ∧ (stdout (pcapMain br0).sys.trace = stdout (pcapMain br0').sys.trace
        ↔ ((br0.getD []).filter (Captured.passes pcapFilterAddr)).map header
          = ((br0'.getD []).filter (Captured.passes pcapFilterAddr)).map header) := by
  have h := prints_pcap.printMain br0
  exact ⟨h, h.out_eq_iff (prints_pcap.printMain br0')⟩

/-- Two pings, of which one goes to the filter address. -/
example : stdout (pcapMain (some [pingTo 0x00, pingTo 0xc1])).sys.trace
    = headerLines "ether header---------".toList (pingTo 0xc1) := by
  decide +kernel

end TapProject.MacFilter
