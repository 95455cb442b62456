import TapProject.Dispatch.Discipline
import TapProject.Packet.MacFilter

set_option autoImplicit false

/-! # The capture programs

`write_to_tap_v2.c` and `write_to_tap_v3.c` from `main` on: the name of the device is taken from the
command line, the device is opened, and `pcap_loop` passes every captured frame to `start_pktfunc`
until capturing fails. That `pcap_open_live` returned `NULL` is tested and ignored, so `pcap_loop`
is called with it. The programs differ in their callback only, so one lemma, `captureMain_ends`,
describes the runs of both by what the callback writes for a frame. Main results: `v3_forwards`,
`v2_triples`, and `v3_capturedOnly_iff` on the bytes behind a captured frame. -/

namespace TapProject.MacFilter

open Slices

/-! ## The programs -/

/-- A frame as libpcap hands it to a callback: of the bytes at `packet`, the first `caplen` were
captured. -/
structure Captured where
  caplen : Nat
  packet : Nat → UInt8

/-- What a callback does for the frame at `packet`, after the events `past`. -/
abbrev Callback := (tapFd : Int) → (packet : Nat → UInt8) → (past : List Event) → List Event

/-- `pcap_loop` on an interface that captures `frames`. -/
def pcapLoop (startPktfunc : Callback) (tapFd : Int) (frames : List Captured) (s : Sys) : Sys :=
  frames.foldl (fun s f => s.emit (startPktfunc tapFd f.packet s.trace)) s

/-- `pcap_open_live` and `pcap_loop`. Without a limit on their number, frames are captured until
that fails, and then the program ends with `code`; `br0` are the frames of the interface, or `none`
when it cannot be opened. -/
def capture (startPktfunc : Callback) (tapFd code : Int) :
    (br0 : Option (List Captured)) → Sys → Halt
  | none, s => ⟨.nullDeref, s⟩
  | some frames, s => ⟨.exit code, pcapLoop startPktfunc tapFd frames s⟩

/-- `main` -/
def captureMain (startPktfunc : Callback) (host : Host) (br0 : Option (List Captured)) :
    (argv : List CStr) → Halt
  | _ :: arg :: _ =>
      -- `if_name` is full of zeros
      let ifName := arg.take (IFNAMSIZ - 1)
      let (tapFd, _, s) := tunAlloc host ifName (flags ||| IFF_NO_PI) Sys.boot
      if tapFd < 0 then ⟨.exit 1, s.emit [.print "error:tun_alloc".toList]⟩
      else capture startPktfunc tapFd (-1) br0 s
  | _ => ⟨.exit 1, Sys.boot.emit [.print "tap name".toList]⟩

/-- `ip_addr->ip_len`, as it stands in memory. -/
def ipLen (packet : Nat → UInt8) : Nat := le16 packet (SIZE_ETHERNET + 2)

/-- `start_pktfunc` of `write_to_tap_v3.c`. -/
def startPktfuncV3 : Callback := fun tapFd packet _ => startPktfuncTap packet tapFd

/-- `start_pktfunc` of `write_to_tap_v2.c`; `wrote` is what `write` returns. -/
def startPktfuncV2 (wrote : List Event → Int) : Callback := fun tapFd packet past =>
  let es : List Event :=
    [.load 0 6, .print ("dest mac ".toList ++ convmacTostr (etherDhost packet) [] 18),
      .load 6 6, .print ("src mac ".toList ++ convmacTostr (etherShost packet) [] 18)]
  let (found, loads) := filterTest packet pcapFilterMac
  let es := es ++ loads
  if found then
    let es := es ++ [.load (SIZE_ETHERNET + 2) 2,
      .print ("Packet size ".toList ++ decimal (ipLen packet) ++ " byte ".toList),
      .load (SIZE_ETHERNET + 2) 2, .write tapFd (slice packet 0 (ipLen packet))]
    -- the argument of `printf` is a call, and so is the last argument of that
    let es := es ++ [.load (SIZE_ETHERNET + 2) 2, .write tapFd (slice packet 0 (ipLen packet))]
    let count := wrote (past ++ es)
    let es := es ++ [.write tapFd (slice packet 0 (count % 2 ^ 64).toNat)]
    es ++ [.print ("Write check ".toList ++ signed (wrote (past ++ es)))]
  else es

/-! ## Runs of both -/

/-- The callback opens and closes nothing, and writes `sent` for a frame. -/
structure Sends (startPktfunc : Callback) (sent : Int → Captured → List (Int × List UInt8)) :
    Prop where
  quiet : ∀ tapFd packet past, ∀ e ∈ startPktfunc tapFd packet past, e.isFd = false
  sends : ∀ tapFd f past, writes (startPktfunc tapFd f.packet past) = sent tapFd f

/-- How a program ends. -/
structure CaptureEnds (host : Host) (br0 : Option (List Captured)) (argv : List CStr)
    (sent : Int → Captured → List (Int × List UInt8)) (h : Halt) : Prop where
  usage : argv.length < 2 → h = ⟨.exit 1, Sys.boot.emit [.print "tap name".toList]⟩
  refused : ∀ arg, argv[1]? = some arg →
    (tunAlloc host (arg.take 15) (flags ||| IFF_NO_PI) Sys.boot).1 < 0 →
      h.why = .exit 1 ∧ openFds h.sys.trace = [] ∧ writes h.sys.trace = []
  unopened : ∀ arg fd, argv[1]? = some arg →
    (tunAlloc host (arg.take 15) (flags ||| IFF_NO_PI) Sys.boot).1 = fd → 0 ≤ fd → br0 = none →
      h.why = .nullDeref ∧ openFds h.sys.trace = [fd] ∧ writes h.sys.trace = []
  captured : ∀ arg fd frames, argv[1]? = some arg →
    (tunAlloc host (arg.take 15) (flags ||| IFF_NO_PI) Sys.boot).1 = fd → 0 ≤ fd →
    br0 = some frames →
      h.why = .exit (-1) ∧ openFds h.sys.trace = [fd]
        ∧ writes h.sys.trace = frames.flatMap (sent fd)

variable {startPktfunc : Callback} {sent : Int → Captured → List (Int × List UInt8)}

/-- **The loop writes what the callback writes, frame by frame.** -/
theorem Sends.pcapLoop (hs : Sends startPktfunc sent) (tapFd : Int) (frames : List Captured)
    (s : Sys) :
    writes (pcapLoop startPktfunc tapFd frames s).trace
        = writes s.trace ++ frames.flatMap (sent tapFd)
      ∧ openFds (pcapLoop startPktfunc tapFd frames s).trace = openFds s.trace := by
  induction frames generalizing s with
  | nil => exact ⟨(List.append_nil _).symm, rfl⟩
  | cons f frames ih =>
      obtain ⟨hwrites, hopen⟩ := ih (s.emit (startPktfunc tapFd f.packet s.trace))
      constructor
      · calc writes (MacFilter.pcapLoop startPktfunc tapFd (f :: frames) s).trace
            = writes (s.trace ++ startPktfunc tapFd f.packet s.trace)
                ++ frames.flatMap (sent tapFd) := hwrites
          _ = writes s.trace ++ (f :: frames).flatMap (sent tapFd) := by
              rw [writes_append, hs.sends, List.append_assoc, List.flatMap_cons]
      · calc openFds (MacFilter.pcapLoop startPktfunc tapFd (f :: frames) s).trace
            = openFds (s.trace ++ startPktfunc tapFd f.packet s.trace) := hopen
          _ = openFds s.trace := openFds_append_of_not_fd (hs.quiet _ _ _)

/-- What `tun_alloc` returns is what it leaves open. -/
theorem tunAlloc_boot (host : Host) (dev : CStr) (flags : Nat) :
    writes (tunAlloc host dev flags Sys.boot).2.2.trace = []
      ∧ openFds (tunAlloc host dev flags Sys.boot).2.2.trace
        = if (tunAlloc host dev flags Sys.boot).1 < 0 then []
          else [(tunAlloc host dev flags Sys.boot).1] := by
  rcases tunAlloc_cases host dev flags Sys.boot with ⟨hneg, h⟩ | ⟨-, err, hneg, h⟩ | ⟨hpos, name, h⟩
  · rw [h, if_pos hneg]
    exact ⟨rfl, rfl⟩
  · rw [h, if_pos hneg]
    exact ⟨rfl, by simp [Sys.emit, Sys.boot, openFds]⟩
  · rw [h, if_neg (by omega)]
    exact ⟨rfl, rfl⟩

theorem captureMain_cons (host : Host) (br0 : Option (List Captured)) (prog arg : CStr)
    (args : List CStr) :
    captureMain startPktfunc host br0 (prog :: arg :: args)
      = if (tunAlloc host (arg.take 15) (flags ||| IFF_NO_PI) Sys.boot).1 < 0 then
          ⟨.exit 1, (tunAlloc host (arg.take 15) (flags ||| IFF_NO_PI) Sys.boot).2.2.emit
            [.print "error:tun_alloc".toList]⟩
        else capture startPktfunc (tunAlloc host (arg.take 15) (flags ||| IFF_NO_PI) Sys.boot).1
          (-1) br0 (tunAlloc host (arg.take 15) (flags ||| IFF_NO_PI) Sys.boot).2.2 := rfl

/-- Past the device, what is left to a program is to capture. -/
theorem captureMain_of_nonneg {host : Host} {argv : List CStr} {arg : CStr} {fd : Int}
    (harg : argv[1]? = some arg)
    (hfd : (tunAlloc host (arg.take 15) (flags ||| IFF_NO_PI) Sys.boot).1 = fd) (hpos : 0 ≤ fd)
    (br0 : Option (List Captured)) :
    ∃ s, captureMain startPktfunc host br0 argv = capture startPktfunc fd (-1) br0 s
      ∧ openFds s.trace = [fd] ∧ writes s.trace = [] := by
  match argv, harg with
  | _ :: _ :: _, rfl =>
    have hneg : ¬ (tunAlloc host (arg.take 15) (flags ||| IFF_NO_PI) Sys.boot).1 < 0 := by omega
    obtain ⟨hwrites, hopen⟩ := tunAlloc_boot host (arg.take 15) (flags ||| IFF_NO_PI)
    rw [if_neg hneg, hfd] at hopen
    rw [captureMain_cons, if_neg hneg, hfd]
    exact ⟨_, rfl, hopen, hwrites⟩

/-- **Runs of a capture program**, by what its callback writes. -/
theorem captureMain_ends (hs : Sends startPktfunc sent) (host : Host)
    (br0 : Option (List Captured)) (argv : List CStr) :
    CaptureEnds host br0 argv sent (captureMain startPktfunc host br0 argv) := by
  constructor
  case usage =>
    intro hlen
    match argv, hlen with
    | [], _ => rfl
    | [_], _ => rfl
  case refused =>
    intro arg harg hneg
    match argv, harg with
    | _ :: _ :: _, rfl =>
      obtain ⟨hwrites, hopen⟩ := tunAlloc_boot host (arg.take 15) (flags ||| IFF_NO_PI)
      rw [if_pos hneg] at hopen
      rw [captureMain_cons, if_pos hneg]
      refine ⟨rfl, ?_, ?_⟩
      · rw [Sys.emit_trace, openFds_append_of_not_fd (by simp [Event.isFd]), hopen]
      · rw [Sys.emit_trace, writes_append, hwrites]
        rfl
  case unopened =>
    rintro arg fd harg hfd hpos rfl
    obtain ⟨s, hrun, hopen, hwrites⟩ := captureMain_of_nonneg harg hfd hpos none
    rw [hrun]
    exact ⟨rfl, hopen, hwrites⟩
  case captured =>
    rintro arg fd frames harg hfd hpos rfl
    obtain ⟨s, hrun, hopen, hwrites⟩ := captureMain_of_nonneg harg hfd hpos (some frames)
    obtain ⟨hsent, hloop⟩ := hs.pcapLoop fd frames s
    rw [hrun]
    refine ⟨rfl, hloop.trans hopen, ?_⟩
    show writes (MacFilter.pcapLoop startPktfunc fd frames s).trace = _
    rw [hsent, hwrites, List.nil_append]

/-! ## What is written -/

/-- The frames that a filter on the destination `a` lets through. -/
def Captured.passes (a : EtherAddr) (f : Captured) : Bool := decide (etherDhost f.packet = a)

/-- `n` writes of the frame. -/
def sentFrame (a : EtherAddr) (n : Nat) (fd : Int) (f : Captured) : List (Int × List UInt8) :=
  if f.passes a then List.replicate n (fd, slice f.packet 0 (ipLen f.packet)) else []

theorem filterTest_isFd (packet : Nat → UInt8) (filterMac : CStr) :
    ∀ e ∈ (filterTest packet filterMac).2, e.isFd = false := by
  intro e he
  rw [filterTest_loads filterMac e he]
  rfl

theorem writes_filterTest (packet : Nat → UInt8) (filterMac : CStr) :
    writes (filterTest packet filterMac).2 = [] := by
  apply writes_eq_nil
  intro e he
  rw [filterTest_loads filterMac e he]
  rfl

theorem sends_v3 : Sends startPktfuncV3 (sentFrame tapFilterAddr 1) := by
  constructor
  case quiet =>
    intro tapFd packet past
    show ∀ e ∈ (if (filterTest packet tapFilterMac).1 then (filterTest packet tapFilterMac).2 ++ _
      else (filterTest packet tapFilterMac).2), _
    split
    · rw [List.forall_mem_append]
      exact ⟨filterTest_isFd packet _, by simp [Event.isFd]⟩
    · exact filterTest_isFd packet _
  case sends =>
    intro tapFd f past
    have hiff : (filterTest f.packet (macText tapFilterAddr)).1 = true
        ↔ etherDhost f.packet = tapFilterAddr := filterTest_iff
    rw [macText_tapFilterAddr] at hiff
    show writes (if (filterTest f.packet tapFilterMac).1 then
      (filterTest f.packet tapFilterMac).2 ++ _ else (filterTest f.packet tapFilterMac).2) = _
    rw [sentFrame, Captured.passes]
    split
    next hfound =>
      rw [if_pos (decide_eq_true (hiff.mp hfound)), writes_append, writes_filterTest]
      rfl
    next hnot =>
      rw [if_neg (by simpa using mt hiff.mpr hnot), writes_filterTest]

/-- `write` takes all bytes that it is handed. -/
def TakesAll (wrote : List Event → Int) : Prop :=
  ∀ past fd bytes, wrote (past ++ [.write fd bytes]) = bytes.length

theorem ipLen_lt (packet : Nat → UInt8) : ipLen packet < 2 ^ 16 := by
  have hlow := (packet (SIZE_ETHERNET + 2)).toNat_lt
  have hhigh := (packet (SIZE_ETHERNET + 2 + 1)).toNat_lt
  unfold ipLen le16
  omega

/-- The count of the third write is what the second one returned. -/
theorem startPktfuncV2_eq {wrote : List Event → Int} (hw : TakesAll wrote) (tapFd : Int)
    (packet : Nat → UInt8) (past : List Event) :
    ∃ check, startPktfuncV2 wrote tapFd packet past
      = [.load 0 6, .print ("dest mac ".toList ++ macText (etherDhost packet)),
          .load 6 6, .print ("src mac ".toList ++ macText (etherShost packet))]
        ++ (filterTest packet pcapFilterMac).2
        ++ if (filterTest packet pcapFilterMac).1 then
            [.load 16 2, .print ("Packet size ".toList ++ decimal (ipLen packet) ++ " byte ".toList),
              .load 16 2, .write tapFd (slice packet 0 (ipLen packet)),
              .load 16 2, .write tapFd (slice packet 0 (ipLen packet)),
              .write tapFd (slice packet 0 (ipLen packet)), .print check]
          else [] := by
  obtain ⟨⟨found, loads⟩, htest⟩ : ∃ r, filterTest packet pcapFilterMac = r := ⟨_, rfl⟩
  have hcount : ∀ es : List Event, (wrote (past ++ (es ++ ([.load 16 2,
      .write tapFd (slice packet 0 (ipLen packet))] : List Event))) % 2 ^ 64).toNat
        = ipLen packet := by
    intro es
    have hlt := ipLen_lt packet
    have hlast : past ++ (es ++ ([.load 16 2, .write tapFd (slice packet 0 (ipLen packet))] :
        List Event)) = (past ++ es ++ [.load 16 2])
          ++ [.write tapFd (slice packet 0 (ipLen packet))] := by simp
    rw [hlast, hw, slice_length]
    omega
  unfold startPktfuncV2
  simp only [htest, convmacTostr_eq, SIZE_ETHERNET, Nat.reduceAdd, hcount]
  cases found with
  | false => exact ⟨[], (List.append_nil _).symm⟩
  | true =>
      apply Exists.intro
      simp only [if_true, List.append_assoc, List.cons_append, List.nil_append]
      rfl

theorem sends_v2 {wrote : List Event → Int} (hw : TakesAll wrote) :
    Sends (startPktfuncV2 wrote) (sentFrame pcapFilterAddr 3) := by
  constructor
  case quiet =>
    intro tapFd packet past
    obtain ⟨check, heq⟩ := startPktfuncV2_eq hw tapFd packet past
    rw [heq, List.forall_mem_append, List.forall_mem_append]
    refine ⟨⟨by simp [Event.isFd], filterTest_isFd packet _⟩, ?_⟩
    split
    · simp [Event.isFd]
    · simp
  case sends =>
    intro tapFd f past
    obtain ⟨check, heq⟩ := startPktfuncV2_eq hw tapFd f.packet past
    have hiff : (filterTest f.packet (macText pcapFilterAddr)).1 = true
        ↔ etherDhost f.packet = pcapFilterAddr := filterTest_iff
    rw [macText_pcapFilterAddr] at hiff
    rw [heq, writes_append, writes_append, writes_filterTest, sentFrame, Captured.passes]
    split
    next hfound =>
      rw [if_pos (decide_eq_true (hiff.mp hfound))]
      rfl
    next hnot =>
      rw [if_neg (by simpa using mt hiff.mpr hnot)]
      rfl

/-! ## Whole runs -/

/-- **`write_to_tap_v3.c` forwards the frames to its address, and nothing else.** Whatever the
system answers and whatever is captured: without an argument, or when the device cannot be opened,
the program exits with nothing written and nothing left open. When the interface cannot be opened it
follows `NULL`, with nothing written. Otherwise the frames whose destination is the filter address
are written to the one open descriptor, once each and in the order in which they were captured,
until capturing fails; the count of a write is the two bytes of the total length as they stand in
memory. -/
theorem v3_forwards (host : Host) (br0 : Option (List Captured)) (argv : List CStr) :
    CaptureEnds host br0 argv (sentFrame tapFilterAddr 1)
      (captureMain startPktfuncV3 host br0 argv) :=
  captureMain_ends sends_v3 host br0 argv

/-- **`write_to_tap_v2.c` writes every frame to its address three times**, if `write` takes what it
is handed. It exits, leaves open and follows `NULL` as `write_to_tap_v3.c` does. -/
theorem v2_triples {wrote : List Event → Int} (hw : TakesAll wrote) (host : Host)
    (br0 : Option (List Captured)) (argv : List CStr) :
    CaptureEnds host br0 argv (sentFrame pcapFilterAddr 3)
      (captureMain (startPktfuncV2 wrote) host br0 argv) :=
  captureMain_ends (sends_v2 hw) host br0 argv

/-- A frame to the address with the last byte `b`, of total length 84. -/
def pingTo (b : UInt8) : Captured :=
  ⟨68, fun i => ([0x00, 0x16, 0x3e, 0x0d, 0x58, b, 0x00, 0x16, 0x3e, 0x0d, 0x58, 0x01, 0x08, 0x00,
    0x45, 0x00, 0x00, 0x54] : List UInt8).getD i 0⟩

/-- What a `write` that takes everything returns. -/
def tookAll (past : List Event) : Int :=
  match past.getLast? with
  | some (.write _ bytes) => bytes.length
  | _ => 0

theorem takesAll_tookAll : TakesAll tookAll := by
  intro past fd bytes
  simp [tookAll]

/-- Of two pings the one to the filter address is written three times, with 21504 bytes each. -/
theorem v2_triples_ping :
    (captureMain (startPktfuncV2 tookAll) freshHost (some [pingTo 0x00, pingTo 0xc1])
        ["write_to_tap".toList, "tap0".toList]).why = .exit (-1)
      ∧ writes (captureMain (startPktfuncV2 tookAll) freshHost (some [pingTo 0x00, pingTo 0xc1])
          ["write_to_tap".toList, "tap0".toList]).sys.trace
        = List.replicate 3 (4, slice (pingTo 0xc1).packet 0 21504) := by
  obtain ⟨hwhy, -, hwrites⟩ := (v2_triples takesAll_tookAll freshHost
    (some [pingTo 0x00, pingTo 0xc1]) ["write_to_tap".toList, "tap0".toList]).captured
    "tap0".toList 4 [pingTo 0x00, pingTo 0xc1] rfl (by decide) (by decide) rfl
  have hother : (pingTo 0x00).passes pcapFilterAddr = false := by decide
  have hfilter : (pingTo 0xc1).passes pcapFilterAddr = true := by decide
  have hlen : ipLen (pingTo 0xc1).packet = 21504 := by decide
  refine ⟨hwhy, hwrites.trans ?_⟩
  simp [sentFrame, hother, hfilter, hlen]

/-- The other program writes the other ping, once. -/
example : (writes (captureMain startPktfuncV3 freshHost (some [pingTo 0x00, pingTo 0xc1])
    ["write_to_tap".toList, "tap0".toList]).sys.trace).map (fun w => (w.1, w.2.take 6))
      = [(4, [0x00, 0x16, 0x3e, 0x0d, 0x58, 0x00])] := by
  decide +kernel

/-! ## What lies behind a captured frame -/

def DPCP_RCV_MAXSIZE : Nat := 68

/-- Of every frame only bytes that were captured are written. -/
def CapturedOnly (frames : List Captured) (startPktfunc : Callback) : Prop :=
  ∀ f ∈ frames, ∀ tapFd past, ∀ w ∈ writes (startPktfunc tapFd f.packet past),
    w.2.length ≤ f.caplen

/-- The count is the total length with its bytes swapped, so it is small for the multiples of 256
only. -/
theorem ipLen_le_iff (packet : Nat → UInt8) {n : Nat} (hn : n < 256) :
    ipLen packet ≤ n ↔ ∃ k ≤ n, be16 packet (SIZE_ETHERNET + 2) = 256 * k := by
  have hhigh := (packet (SIZE_ETHERNET + 2 + 1)).toNat_lt
  unfold ipLen le16 be16
  constructor
  · intro h
    exact ⟨(packet (SIZE_ETHERNET + 2)).toNat, by omega, by omega⟩
  · rintro ⟨k, hk, heq⟩
    omega

/-- **When only captured bytes are written.** The programs capture 68 bytes of a frame at most.
Of what `write_to_tap_v3.c` writes all was captured exactly when the total length of every frame to
the filter address is a multiple `256 * k` with `k` bytes captured. -/
theorem v3_capturedOnly_iff (frames : List Captured)
    (h : ∀ f ∈ frames, f.caplen ≤ DPCP_RCV_MAXSIZE) :
    CapturedOnly frames startPktfuncV3 ↔ ∀ f ∈ frames, etherDhost f.packet = tapFilterAddr →
      ∃ k ≤ f.caplen, be16 f.packet (SIZE_ETHERNET + 2) = 256 * k := by
  have hframe : ∀ f ∈ frames, ∀ tapFd past,
      (∀ w ∈ writes (startPktfuncV3 tapFd f.packet past), w.2.length ≤ f.caplen)
        ↔ (etherDhost f.packet = tapFilterAddr →
          ∃ k ≤ f.caplen, be16 f.packet (SIZE_ETHERNET + 2) = 256 * k) := by
    intro f hf tapFd past
    have hcap : f.caplen < 256 := Nat.lt_of_le_of_lt (h f hf) (by decide)
    rw [sends_v3.sends tapFd f past, ← ipLen_le_iff f.packet hcap, sentFrame, Captured.passes]
    by_cases hdest : etherDhost f.packet = tapFilterAddr
    · simp [hdest]
    · simp [hdest]
  constructor
  · intro hall f hf
    exact (hframe f hf 0 []).mp (hall f hf 0 [])
  · intro hall f hf tapFd past
    exact (hframe f hf tapFd past).mpr (hall f hf)

/-- Of a ping 21504 bytes are written, and 68 were captured. -/
theorem not_capturedOnly_ping : ¬ CapturedOnly [pingTo 0x00] startPktfuncV3 := by
  rw [v3_capturedOnly_iff [pingTo 0x00] (by decide)]
  intro h
  obtain ⟨k, -, hk⟩ := h (pingTo 0x00) (List.mem_singleton_self _) (by decide)
  have hlen : be16 (pingTo 0x00).packet (SIZE_ETHERNET + 2) = 84 := by decide
  omega

end TapProject.MacFilter
