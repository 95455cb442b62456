import TapProject.LinkInfo.RoundTrip

set_option autoImplicit false

/-! # The program `ebtables_test.c`

`main` sends the request for all links, receives the answer into a buffer of 4096 bytes and parses
what it received. Main result: `main_prints`, on an answer of any length. -/

namespace TapProject.LinkInfo

open Loops Slices
open Netlink (NlMsg fill)

/-! ## The request -/

def RTM_GETLINK : UInt16 := 18
def NLM_F_REQUEST : UInt16 := 0x1
def NLM_F_ROOT : UInt16 := 0x100
def ARPHRD_ETHER : UInt8 := 1

/-- `seq` -/
def seq : UInt32 := 100

def request : NlMsg :=
  ⟨RTM_GETLINK, NLM_F_ROOT ||| NLM_F_REQUEST, seq, 0, Link.bytes ⟨ARPHRD_ETHER, 0, 0, 0, 0, []⟩⟩

/-! ## The program -/

/-- What the system answers: what `sendto` returns for a message, and the datagram that `recv`
then takes from the socket, if it does not fail. -/
structure Kernel where
  sendto : List UInt8 → Int
  answer : List UInt8 → Option (List UInt8)

/-- How the program returned: its exit code, what it did while parsing, and whether the socket was
closed. -/
structure Returned where
  code : Int
  acts : List Act
  closed : Bool

/-- `main`, with `buf` on its stack. -/
def main (kernel : Kernel) (buf : Nat → UInt8) : Except Endless Returned :=
  if kernel.sendto request.text < 0 then .ok ⟨1, [], false⟩
  else
    match kernel.answer request.text with
    | none => .ok ⟨1, [], false⟩
    | some d =>
        let captured := d.take BUFSIZE
        match parse (fill captured buf) captured.length with
        | .error e => .error e
        | .ok acts => .ok ⟨0, acts, true⟩

theorem main_of_answer {kernel : Kernel} {d : List UInt8} (hsend : 0 ≤ kernel.sendto request.text)
    (hanswer : kernel.answer request.text = some d) (buf : Nat → UInt8) :
    main kernel buf
      = match parse (fill (d.take BUFSIZE) buf) (d.take BUFSIZE).length with
        | .error e => .error e
        | .ok acts => .ok ⟨0, acts, true⟩ := by
  rw [main, if_neg (by omega), hanswer]

/-- The program returns on every answer. -/
theorem main_returns (kernel : Kernel) (buf : Nat → UInt8) :
    ∃ r, main kernel buf = .ok r
      ∧ (r.code = 0 ∧ r.closed = true ∨ r.code = 1 ∧ r.acts = [] ∧ r.closed = false) := by
  by_cases hsend : kernel.sendto request.text < 0
  · exact ⟨_, by rw [main, if_pos hsend], Or.inr ⟨rfl, rfl, rfl⟩⟩
  · cases hanswer : kernel.answer request.text with
    | none => exact ⟨_, by rw [main, if_neg hsend, hanswer], Or.inr ⟨rfl, rfl, rfl⟩⟩
    | some d =>
        have hlen : (d.take BUFSIZE).length ≤ BUFSIZE := List.length_take_le _ _
        obtain ⟨-, -, acts, -, hparse, -⟩ := parse_spec (fill (d.take BUFSIZE) buf) hlen
        exact ⟨_, by rw [main_of_answer (by omega) hanswer, hparse], Or.inl ⟨rfl, rfl⟩⟩

/-- **The program prints the links that the kernel describes, as far as they fit its buffer.** When
the kernel answers the request with the bytes of a dump, however long, the program closes its socket
and returns 0. It has printed, in order, the lines of the messages that lie whole in the first 4096
bytes, and nothing else: of a message that the buffer cuts off it prints nothing. -/
theorem main_prints (kernel : Kernel) (hsend : 0 ≤ kernel.sendto request.text)
    (entries : List Entry) (hfits : ∀ e ∈ entries, e.msg.len < 2 ^ 32)
    (hanswer : kernel.answer request.text = some (dump entries)) (buf : Nat → UInt8) :
    ∃ acts, main kernel buf = .ok ⟨0, acts, true⟩
      ∧ ∀ ls, Prints (fill ((dump entries).take BUFSIZE) buf) acts ls
        ↔ ls = (wholeIn BUFSIZE entries).flatMap Entry.lines := by
  have hlength := List.length_take (i := BUFSIZE) (l := dump entries)
  obtain ⟨n, hn⟩ : ∃ n, n = ((dump entries).take BUFSIZE).length := ⟨_, rfl⟩
  -- cutting off at what was received is cutting off at the buffer
  have htake : (dump entries).take n = (dump entries).take BUFSIZE := by
    rw [hn, hlength, List.take_eq_take_iff]
    omega
  have hwhole : wholeIn n entries = wholeIn BUFSIZE entries := by
    rcases Nat.le_total BUFSIZE (dump entries).length with hle | hle
    · rw [hn, hlength, Nat.min_eq_left hle]
    · rw [wholeIn_of_le hle, wholeIn_of_le (by omega)]
  obtain ⟨acts, hparse, hprints⟩ := parse_received entries hfits (n := n) (by omega) (by omega) buf
  rw [htake] at hparse hprints
  rw [hwhole] at hprints
  refine ⟨acts, ?_, hprints⟩
  rw [main_of_answer hsend hanswer, ← hn, hparse]

/-- The link `eth0`, and the message that ends the dump. -/
def ethDump : List Entry :=
  [.link ⟨0, 1, 2, 0, 0, [⟨.ifname [101, 116, 104, 48], by decide, by decide⟩,
      ⟨.mtu 1500, by decide, by decide⟩]⟩ 2 100 0,
    .other ⟨3, 2, 100, 0, [0, 0, 0, 0]⟩ (by decide)]

theorem main_prints_eth :
    ∃ acts, main ⟨fun bytes => bytes.length, fun _ => some (dump ethDump)⟩ (fun _ => 0xff)
        = .ok ⟨0, acts, true⟩
      ∧ Prints (fill ((dump ethDump).take BUFSIZE) fun _ => 0xff) acts
        ["=================================".toList, "len : 52".toList, "type : 16".toList,
          " index : 2".toList, " + eth0".toList, " + MTU : 1500".toList,
          "=================================".toList, "len : 20".toList, "type : 3".toList,
          "error : 3".toList] := by
  obtain ⟨acts, hrun, hprints⟩ := main_prints
    ⟨fun bytes => bytes.length, fun _ => some (dump ethDump)⟩ (Int.natCast_nonneg _) ethDump
    (by decide) rfl fun _ => 0xff
  exact ⟨acts, hrun, (hprints _).mpr (by decide +kernel)⟩

end TapProject.LinkInfo
