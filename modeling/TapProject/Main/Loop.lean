import TapProject.Dispatch.Discipline
import TapProject.MacList.Lifecycle
import TapProject.Netlink.Encode

set_option autoImplicit false

/-! # The loop of `main`

The program `write_tap_v5.c` from the point where its socket is bound: `main` gets a message from
`ulog_get_packet`, skips what that rejects, and passes the message to the body of the loop. A state
is that of the receiver and that of the dispatcher; `mainTurn` is one turn.

The message is read in place, at its offset in the receive buffer, as a structure
`ebt_ulog_packet_msg_t`. That structure is the kernel's; where its fields lie is a parameter,
`MsgLayout`.

The receiver checks no header but the first of a datagram, so the cursor can leave the buffer. What
stands there is not told by what arrived, and a turn that would read its message there ends the run
(`MainEnd.outside`).

`main_orderly` is what holds of every run, whatever bytes arrive and whatever the system answers. -/

namespace TapProject

open Runs Slices Netlink Traces

/-! ## Messages in the buffer -/

/-- Where the fields of `ebt_ulog_packet_msg_t` lie. -/
structure MsgLayout where
  version : Nat
  physindev : Nat
  physoutdev : Nat
  stamp : Nat
  dataLen : Nat
  data : Nat
  deriving DecidableEq, Repr

/-- The text in an array of characters, up to its first NUL. -/
def textOf (bytes : List UInt8) : CStr :=
  (bytes.takeWhile fun b => b ≠ 0).map fun b => Char.ofNat b.toNat

/-- The name of a bridge port at `off`. A comparison with `interface_dev`, which is shorter than the
array, is decided inside it. -/
def nameAt (buf : Nat → UInt8) (off : Nat) : CStr := textOf (slice buf off IFNAMSIZ)

/-- The `int` at `off`. Unfolding it would have Lean count to `2 ^ 32`. -/
@[irreducible] def int32At (buf : Nat → UInt8) (off : Nat) : Int :=
  (le32 buf off : Int).bmod (2 ^ 32)

/-- The `long` at `off`, of 64 bits. -/
@[irreducible] def int64At (buf : Nat → UInt8) (off : Nat) : Int :=
  (le32 buf off + 2 ^ 32 * le32 buf (off + 4) : Int).bmod (2 ^ 64)

/-- The message at `msg`. -/
def readMsg (L : MsgLayout) (buf : Nat → UInt8) (msg : Nat) : EbtUlogPacketMsg where
  version := int32At buf (msg + L.version)
  physindev := nameAt buf (msg + L.physindev)
  physoutdev := nameAt buf (msg + L.physoutdev)
  stamp := int64At buf (msg + L.stamp)
  dataLen := le32 buf (msg + L.dataLen) + 2 ^ 32 * le32 buf (msg + L.dataLen + 4)
  data := fun i => buf (msg + L.data + i)

/-- How far into a frame the body of the loop reads: the headers of Ethernet and IPv4. -/
def HEADERS : Nat := SIZE_ETHERNET + 20

/-- The message at `msg` lies in the buffer, up to the last header of its frame. -/
def Readable (L : MsgLayout) (msg : Nat) : Prop := msg + L.data + HEADERS ≤ BUFLEN

instance (L : MsgLayout) (msg : Nat) : Decidable (Readable L msg) :=
  inferInstanceAs (Decidable (_ ≤ _))

/-! ## The loop -/

structure MainState where
  ulog : Ulog
  sys : Sys

/-- How the loop ends: `ulog_get_packet` does not return, the message it returns is outside the
buffer, or the body ends the program. -/
inductive MainEnd
  | receive (why : Ended) (sys : Sys)
  | outside (sys : Sys)
  | halt (h : Halt)

/-- The state in front of the loop, with `inbox` to come: `mac_list_init` was called. -/
def mainStart (inbox : List Recv) : MainState := ⟨Ulog.boot inbox, macListInit Sys.boot⟩

/-- The state after the body of the loop. -/
def resume (u : Ulog) : Except Halt Sys → Except MainEnd MainState
  | .ok s => .ok ⟨u, s⟩
  | .error h => .error (.halt h)

variable (L : MsgLayout) (localtime : Int → Bool) (host : Host)

/-- A turn of `while (1)`. -/
def mainTurn (st : MainState) : Except MainEnd MainState :=
  match ulogGetPacket st.ulog with
  | .error e => .error (.receive e st.sys)
  | .ok (none, u) => .ok ⟨u, st.sys⟩
  | .ok (some msg, u) =>
      if Readable L msg then resume u (mainBody localtime host (readMsg L u.buf msg) st.sys)
      else .error (.outside st.sys)

/-- `n` turns. -/
def mainTurns (n : Nat) (st : MainState) : Except MainEnd MainState :=
  run (fun _ => mainTurn L localtime host) (List.replicate n ()) st

section

variable {L localtime host} {st : MainState} {u : Ulog}

theorem mainTurn_error {e : Ended} (h : ulogGetPacket st.ulog = .error e) :
    mainTurn L localtime host st = .error (.receive e st.sys) := by
  simp only [mainTurn, h]

theorem mainTurn_none (h : ulogGetPacket st.ulog = .ok (none, u)) :
    mainTurn L localtime host st = .ok ⟨u, st.sys⟩ := by
  simp only [mainTurn, h]

theorem mainTurn_some {msg : Nat} (h : ulogGetPacket st.ulog = .ok (some msg, u))
    (hin : Readable L msg) :
    mainTurn L localtime host st
      = resume u (mainBody localtime host (readMsg L u.buf msg) st.sys) := by
  simp only [mainTurn, h, if_pos hin]

theorem mainTurn_outside {msg : Nat} (h : ulogGetPacket st.ulog = .ok (some msg, u))
    (hout : ¬ Readable L msg) : mainTurn L localtime host st = .error (.outside st.sys) := by
  simp only [mainTurn, h, if_neg hout]

end

/-! ## Every run -/

/-- How the program is after some turns: it runs, it waits for a datagram or gave up receiving, the
cursor has left the buffer, or the body of the loop ended the program. -/
inductive MainOutcome : Except MainEnd MainState → Prop
  | running {st : MainState} : Running st.sys → MainOutcome (.ok st)
  | receive {why : Ended} {s : Sys} : Running s → MainOutcome (.error (.receive why s))
  | outside {s : Sys} : Running s → MainOutcome (.error (.outside s))
  | halt {h : Halt} : BodyFailed h → MainOutcome (.error (.halt h))

variable {L localtime host}

theorem Running.start (inbox : List Recv) : Running (mainStart inbox).sys := by
  refine ⟨?_, (namesFit_iff 0).mpr (by decide)⟩
  constructor
  all_goals simp [mainStart, Sys.boot, names, fds, openCount]

theorem BodyOutcome.resume {r : Except Halt Sys} (h : BodyOutcome r) (u : Ulog) :
    MainOutcome (TapProject.resume u r) := by
  cases r with
  | ok s => exact .running h
  | error e => exact .halt h

/-- A turn, whatever `ulog_get_packet` returned. -/
theorem Running.mainTurn (hf : host.Fresh) {st : MainState} (h : Running st.sys) :
    MainOutcome (mainTurn L localtime host st) := by
  cases hcall : ulogGetPacket st.ulog with
  | error e =>
      rw [mainTurn_error hcall]
      exact .receive h
  | ok p =>
      obtain ⟨msg, u⟩ := p
      cases msg with
      | none =>
          rw [mainTurn_none hcall]
          exact .running h
      | some msg =>
          by_cases hin : Readable L msg
          · rw [mainTurn_some hcall hin]
            exact (h.mainBody hf _).resume u
          · rw [mainTurn_outside hcall hin]
            exact .outside h

/-- **Every run of the program is orderly.** Whatever arrives, and whatever `open` and `ioctl`
answer, as long as `open` returns no descriptor that is open: after any number of turns the devices
of the table are numbered in order and their names fit, no address or descriptor occurs twice in it,
the descriptors that are open are exactly its descriptors, and everything that happened was allowed
when it did. The program only ends when receiving does, when the cursor leaves the buffer, at a
stamp without a date, when a device cannot be opened, and then no descriptor has been lost, or at
the eleventh device, whose name does not fit. -/
theorem main_orderly (L : MsgLayout) (localtime : Int → Bool) (host : Host) (hf : host.Fresh)
    (inbox : List Recv) (n : Nat) :
    MainOutcome (mainTurns L localtime host n (mainStart inbox)) := by
  apply run_result (P := MainOutcome)
  case h₀ => exact .running (Running.start inbox)
  case hstep =>
    intro _ _ st hst
    cases hst with
    | running hst => exact hst.mainTurn hf

/-- The layout of the structure on a 64-bit machine. -/
def layout64 : MsgLayout := ⟨0, 36, 52, 104, 136, 144⟩

/-- The times to which such a machine gives a date: the year is an `int`. -/
def localtime64 (t : Int) : Bool := -67768040609740800 ≤ t ∧ t ≤ 67768036191676799

/-- An array of `IFNAMSIZ` characters with the text in it. -/
def nameBytes (text : CStr) : List UInt8 :=
  text.map (fun c => UInt8.ofNat c.toNat) ++ List.replicate (IFNAMSIZ - text.length) 0

/-- The message of a captured frame as such a machine lays it out, with the stamp 0. -/
def payload64 (physindev physoutdev : CStr) (frame : List UInt8) : List UInt8 :=
  bytes32 1 ++ (List.replicate 32 0 ++ (nameBytes physindev ++ (nameBytes physoutdev
    ++ (List.replicate 68 0 ++ (bytes32 frame.length ++ (bytes32 0 ++ frame))))))

/-- A datagram with a frame to the guest `0:16:3e:d:58:<guest>` that gives `count` as its length. -/
def knock (guest count : UInt8) : List UInt8 :=
  (NlMsg.mk 111 0 0 0 (payload64 [] interfaceDev
    [0x00, 0x16, 0x3e, 0x0d, 0x58, guest, 0x00, 0x16, 0x3e, 0, 0, 1, 8, 0, 0x45, 0, count, 0,
      0, 0, 0, 0, 64, 17, 0, 0, 192, 168, 0, 2, 192, 168, 0, 3])).bytes

/-- A system on which one device can be opened. -/
def oneDevice : Host := ⟨fun es => if openFds es = [] then 4 else -1, fun _ _ _ name => (0, name)⟩

theorem oneDevice_fresh : oneDevice.Fresh := by
  intro es hpos
  have hnil : openFds es = [] := by
    by_contra hne
    simp [oneDevice, hne] at hpos
  simp [hnil]

/-- How a run ended that ended in the body of the loop: why, and with which table. -/
def halted : Except MainEnd MainState → Option (Stop × List MacList × List Int)
  | .error (.halt h) => some (h.why, h.sys.listTop, openFds h.sys.trace)
  | _ => none

theorem of_halted {r : Except MainEnd MainState} {why : Stop} {l : List MacList} {fds : List Int}
    (h : halted r = some (why, l, fds)) :
    ∃ t, r = .error (.halt t) ∧ t.why = why ∧ t.sys.listTop = l ∧ openFds t.sys.trace = fds := by
  rcases r with (⟨why, s⟩ | s | t) | st
  case error.halt =>
    simp only [halted, Option.some.injEq, Prod.mk.injEq] at h
    exact ⟨t, rfl, h⟩
  all_goals exact absurd h (by simp [halted])

/-- Two guests, with an interruption between them. -/
def twoGuests : List Recv :=
  [.datagram 12 (knock 0xc1 34), .failed EINTR, .datagram 12 (knock 0xc2 34)]

/-- On this system the first one has its device when the second one gets none. -/
theorem halted_twoGuests :
    ∃ h, mainTurns layout64 localtime64 oneDevice 2 (mainStart twoGuests) = .error (.halt h)
      ∧ h.why = .exit 1
      ∧ h.sys.listTop = [⟨"0:16:3e:d:58:c1".toList, "tap0".toList, 4⟩,
          ⟨"0:16:3e:d:58:c2".toList, "tap1".toList, -1⟩]
      ∧ openFds h.sys.trace = [4] :=
  of_halted (by decide +kernel)

theorem main_orderly_refused :
    ∃ h, mainTurns layout64 localtime64 oneDevice 2 (mainStart twoGuests) = .error (.halt h)
      ∧ h.why = .exit 1
      ∧ h.sys.listTop = [⟨"0:16:3e:d:58:c1".toList, "tap0".toList, 4⟩,
          ⟨"0:16:3e:d:58:c2".toList, "tap1".toList, -1⟩]
      ∧ openFds h.sys.trace = [4] ∧ BodyFailed h := by
  obtain ⟨h, hrun, hwhy, htable, hopen⟩ := halted_twoGuests
  have hout := main_orderly layout64 localtime64 oneDevice oneDevice_fresh twoGuests 2
  rw [hrun] at hout
  cases hout with
  | halt hbody => exact ⟨h, hrun, hwhy, htable, hopen, hbody⟩

end TapProject
