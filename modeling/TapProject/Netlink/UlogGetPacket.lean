import Mathlib.Algebra.Order.Ring.Int
import TapProject.Lib.Calls
import TapProject.Netlink.Header

set_option autoImplicit false

/-! # `ulog_get_packet`

The generator of received messages, the same in `write_tap_v5.c` and `write_tap_v5_hyper.c`. Its
static variables are the state `Ulog`: the cursor `nlh` (an offset into the buffer, `none` for
`NULL`), the length of the last datagram and two counters, together with the buffer and what
the socket will deliver (`inbox`). A message that is returned is the offset of its payload, and a
pointer of 64 bits does not wrap around.

Without `PRINTF` two of the function's `if`s are not what they look like: the one before
`recvfrom` guards the assignment `pkts_per_msg = 0`, and the one for truncated packets has an
empty body. -/

namespace TapProject.Netlink

open Cursor Calls

/-! ## The function -/

def BUFLEN : Nat := 131072
def DEBUG_QUEUE : Nat := 0
def EINTR : Nat := 4

/-- `sizeof(sa_kernel)` -/
def sizeofSockaddrNl : Nat := 12

/-- What one call of `recvfrom` meets: a datagram with the length of its sender's address, or a
failure that sets `errno`. -/
inductive Recv
  | datagram (addrlen : Nat) (bytes : List UInt8)
  | failed (errno : Nat)
  deriving DecidableEq, Repr

structure Ulog where
  nlh : Option Nat
  len : Int
  remainLen : Int
  pktsPerMsg : Int
  buf : Nat → UInt8
  inbox : List Recv

/-- The state in which the program starts, with `inbox` to come. -/
def Ulog.boot (inbox : List Recv) : Ulog := ⟨none, 0, 0, 0, fun _ => 0, inbox⟩

/-- A call that does not return: the program ends, or `recvfrom` waits. -/
inductive Ended
  | exit (code : Int)
  | blocked
  deriving DecidableEq, Repr

/-- `if (pkts_per_msg && DEBUG_QUEUE)` with the assignment `pkts_per_msg = 0;` behind it. -/
def resetCount (s : Ulog) : Ulog :=
  if s.pktsPerMsg ≠ 0 ∧ DEBUG_QUEUE ≠ 0 then { s with pktsPerMsg := 0 } else s

/-- The block from `recv_new` on, up to the assignment to `nlh`. -/
def recvNew (s : Ulog) : List Recv → Except Ended Ulog
  | [] => .error .blocked
  | .failed errno :: inbox =>
      let s := { resetCount s with len := -1, inbox }
      -- a failed `recvfrom` leaves `addrlen` at `sizeof(sa_kernel)`
      if errno = EINTR then recvNew s inbox else .error (.exit (-1))
  | .datagram addrlen bytes :: inbox =>
      let d := bytes.take BUFLEN
      let s := { resetCount s with len := d.length, buf := fill d s.buf, inbox }
      if addrlen ≠ sizeofSockaddrNl then .error (.exit (-1)) else .ok s

/-- The function from `msg = NLMSG_DATA(nlh)` on. -/
def deliver (nlh : Nat) (s : Ulog) : Option Nat × Ulog :=
  let msg := nlmsgData nlh
  let s := { s with remainLen := Int.bmod (s.len - nlh) (2 ^ 32) }
  let s :=
    if isMulti s.buf nlh then
      { s with
        remainLen := Int.bmod (s.remainLen - nlmsgAlign (nlmsgLen s.buf nlh)) (2 ^ 32)
        nlh := some (nlmsgNext s.buf nlh) }
    else { s with nlh := none }
  (some msg, { s with pktsPerMsg := s.pktsPerMsg + 1 })

def ulogGetPacket (s : Ulog) : Except Ended (Option Nat × Ulog) :=
  match s.nlh with
  | some nlh => .ok (deliver nlh s)
  | none =>
    match recvNew s s.inbox with
    | .error e => .error e
    | .ok s =>
      let s := { s with nlh := some 0 }
      -- the test for `MSG_TRUNC` and `len > BUFLEN` stands here and guards nothing
      if ¬ nlmsgOk s.buf 0 BUFLEN then .ok (none, s) else .ok (deliver 0 s)

/-! ## What a call does -/

@[simp] theorem deliver_nlh (nlh : Nat) (s : Ulog) :
    (deliver nlh s).2.nlh = nextHeader s.buf nlh := by
  by_cases h : isMulti s.buf nlh <;> simp [deliver, nextHeader, h]

@[simp] theorem deliver_len (nlh : Nat) (s : Ulog) : (deliver nlh s).2.len = s.len := by
  by_cases h : isMulti s.buf nlh <;> simp [deliver, h]

@[simp] theorem deliver_buf (nlh : Nat) (s : Ulog) : (deliver nlh s).2.buf = s.buf := by
  by_cases h : isMulti s.buf nlh <;> simp [deliver, h]

@[simp] theorem deliver_inbox (nlh : Nat) (s : Ulog) : (deliver nlh s).2.inbox = s.inbox := by
  by_cases h : isMulti s.buf nlh <;> simp [deliver, h]

theorem ulogGetPacket_of_some {s : Ulog} {nlh : Nat} (h : s.nlh = some nlh) :
    ulogGetPacket s = .ok (some (nlmsgData nlh), (deliver nlh s).2) := by
  simp only [ulogGetPacket, h]
  rfl

theorem eq_of_ulogGetPacket_ok {s s' : Ulog} {nlh : Nat} {msg : Option Nat}
    (h : s.nlh = some nlh) (hc : ulogGetPacket s = .ok (msg, s')) :
    msg = some (nlmsgData nlh) ∧ s' = (deliver nlh s).2 := by
  rw [ulogGetPacket_of_some h, Except.ok.injEq, Prod.mk.injEq] at hc
  exact ⟨hc.1.symm, hc.2.symm⟩

/-! ## Receiving -/

/-- A datagram that arrives after some interrupted calls of `recvfrom`. -/
structure Arrival where
  interrupts : Nat
  bytes : List UInt8
  deriving DecidableEq, Repr

def Arrival.recvs (a : Arrival) : List Recv :=
  List.replicate a.interrupts (.failed EINTR) ++ [.datagram sizeofSockaddrNl a.bytes]

/-- What `recvfrom` puts into the buffer. -/
def Arrival.captured (a : Arrival) : List UInt8 := a.bytes.take BUFLEN

theorem Arrival.length_captured_le (a : Arrival) : a.captured.length ≤ BUFLEN :=
  List.length_take_le _ _

/-- The state `t` has just received the datagram `d` into the buffer `buf`. -/
structure Received (d : List UInt8) (buf : Nat → UInt8) (inbox : List Recv) (t : Ulog) : Prop where
  nlh : t.nlh = some 0
  len : t.len = d.length
  buf : t.buf = fill d buf
  inbox : t.inbox = inbox

/-- The count is never reset. -/
theorem resetCount_eq (s : Ulog) : resetCount s = s := by simp [resetCount, DEBUG_QUEUE]

theorem recvNew_arrival (a : Arrival) (rest : List Recv) (s : Ulog) :
    ∃ t, recvNew s (a.recvs ++ rest) = .ok t
      ∧ Received a.captured s.buf rest { t with nlh := some 0 } := by
  obtain ⟨k, bytes⟩ := a
  induction k generalizing s with
  | zero => exact ⟨_, rfl, rfl, rfl, rfl, rfl⟩
  | succ k ih =>
      have hrecvs : (Arrival.mk (k + 1) bytes).recvs ++ rest
          = .failed EINTR :: ((Arrival.mk k bytes).recvs ++ rest) := by
        simp [Arrival.recvs, List.replicate_succ]
      rw [hrecvs, recvNew, resetCount_eq, if_pos rfl]
      exact ih _

/-- With an arrival next, the call is the one from the state that has just received it, unless
the first header is rejected. -/
theorem ulogGetPacket_arrival {a : Arrival} {rest : List Recv} {s : Ulog} (h : s.nlh = none)
    (hi : s.inbox = a.recvs ++ rest) :
    ∃ t, Received a.captured s.buf rest t
      ∧ ulogGetPacket s
        = if nlmsgOk (fill a.captured s.buf) 0 BUFLEN then ulogGetPacket t else .ok (none, t) := by
  obtain ⟨t, hok, ht⟩ := recvNew_arrival a rest s
  refine ⟨_, ht, ?_⟩
  have hbuf : t.buf = fill a.captured s.buf := ht.buf
  rw [ulogGetPacket_of_some ht.nlh, ulogGetPacket, h, hi, ← hbuf]
  simp only [hok, ite_not]
  rfl

/-- The state `s` with `inbox` to come. -/
def Ulog.expecting (s : Ulog) (inbox : List Recv) : Ulog := { s with inbox }

theorem ulogGetPacket_expecting {a : Arrival} {rest inbox : List Recv} {s : Ulog}
    (h : s.nlh = none) (hi : inbox = a.recvs ++ rest) :
    ∃ t, Received a.captured s.buf rest t
      ∧ ulogGetPacket (s.expecting inbox)
        = if nlmsgOk (fill a.captured s.buf) 0 BUFLEN then ulogGetPacket t else .ok (none, t) :=
  ulogGetPacket_arrival (s := s.expecting inbox) h hi

/-- The datagrams that are received from an inbox, up to the first failure that ends the
program. -/
def received : List Recv → List (List UInt8)
  | [] => []
  | .failed errno :: inbox => if errno = EINTR then received inbox else []
  | .datagram addrlen bytes :: inbox =>
      if addrlen = sizeofSockaddrNl then bytes.take BUFLEN :: received inbox else []

/-- When nothing is received the call does not return. -/
theorem recvNew_of_received_nil {inbox : List Recv} (h : received inbox = []) (s : Ulog) :
    ∃ e, recvNew s inbox = .error e := by
  induction inbox generalizing s with
  | nil => exact ⟨_, rfl⟩
  | cons r inbox ih =>
      cases r with
      | failed errno =>
          by_cases he : errno = EINTR
          · rw [recvNew, if_pos he]
            exact ih (by simpa [received, he] using h) _
          · exact ⟨_, by rw [recvNew, if_neg he]⟩
      | datagram addrlen bytes =>
          by_cases ha : addrlen = sizeofSockaddrNl
          · simp [received, ha] at h
          · exact ⟨_, by rw [recvNew, if_pos ha]⟩

/-- The first datagram that is received is the one of the first arrival. -/
theorem exists_arrival {inbox : List Recv} {d : List UInt8} {ds : List (List UInt8)}
    (h : received inbox = d :: ds) :
    ∃ a rest, inbox = Arrival.recvs a ++ rest ∧ a.captured = d ∧ received rest = ds := by
  induction inbox with
  | nil => simp [received] at h
  | cons r inbox ih =>
      cases r with
      | failed errno =>
          by_cases he : errno = EINTR
          · rw [received, if_pos he] at h
            obtain ⟨⟨k, bytes⟩, rest, rfl, hd, hds⟩ := ih h
            refine ⟨⟨k + 1, bytes⟩, rest, ?_, hd, hds⟩
            rw [he]
            simp [Arrival.recvs, List.replicate_succ]
          · simp [received, he] at h
      | datagram addrlen bytes =>
          by_cases ha : addrlen = sizeofSockaddrNl
          · rw [received, if_pos ha, List.cons.injEq] at h
            exact ⟨⟨0, bytes⟩, inbox, by rw [ha]; rfl, h.1, h.2⟩
          · simp [received, ha] at h

end TapProject.Netlink
