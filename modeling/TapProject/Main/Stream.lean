import TapProject.Main.Loop
import TapProject.Netlink.InOrder

set_option autoImplicit false

/-! # The program on a stream of datagrams

On well-formed datagrams the loop of `main` is the run of its body over the messages in them, one
turn for each, in order, and after the last one it waits for the next datagram. This holds whatever
the system answers (`main_stream`). -/

namespace TapProject

open Runs Slices Netlink Cursor

variable (L : MsgLayout)

/-- The messages of the datagrams `as`, each given with the places of its messages, as they are read
from the receive buffer, which held `buf` before. -/
def messagesOf (buf : Nat → UInt8) : List (Arrival × List Nat) → List EbtUlogPacketMsg
  | [] => []
  | (a, offs) :: as =>
      offs.map (fun off => readMsg L (fill a.captured buf) (nlmsgData off))
        ++ messagesOf (fill a.captured buf) as

/-- A datagram that fits the buffer, with the places of its messages, all of which are read inside
the buffer. -/
structure Arrives (a : Arrival × List Nat) : Prop where
  fits : a.1.bytes.length ≤ BUFLEN
  layout : Layout a.1.bytes a.2
  readable : ∀ off ∈ a.2, Readable L (nlmsgData off)

variable {L} {localtime : Int → Bool} {host : Host} {u : Ulog} {s : Sys}

/-! ## Turns -/

theorem mainTurns_add (k n : Nat) (st : MainState) :
    mainTurns L localtime host (k + n) st
      = (mainTurns L localtime host k st).bind (mainTurns L localtime host n) := by
  rw [mainTurns, List.replicate_add, run_append]
  rfl

theorem mainTurns_one (st : MainState) :
    mainTurns L localtime host 1 st = mainTurn L localtime host st :=
  run_singleton () st

theorem mainTurns_succ (n : Nat) (st : MainState) :
    mainTurns L localtime host (n + 1) st
      = (mainTurn L localtime host st).bind (mainTurns L localtime host n) := by
  rw [Nat.add_comm, mainTurns_add, mainTurns_one]

/-- Where the body went on, the turns do. -/
theorem resume_bind {v : Ulog} {n : Nat} {g : Sys → Except Halt Sys}
    (h : ∀ s, mainTurns L localtime host n ⟨u, s⟩ = resume v (g s)) (r : Except Halt Sys) :
    (resume u r).bind (mainTurns L localtime host n) = resume v (r.bind g) := by
  cases r with
  | error e => rfl
  | ok s => exact h s

/-- Two receivers that answer the next call alike. -/
theorem mainTurns_congr {u' : Ulog} (h : ulogGetPacket u = ulogGetPacket u') (n : Nat) :
    mainTurns L localtime host (n + 1) ⟨u, s⟩ = mainTurns L localtime host (n + 1) ⟨u', s⟩ := by
  have hturn : mainTurn L localtime host ⟨u, s⟩ = mainTurn L localtime host ⟨u', s⟩ := by
    simp only [mainTurn, h]
  rw [mainTurns_succ, mainTurns_succ, hturn]

/-- With the cursor at a message, a turn passes the message to the body. -/
theorem mainTurn_of_some {nlh : Nat} (h : u.nlh = some nlh) (hin : Readable L (nlmsgData nlh)) :
    mainTurn L localtime host ⟨u, s⟩
      = resume (deliver nlh u).2 (mainBody localtime host (readMsg L u.buf (nlmsgData nlh)) s) := by
  rw [mainTurn_some (ulogGetPacket_of_some h) hin, deliver_buf]

/-! ## The simulation -/

section

variable (L localtime host)

/-- The turns along a walk of the cursor. -/
theorem turns_walk {P : Nat → Prop} {nlh : Nat} {offs : List Nat}
    (h : Walk P (nextHeader u.buf) nlh offs) (hin : ∀ off ∈ offs, Readable L (nlmsgData off))
    (hu : u.nlh = some nlh) :
    ∃ v, v.nlh = none ∧ v.inbox = u.inbox ∧ v.buf = u.buf
      ∧ ∀ s, mainTurns L localtime host offs.length ⟨u, s⟩
        = resume v (run (mainBody localtime host)
            (offs.map fun off => readMsg L u.buf (nlmsgData off)) s) := by
  generalize hnext : nextHeader u.buf = next at h
  induction h generalizing u with
  | @last off _ hn =>
      refine ⟨(deliver off u).2, by rw [deliver_nlh, hnext, hn], by simp, by simp, fun s => ?_⟩
      rw [List.length_singleton, mainTurns_one,
        mainTurn_of_some hu (hin off (List.mem_singleton.mpr rfl)), List.map_singleton,
        run_singleton]
  | @step off b bs _ hn _ ih =>
      obtain ⟨hoff, hbs⟩ := List.forall_mem_cons.mp hin
      obtain ⟨v, hnlh, hinbox, hbuf, hturns⟩ := ih (u := (deliver off u).2) hbs
        (by rw [deliver_nlh, hnext, hn]) (by rw [deliver_buf, hnext])
      rw [deliver_buf] at hbuf hturns
      rw [deliver_inbox] at hinbox
      refine ⟨v, hnlh, hinbox, hbuf, fun s => ?_⟩
      rw [List.length_cons, mainTurns_succ, mainTurn_of_some hu hoff, resume_bind hturns,
        List.map_cons, ← List.singleton_append, run_append, run_singleton]

/-- The turns on one datagram. -/
theorem turns_datagram {a : Arrival} {offs : List Nat} (h : Layout a.captured offs)
    (hin : ∀ off ∈ offs, Readable L (nlmsgData off)) {rest : List Recv} (hu : u.nlh = none)
    (hi : u.inbox = a.recvs ++ rest) :
    ∃ v, v.nlh = none ∧ v.inbox = rest ∧ v.buf = fill a.captured u.buf
      ∧ ∀ s, mainTurns L localtime host offs.length ⟨u, s⟩
        = resume v (run (mainBody localtime host)
            (offs.map fun off => readMsg L (fill a.captured u.buf) (nlmsgData off)) s) := by
  obtain ⟨t, ht, hcall⟩ := ulogGetPacket_arrival hu hi
  rw [if_pos (h.nlmsgOk a.length_captured_le u.buf)] at hcall
  have hw := (walk_fill_iff (fun _ => 0) u.buf).mp h
  rw [← ht.buf] at hw
  obtain ⟨v, hnlh, hinbox, hbuf, hturns⟩ := turns_walk L localtime host hw hin ht.nlh
  rw [ht.buf] at hturns hbuf
  refine ⟨v, hnlh, hinbox.trans ht.inbox, hbuf, fun s => ?_⟩
  -- the first turn is made from `u`, and there is one
  obtain ⟨off, offs, rfl⟩ := List.exists_cons_of_ne_nil hw.ne_nil
  rw [List.length_cons] at hturns ⊢
  rw [mainTurns_congr hcall, hturns]

/-- The turns on a sequence of datagrams. -/
theorem turns_stream (as : List (Arrival × List Nat)) (h : ∀ a ∈ as, Arrives L a)
    (hu : u.nlh = none) (hi : u.inbox = inboxOf as) :
    ∃ v, v.nlh = none ∧ v.inbox = []
      ∧ ∀ s, mainTurns L localtime host (messageCount as) ⟨u, s⟩
        = resume v (run (mainBody localtime host) (messagesOf L u.buf as) s) := by
  induction as generalizing u with
  | nil => exact ⟨u, hu, hi, fun _ => rfl⟩
  | cons a as ih =>
      obtain ⟨⟨hlen, hlayout, hin⟩, has⟩ := List.forall_mem_cons.mp h
      have hcaptured : a.1.captured = a.1.bytes := List.take_of_length_le hlen
      rw [← hcaptured] at hlayout
      -- the first datagram, and from the state after it all others
      obtain ⟨v₁, hnlh, hinbox, hbuf, hturns⟩ :=
        turns_datagram L localtime host hlayout hin hu hi
      obtain ⟨v, hnlh', hinbox', hturns'⟩ := ih has hnlh hinbox
      rw [hbuf] at hturns'
      refine ⟨v, hnlh', hinbox', fun s => ?_⟩
      have hcount : messageCount (a :: as) = a.2.length + messageCount as := rfl
      rw [hcount, mainTurns_add, hturns, resume_bind hturns', messagesOf, run_append]

end

/-- Without anything to come the loop waits. -/
theorem mainTurn_blocked (hu : u.nlh = none) (hi : u.inbox = []) :
    mainTurn L localtime host ⟨u, s⟩ = .error (.receive .blocked s) := by
  have hcall : ulogGetPacket u = .error .blocked := by
    simp only [ulogGetPacket, hu, hi]
    rfl
  exact mainTurn_error hcall

/-- **The program on well-formed datagrams.** Whatever the system answers, with any interruptions of
`recvfrom` between the datagrams, and when all messages are read inside the buffer: as many turns as
there are messages do what the body of the loop does on these messages one after the other, and end
the program where the body does; if it goes on, the next turn waits for another datagram. -/
theorem main_stream (L : MsgLayout) (localtime : Int → Bool) (host : Host)
    (as : List (Arrival × List Nat)) (h : ∀ a ∈ as, Arrives L a) :
    ∃ v, mainTurns L localtime host (messageCount as) (mainStart (inboxOf as))
        = resume v (run (mainBody localtime host) (messagesOf L (fun _ => 0) as)
            (macListInit Sys.boot))
      ∧ ∀ s, mainTurn L localtime host ⟨v, s⟩ = .error (.receive .blocked s) := by
  obtain ⟨v, hnlh, hinbox, hturns⟩ :=
    turns_stream L localtime host (u := Ulog.boot (inboxOf as)) as h rfl rfl
  exact ⟨v, hturns _, fun s => mainTurn_blocked hnlh hinbox⟩

/-- The datagrams of two guests, each with its message. -/
def guestArrivals : List (Arrival × List Nat) :=
  [(⟨0, knock 0xc1 34⟩, [0]), (⟨1, knock 0xc2 34⟩, [0])]

theorem arrives_guests : ∀ a ∈ guestArrivals, Arrives layout64 a := by
  refine List.forall_mem_cons.mpr ⟨?_, List.forall_mem_singleton.mpr ?_⟩
  · exact ⟨by decide +kernel, .last (by decide +kernel) (by decide +kernel), by decide⟩
  · exact ⟨by decide +kernel, .last (by decide +kernel) (by decide +kernel), by decide⟩

/-- Two turns on them are two runs of the body, the second of which ends the program. -/
theorem main_stream_refused :
    ∃ v h, mainTurns layout64 localtime64 oneDevice 2 (mainStart twoGuests)
        = resume v (run (mainBody localtime64 oneDevice)
            (messagesOf layout64 (fun _ => 0) guestArrivals) (macListInit Sys.boot))
      ∧ mainTurns layout64 localtime64 oneDevice 2 (mainStart twoGuests) = .error (.halt h)
      ∧ h.why = .exit 1
      ∧ (messagesOf layout64 (fun _ => 0) guestArrivals).map (fun m => etherNtoa m.hDest)
        = ["0:16:3e:d:58:c1".toList, "0:16:3e:d:58:c2".toList] := by
  obtain ⟨h, hrun, hwhy, -, -⟩ := halted_twoGuests
  obtain ⟨v, hturns, -⟩ :=
    main_stream layout64 localtime64 oneDevice guestArrivals arrives_guests
  exact ⟨v, h, hturns, hrun, hwhy, by decide +kernel⟩

end TapProject
