import TapProject.Netlink.UlogGetPacket

set_option autoImplicit false

/-! # Delivery of well-formed datagrams

From a state in which `nlh` is `NULL`, a well-formed datagram takes as many calls of
`ulog_get_packet` as it has messages: the first one receives it, the calls return its payloads
in order, and the last one leaves `nlh` at `NULL` again (`calls_datagram`). The calls over a
sequence of datagrams are these one after the other (`calls_deliver`). -/

namespace TapProject.Netlink

open Cursor Calls Slices

/-- What a caller sees of a call: the message returned, the datagram in the buffer and what the
socket has not delivered yet. -/
def view (c : Option Nat × Ulog) : Option Nat × List UInt8 × List Recv :=
  (c.1, slice c.2.buf 0 c.2.len.toNat, c.2.inbox)

/-- The views of the calls that return the messages at `offs` of the datagram `d`. -/
def views (d : List UInt8) (offs : List Nat) (inbox : List Recv) :
    List (Option Nat × List UInt8 × List Recv) :=
  offs.map fun off => (some (nlmsgData off), d, inbox)

theorem slice_fill (d : List UInt8) (buf : Nat → UInt8) : slice (fill d buf) 0 d.length = d := by
  apply List.ext_getElem (slice_length _ _ _)
  intro i _ hi
  simp [slice_getElem, fill, hi]

/-- The calls along a walk of the cursor receive nothing and return the messages visited. -/
theorem calls_walk {P : Nat → Prop} {nlh : Nat} {offs : List Nat} {s : Ulog}
    (h : Walk P (nextHeader s.buf) nlh offs) (hs : s.nlh = some nlh) :
    ∃ log t, calls ulogGetPacket offs.length s = .ok (log, t)
      ∧ log.map view = views (slice s.buf 0 s.len.toNat) offs s.inbox
      ∧ t.nlh = none ∧ t.inbox = s.inbox ∧ t.buf = s.buf := by
  generalize hnext : nextHeader s.buf = next at h
  induction h generalizing s with
  | @last off _ hn =>
      have hcall := ulogGetPacket_of_some hs
      refine ⟨_, _, calls_one hcall, ?_, ?_, ?_, ?_⟩
      · simp [view, views]
      · rw [deliver_nlh, hnext, hn]
      · simp
      · simp
  | @step off b bs _ hn hw ih =>
      have hcall := ulogGetPacket_of_some hs
      obtain ⟨log, t, hlog, hview, hnlh, hinbox, hbuf⟩ := ih (s := (deliver off s).2)
        (by rw [deliver_nlh, hnext, hn]) (by rw [deliver_buf, hnext])
      simp only [deliver_buf, deliver_len, deliver_inbox] at hview hinbox hbuf
      refine ⟨_, t, calls_succ_ok hcall hlog, ?_, hnlh, hinbox, hbuf⟩
      rw [List.map_cons, hview]
      simp [view, views]

/-- The first header of a well-formed datagram is accepted. -/
theorem Layout.nlmsgOk {d : List UInt8} {offs : List Nat} (h : Layout d offs)
    (hd : d.length ≤ BUFLEN) (buf : Nat → UInt8) : nlmsgOk (fill d buf) 0 BUFLEN := by
  have hin := (h.head).fill buf
  have hlen := hin.2
  rw [Nat.zero_add] at hlen
  exact ⟨by decide, hin.1, hlen.trans hd⟩

/-- **One datagram.** -/
theorem calls_datagram {a : Arrival} {offs : List Nat} (h : Layout a.captured offs)
    {rest : List Recv} {s : Ulog} (hs : s.nlh = none) (hi : s.inbox = a.recvs ++ rest) :
    ∃ log t, calls ulogGetPacket offs.length s = .ok (log, t)
      ∧ log.map view = views a.captured offs rest ∧ t.nlh = none ∧ t.inbox = rest := by
  obtain ⟨t₀, ht₀, hcall⟩ := ulogGetPacket_arrival hs hi
  rw [if_pos (h.nlmsgOk a.length_captured_le s.buf)] at hcall
  have hw := (walk_fill_iff (fun _ => 0) s.buf).mp h
  rw [← ht₀.buf] at hw
  obtain ⟨log, t, hlog, hview, hnlh, hinbox, -⟩ := calls_walk hw ht₀.nlh
  rw [ht₀.buf, ht₀.len, Int.toNat_natCast, slice_fill, ht₀.inbox] at hview
  refine ⟨log, t, ?_, hview, hnlh, by rw [hinbox, ht₀.inbox]⟩
  -- the first call is made from `s`, and there is one
  obtain ⟨off, offs, rfl⟩ := List.exists_cons_of_ne_nil hw.ne_nil
  rw [List.length_cons] at hlog ⊢
  rw [calls_succ_congr hcall, hlog]

/-! ## A sequence of datagrams -/

/-- What the socket will deliver for a sequence of arrivals, given with their layouts. -/
def inboxOf (as : List (Arrival × List Nat)) : List Recv := as.flatMap fun a => a.1.recvs

/-- The calls a sequence of arrivals is good for: one for each message. -/
def messageCount (as : List (Arrival × List Nat)) : Nat := (as.map fun a => a.2.length).sum

/-- What the calls are to show: the messages of the datagrams in order, each from its own
datagram, while the datagrams after it are not received yet. -/
def deliveries : List (Arrival × List Nat) → List (Option Nat × List UInt8 × List Recv)
  | [] => []
  | (a, offs) :: as => views a.captured offs (inboxOf as) ++ deliveries as

/-- **Delivery exactly once and in order.** From a state in which `nlh` is `NULL`, with
well-formed datagrams and any interruptions between them to come, the calls return the payload
positions of all messages of all datagrams, each once and in order; a datagram is received by
the call for its first message, and after the last message the next call waits. -/
theorem calls_deliver (as : List (Arrival × List Nat))
    (h : ∀ a ∈ as, a.1.bytes.length ≤ BUFLEN ∧ Layout a.1.bytes a.2) (s : Ulog)
    (hs : s.nlh = none) (hi : s.inbox = inboxOf as) :
    ∃ log t, calls ulogGetPacket (messageCount as) s = .ok (log, t)
      ∧ log.map view = deliveries as ∧ ulogGetPacket t = .error .blocked := by
  induction as generalizing s with
  | nil => exact ⟨[], s, rfl, rfl, by simp only [ulogGetPacket, hs, hi]; rfl⟩
  | cons a as ih =>
      obtain ⟨⟨hlen, hlayout⟩, has⟩ := List.forall_mem_cons.mp h
      have hcaptured : a.1.captured = a.1.bytes := List.take_of_length_le hlen
      rw [← hcaptured] at hlayout
      -- the first datagram, and from the state after it all others
      obtain ⟨log, t, hlog, hview, hnlh, hinbox⟩ := calls_datagram hlayout hs hi
      obtain ⟨log', t', hlog', hview', hblocked⟩ := ih has t hnlh hinbox
      refine ⟨log ++ log', t', calls_add hlog hlog', ?_, hblocked⟩
      rw [List.map_append, hview, hview']
      rfl

/-- A message of 17 bytes that announces another one, padded, and the `NLMSG_DONE` after it. -/
def twoMessages : List UInt8 :=
  [17, 0, 0, 0, 111, 0, 2, 0, 0, 0, 0, 0, 0, 0, 0, 0, 0xaa, 0, 0, 0,
    16, 0, 0, 0, 3, 0, 2, 0, 0, 0, 0, 0, 0, 0, 0, 0]

/-- A single message without payload. -/
def oneMessage : List UInt8 := [16, 0, 0, 0, 111, 0, 0, 0, 0, 0, 0, 0, 0, 0, 0, 0]

theorem layout_twoMessages : Layout twoMessages [0, 20] :=
  .step (by decide) (by decide) (.last (by decide) (by decide))

theorem layout_oneMessage : Layout oneMessage [0] := .last (by decide) (by decide)

theorem calls_deliver_three :
    ∃ log t, calls ulogGetPacket 3 (Ulog.boot
        [.failed EINTR, .datagram 12 twoMessages, .datagram 12 oneMessage]) = .ok (log, t)
      ∧ log.map (fun c => (c.1, c.2.inbox))
        = [(some 16, [.datagram 12 oneMessage]), (some 36, [.datagram 12 oneMessage]),
          (some 16, [])]
      ∧ ulogGetPacket t = .error .blocked := by
  obtain ⟨log, t, hlog, hview, hblocked⟩ := calls_deliver
    [(⟨1, twoMessages⟩, [0, 20]), (⟨0, oneMessage⟩, [0])]
    (by simpa using ⟨⟨by decide, layout_twoMessages⟩, by decide, layout_oneMessage⟩)
    (Ulog.boot [.failed EINTR, .datagram 12 twoMessages, .datagram 12 oneMessage]) rfl rfl
  refine ⟨log, t, hlog, ?_, hblocked⟩
  have := congrArg (List.map fun v => (v.1, v.2.2)) hview
  rw [List.map_map] at this
  exact this

end TapProject.Netlink
