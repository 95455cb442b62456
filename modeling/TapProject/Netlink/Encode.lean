import TapProject.Netlink.InOrder

set_option autoImplicit false

/-! # Encoded messages

What a sender of netlink messages puts into a datagram: the header, the payload, and zeros up to the
next aligned offset. A memory that holds an encoded message gives its fields back, the payload at
`NLMSG_DATA`, and the next message at `NLMSG_NEXT`.

A datagram of encoded messages of which all but the last announce another one is well formed
(`layout_encode`), so `ulog_get_packet` returns the payloads that were sent (`calls_encode`). -/

namespace TapProject.Netlink

open Cursor Calls Slices

/-! ## Messages -/

/-- A message to be sent: the header but for its length, and the payload. -/
structure NlMsg where
  type : UInt16
  flags : UInt16
  seq : UInt32
  pid : UInt32
  payload : List UInt8
  deriving DecidableEq, Repr

namespace NlMsg

variable (m : NlMsg)

/-- `nlmsg_len` -/
def len : Nat := NLMSG_HDRLEN + m.payload.length

def header : List UInt8 :=
  bytes32 m.len ++ (bytes16 m.type.toNat ++ (bytes16 m.flags.toNat
    ++ (bytes32 m.seq.toNat ++ bytes32 m.pid.toNat)))

/-- The message itself. -/
def text : List UInt8 := m.header ++ m.payload

/-- The message on the wire. -/
def bytes : List UInt8 := m.text ++ List.replicate (nlmsgAlign m.len - m.len) 0

/-- Another message of the same datagram follows. -/
def more : Prop := m.flags.toNat &&& NLM_F_MULTI ≠ 0 ∧ m.type.toNat ≠ NLMSG_DONE

instance : Decidable m.more := inferInstanceAs (Decidable (_ ∧ _))

@[simp] theorem header_length : m.header.length = NLMSG_HDRLEN := rfl

@[simp] theorem text_length : m.text.length = m.len := List.length_append

variable {m}

theorem bytes_length (h : m.len + 3 < 2 ^ 32) : m.bytes.length = nlmsgAlign m.len := by
  have hle := le_nlmsgAlign h
  rw [bytes, List.length_append, text_length, List.length_replicate]
  omega

theorem len_le_bytes_length : m.len ≤ m.bytes.length := by
  rw [bytes, List.length_append, text_length]
  exact Nat.le_add_right _ _

theorem bytes_ne_nil (m : NlMsg) : m.bytes ≠ [] := by
  simp [bytes, text, header, bytes32, bytes16]

end NlMsg

/-! ## Reading a message back -/

section

variable {buf : Nat → UInt8} {nlh : Nat} {m : NlMsg}

theorem text_of_holds (h : Holds buf nlh m.bytes) : Holds buf nlh m.text := (holds_append.mp h).1

variable (h : Holds buf nlh m.text)

include h

theorem nlmsgLen_of_holds (hlen : m.len < 2 ^ 32) : nlmsgLen buf nlh = m.len := by
  obtain ⟨hheader, -⟩ := holds_append.mp h
  obtain ⟨hfield, -⟩ := holds_append.mp hheader
  rw [nlmsgLen, le32_of_holds hfield, Nat.mod_eq_of_lt hlen]

theorem nlmsgType_of_holds : nlmsgType buf nlh = m.type.toNat := by
  obtain ⟨hheader, -⟩ := holds_append.mp h
  obtain ⟨-, hrest⟩ := holds_append.mp hheader
  obtain ⟨hfield, -⟩ := holds_append.mp hrest
  rw [bytes32_length] at hfield
  rw [nlmsgType, le16_of_holds hfield, Nat.mod_eq_of_lt m.type.toNat_lt]

theorem nlmsgFlags_of_holds : nlmsgFlags buf nlh = m.flags.toNat := by
  obtain ⟨hheader, -⟩ := holds_append.mp h
  obtain ⟨-, hrest⟩ := holds_append.mp hheader
  obtain ⟨-, hrest⟩ := holds_append.mp hrest
  obtain ⟨hfield, -⟩ := holds_append.mp hrest
  rw [bytes32_length, bytes16_length, Nat.add_assoc] at hfield
  rw [nlmsgFlags, le16_of_holds hfield, Nat.mod_eq_of_lt m.flags.toNat_lt]

/-- **The payload is where `NLMSG_DATA` looks for it.** -/
theorem payload_of_holds : Holds buf (nlmsgData nlh) m.payload := (holds_append.mp h).2

theorem isMulti_of_holds : isMulti buf nlh ↔ m.more := by
  rw [isMulti, NlMsg.more, nlmsgFlags_of_holds h, nlmsgType_of_holds h]

theorem nlmsgNext_of_holds (hlen : m.len + 3 < 2 ^ 32) :
    nlmsgNext buf nlh = nlh + m.bytes.length := by
  rw [nlmsgNext, nlmsgLen_of_holds h (by omega), NlMsg.bytes_length hlen]

end

/-! ## Datagrams -/

/-- The bytes of the messages, one behind the other. -/
def encode (ms : List NlMsg) : List UInt8 := ms.flatMap NlMsg.bytes

theorem encode_cons (m : NlMsg) (ms : List NlMsg) : encode (m :: ms) = m.bytes ++ encode ms :=
  List.flatMap_cons

/-- Where the messages are whose first one is at `off`. -/
def places (off : Nat) : List NlMsg → List Nat
  | [] => []
  | m :: ms => off :: places (off + m.bytes.length) ms

@[simp] theorem places_length (off : Nat) (ms : List NlMsg) :
    (places off ms).length = ms.length := by
  induction ms generalizing off with
  | nil => rfl
  | cons m ms ih => rw [places, List.length_cons, ih, List.length_cons]

/-- Each message lies between its place and the end of the datagram. -/
theorem exists_of_mem_places {off nlh : Nat} {ms : List NlMsg} (h : nlh ∈ places off ms) :
    ∃ m ∈ ms, nlh + m.len ≤ off + (encode ms).length := by
  induction ms generalizing off with
  | nil => exact absurd h List.not_mem_nil
  | cons m ms ih =>
      rw [encode_cons, List.length_append]
      have hle := m.len_le_bytes_length
      rcases List.mem_cons.mp h with rfl | htail
      · exact ⟨m, List.mem_cons_self, by omega⟩
      · obtain ⟨m', hm', hin⟩ := ih htail
        exact ⟨m', List.mem_cons_of_mem m hm', by omega⟩

/-- There is a message, and all but the last announce another one. -/
inductive Multipart : List NlMsg → Prop
  | last {m : NlMsg} : ¬ m.more → Multipart [m]
  | more {m : NlMsg} {ms : List NlMsg} : m.more → Multipart ms → Multipart (m :: ms)

theorem Multipart.ne_nil {ms : List NlMsg} (h : Multipart ms) : ms ≠ [] := by
  cases h <;> simp

/-- The payloads are in their places, in every memory that holds the messages. -/
theorem payloads_of_holds {P : (Nat → UInt8) → Prop} {off : Nat} {ms : List NlMsg}
    (h : ∀ buf, P buf → Holds buf off (encode ms)) :
    List.Forall₂ (fun nlh m => ∀ buf, P buf → Holds buf (nlmsgData nlh) m.payload)
      (places off ms) ms := by
  induction ms generalizing off with
  | nil => exact .nil
  | cons m ms ih =>
      simp only [encode_cons, holds_append] at h
      exact .cons (fun buf hbuf => payload_of_holds (text_of_holds (h buf hbuf).1))
        (ih fun buf hbuf => (h buf hbuf).2)

/-- The cursor visits the messages in their places. -/
theorem walk_encode {buf : Nat → UInt8} {len off : Nat} {ms : List NlMsg}
    (h : Holds buf off (encode ms)) (hms : Multipart ms) (hin : off + (encode ms).length ≤ len)
    (hlen : len ≤ BUFLEN) :
    Walk (Inside buf len) (nextHeader buf) off (places off ms) := by
  simp only [BUFLEN] at hlen
  induction hms generalizing off with
  | @last m hm =>
      rw [encode_cons, holds_append] at h
      rw [encode_cons, List.length_append] at hin
      have hle := m.len_le_bytes_length
      have htext := text_of_holds h.1
      have hmlen := nlmsgLen_of_holds htext (by omega)
      refine .last ⟨?_, ?_⟩ ?_
      · rw [hmlen, NlMsg.len]
        omega
      · rw [hmlen]
        omega
      · rw [nextHeader, if_neg (mt (isMulti_of_holds htext).mp hm)]
  | @more m ms hm hms ih =>
      rw [encode_cons, holds_append] at h
      rw [encode_cons, List.length_append] at hin
      have hle := m.len_le_bytes_length
      have htext := text_of_holds h.1
      have hmlen := nlmsgLen_of_holds htext (by omega)
      refine .step ⟨?_, ?_⟩ ?_ (ih h.2 (by omega))
      · rw [hmlen, NlMsg.len]
        omega
      · rw [hmlen]
        omega
      · rw [nextHeader, if_pos ((isMulti_of_holds htext).mpr hm),
          nlmsgNext_of_holds htext (by omega)]

theorem holds_fill (d : List UInt8) (buf : Nat → UInt8) : Holds (fill d buf) 0 d :=
  holds_getD d buf

/-- **An encoded datagram is well formed**, with its messages in their places. -/
theorem layout_encode {ms : List NlMsg} (hms : Multipart ms) (hlen : (encode ms).length ≤ BUFLEN) :
    Layout (encode ms) (places 0 ms) :=
  walk_encode (holds_fill _ _) hms (by omega) hlen

/-! ## What is received -/

/-- A datagram that is sent: the calls of `recvfrom` that are interrupted before it arrives, and its
messages. -/
structure Sending where
  interrupts : Nat
  msgs : List NlMsg
  multipart : Multipart msgs
  fits : (encode msgs).length ≤ BUFLEN

/-- The datagram as it arrives, with the places of its messages. -/
def Sending.arrival (d : Sending) : Arrival × List Nat :=
  (⟨d.interrupts, encode d.msgs⟩, places 0 d.msgs)

theorem Sending.captured_eq (d : Sending) :
    Arrival.captured ⟨d.interrupts, encode d.msgs⟩ = encode d.msgs :=
  List.take_of_length_le d.fits

theorem Sending.layout (d : Sending) : Layout d.arrival.1.captured d.arrival.2 := by
  rw [arrival, d.captured_eq]
  exact layout_encode d.multipart d.fits

/-- The messages of the datagrams, in order. -/
def sentMsgs (ds : List Sending) : List NlMsg := ds.flatMap Sending.msgs

/-- What the socket will deliver. -/
def inboxOfSendings (ds : List Sending) : List Recv := inboxOf (ds.map Sending.arrival)

theorem messageCount_sendings (ds : List Sending) :
    messageCount (ds.map Sending.arrival) = (sentMsgs ds).length := by
  simp [messageCount, sentMsgs, Sending.arrival, List.length_flatMap, Function.comp_def]

/-- A call returned the payload of the message `m`. -/
def Returned (c : Option Nat × Ulog) (m : NlMsg) : Prop :=
  ∃ msg, c.1 = some msg ∧ Holds c.2.buf msg m.payload

/-- What a caller sees of the calls on an encoded datagram. -/
theorem returned_of_views {d : List UInt8} {inbox : List Recv} {offs : List Nat} {ms : List NlMsg}
    {log : List (Option Nat × Ulog)} (hview : log.map view = views d offs inbox)
    (h : List.Forall₂ (fun nlh m => ∀ buf, Holds buf 0 d → Holds buf (nlmsgData nlh) m.payload)
      offs ms) : List.Forall₂ Returned log ms := by
  induction h generalizing log with
  | nil =>
      rw [views, List.map_nil, List.map_eq_nil_iff] at hview
      rw [hview]
      exact .nil
  | @cons nlh m offs ms hm _ ih =>
      rw [views, List.map_cons, List.map_eq_cons_iff] at hview
      obtain ⟨c, cs, rfl, hc, hcs⟩ := hview
      simp only [view, Prod.mk.injEq] at hc
      obtain ⟨hmsg, hbuf, -⟩ := hc
      refine .cons ⟨_, hmsg, hm _ ?_⟩ (ih hcs)
      have hlen := congrArg List.length hbuf
      rw [slice_length] at hlen
      rw [Holds, ← hlen, hbuf]

/-- **The payloads that were sent are received**, each once and in order: from a state in which
`nlh` is `NULL`, with the encoded datagrams and any interruptions between them to come, the calls
return pointers to the payloads, and after the last one the next call waits. -/
theorem calls_encode (ds : List Sending) (s : Ulog) (hs : s.nlh = none)
    (hi : s.inbox = inboxOfSendings ds) :
    ∃ log t, calls ulogGetPacket (sentMsgs ds).length s = .ok (log, t)
      ∧ List.Forall₂ Returned log (sentMsgs ds) ∧ ulogGetPacket t = .error .blocked := by
  induction ds generalizing s with
  | nil => exact ⟨[], s, rfl, .nil, by simp only [ulogGetPacket, hs, hi]; rfl⟩
  | cons d ds ih =>
      have hinbox : s.inbox = d.arrival.1.recvs ++ inboxOfSendings ds := hi
      obtain ⟨log, t, hlog, hview, hnlh, hrest⟩ := calls_datagram d.layout hs hinbox
      obtain ⟨log', t', hlog', hreturned, hblocked⟩ := ih t hnlh hrest
      rw [Sending.arrival, d.captured_eq] at hview
      have hfirst : List.Forall₂ Returned log d.msgs :=
        returned_of_views hview (payloads_of_holds fun _ hbuf => hbuf)
      rw [Sending.arrival, places_length] at hlog
      refine ⟨log ++ log', t', ?_, List.rel_append hfirst hreturned, hblocked⟩
      rw [sentMsgs, List.flatMap_cons, List.length_append]
      exact calls_add hlog hlog'

/-- The two messages of a multipart datagram, one of them with a payload. -/
def twoSent : Sending :=
  ⟨1, [⟨111, 2, 0, 0, [0xaa]⟩, ⟨3, 2, 0, 0, []⟩], .more (by decide) (.last (by decide)), by decide⟩

theorem calls_encode_two :
    ∃ log t, calls ulogGetPacket 2 (Ulog.boot [.failed EINTR, .datagram 12 twoMessages])
        = .ok (log, t)
      ∧ List.Forall₂ Returned log [⟨111, 2, 0, 0, [0xaa]⟩, ⟨3, 2, 0, 0, []⟩]
      ∧ ulogGetPacket t = .error .blocked :=
  calls_encode [twoSent] (Ulog.boot [.failed EINTR, .datagram 12 twoMessages]) rfl rfl

end TapProject.Netlink
