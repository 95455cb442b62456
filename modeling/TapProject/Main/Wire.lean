import TapProject.Dispatch.HubLaws
import TapProject.Main.Stream
import TapProject.Netlink.Encode

set_option autoImplicit false

/-! # From the socket to the devices

The whole program `write_tap_v5.c` when the system's calls succeed. On well-formed datagrams it is
the hub on the frames read from its buffer (`mainTurns_hub`).

What it reads there is partly what was sent and partly what earlier datagrams left. A payload that
holds its message whole is read as `wireMsg` says, up to what lies behind the captured frame
(`sameMessage_readMsg`). So the hub and the devices that are written to are those of the payloads,
as many bytes are written as the frame's length field says, and they are the captured ones as far as
those go (`main_wire`). -/

namespace TapProject

open EbtUlogPacketMsg Runs Slices Hub Insertion
open Netlink hiding deliveries

/-! ## The program as a hub -/

/-- The messages of the version that the program understands. -/
def understood (ms : List EbtUlogPacketMsg) : List EbtUlogPacketMsg :=
  ms.filter fun m => m.version = EBT_ULOG_VERSION

/-- The frames of the messages that the program understands. -/
def framesOf (ms : List EbtUlogPacketMsg) : List (Action EtherAddr × List UInt8) :=
  (understood ms).map frame

theorem framesOf_append (ms ms' : List EbtUlogPacketMsg) :
    framesOf (ms ++ ms') = framesOf ms ++ framesOf ms' := by
  simp [framesOf, understood]

section

variable {known : List EtherAddr} {sent : List (Nat × List UInt8)} {s : Sys}
  {localtime : Int → Bool} {host : Host}

/-- Printing does not matter to the hub. -/
theorem HubState.print (h : HubState known sent s) (line : CStr) :
    HubState known sent (s.emit [.print line]) := by
  refine ⟨h.inv.emit (by simp [Event.isFd]), h.addrs_eq, h.sent_lt, ?_⟩
  rw [Sys.emit_trace, writes_append]
  exact (List.append_nil _).trans h.writes_eq

/-- A message is a step of the hub if it is understood, and else none. -/
theorem HubState.mainBody (hh : host.Succeeds) (h : HubState known sent s) {m : EbtUlogPacketMsg}
    (hdate : m ∈ understood [m] → localtime m.stamp)
    (hfit : (table known (framesOf [m])).length ≤ 10) :
    ∃ s', TapProject.mainBody localtime host m s = .ok s'
      ∧ HubState (table known (framesOf [m])) (sent ++ deliveries known (framesOf [m])) s' := by
  by_cases hv : m.version = EBT_ULOG_VERSION
  · have hframes : framesOf [m] = [frame m] := by simp [framesOf, understood, hv]
    obtain ⟨s', hok, -, hs'⟩ := h.run hh [m]
    rw [run_singleton] at hok
    rw [hframes] at hfit ⊢
    refine ⟨s', ?_, hs'⟩
    have hnames : NamesFit s'.listTop.length := by
      rw [namesFit_iff, hs'.length_eq]
      exact hfit
    have hdate : localtime m.stamp = true := hdate (by simp [understood, hv])
    rw [TapProject.mainBody, if_neg (not_not.mpr hv), if_neg (not_not.mpr hdate), hok, checkNames]
    exact if_pos hnames
  · have hframes : framesOf [m] = [] := by simp [framesOf, understood, hv]
    rw [TapProject.mainBody, if_pos hv, hframes, deliveries, List.append_nil]
    exact ⟨_, rfl, h.print _⟩

/-- The messages of a run are the steps of the hub, as long as the names of its devices fit. -/
theorem HubState.mainRun (hh : host.Succeeds) (h : HubState known sent s)
    {ms : List EbtUlogPacketMsg} (hdate : ∀ m ∈ understood ms, localtime m.stamp)
    (hfit : (table known (framesOf ms)).length ≤ 10) :
    ∃ s', Runs.run (TapProject.mainBody localtime host) ms s = .ok s'
      ∧ HubState (table known (framesOf ms)) (sent ++ deliveries known (framesOf ms)) s' := by
  induction ms generalizing known sent s with
  | nil => exact ⟨s, rfl, by simpa [framesOf, understood, deliveries] using h⟩
  | cons m ms ih =>
      have hsplit : understood (m :: ms) = understood [m] ++ understood ms :=
        List.filter_append [m] ms
      have hframes : framesOf (m :: ms) = framesOf [m] ++ framesOf ms := framesOf_append [m] ms
      rw [hsplit, List.forall_mem_append] at hdate
      rw [hframes, table_append] at hfit ⊢
      -- the hub knows no more after the first message than in the end
      have hfirst := (table_grows (table known (framesOf [m])) (framesOf ms)).length_le
      obtain ⟨s₁, hok, h₁⟩ := h.mainBody hh (hdate.1 m) (hfirst.trans hfit)
      obtain ⟨s', hrun, h'⟩ := ih h₁ hdate.2 hfit
      rw [List.append_assoc, ← deliveries_append] at h'
      exact ⟨s', by rw [run_cons_ok hok, hrun], h'⟩

theorem HubState.mainStart (inbox : List Recv) :
    HubState [] [] (TapProject.mainStart inbox).sys :=
  ⟨TableInv.macListInit, rfl, by simp, rfl⟩

end

/-- **The program is a hub on the frames it receives.** When the system's calls succeed, the stamps
have dates and no more than ten addresses are learned, the turns on well-formed datagrams leave the
table of the hub that met the frames of all messages in order, have written to its devices what this
hub sends to its ports, and the next turn waits. -/
theorem mainTurns_hub (L : MsgLayout) (localtime : Int → Bool) (host : Host) (hh : host.Succeeds)
    (as : List (Arrival × List Nat)) (h : ∀ a ∈ as, Arrives L a)
    (hdate : ∀ m ∈ understood (messagesOf L (fun _ => 0) as), localtime m.stamp)
    (hfit : (table [] (framesOf (messagesOf L (fun _ => 0) as))).length ≤ 10) :
    ∃ st, mainTurns L localtime host (messageCount as) (mainStart (inboxOf as)) = .ok st
      ∧ HubState (table [] (framesOf (messagesOf L (fun _ => 0) as)))
          (deliveries [] (framesOf (messagesOf L (fun _ => 0) as))) st.sys
      ∧ mainTurn L localtime host st = .error (.receive .blocked st.sys) := by
  obtain ⟨v, hnlh, hinbox, hturns⟩ :=
    turns_stream L localtime host (u := Ulog.boot (inboxOf as)) as h rfl rfl
  obtain ⟨s, hok, hs⟩ := (HubState.mainStart (inboxOf as)).mainRun hh hdate hfit
  refine ⟨⟨v, s⟩, ?_, hs, mainTurn_blocked hnlh hinbox⟩
  exact (hturns _).trans (congrArg (resume v) hok)

/-! ## Messages on the wire -/

/-- The other fields lie in front of the captured frame. -/
structure MsgLayout.Ordered (L : MsgLayout) : Prop where
  version : L.version + 4 ≤ L.data
  physindev : L.physindev + IFNAMSIZ ≤ L.data
  physoutdev : L.physoutdev + IFNAMSIZ ≤ L.data
  stamp : L.stamp + 8 ≤ L.data
  dataLen : L.dataLen + 8 ≤ L.data

theorem layout64_ordered : layout64.Ordered :=
  ⟨by decide, by decide, by decide, by decide, by decide⟩

/-- The message of a payload, with zeros behind it. -/
def wireMsg (L : MsgLayout) (payload : List UInt8) : EbtUlogPacketMsg :=
  readMsg L (fun i => payload.getD i 0) 0

/-- The payload holds its message up to the end of the captured frame, which goes beyond the frame's
headers, and the stamp of the message has a date. -/
structure Complete (L : MsgLayout) (localtime : Int → Bool) (payload : List UInt8) : Prop where
  whole : L.data + (wireMsg L payload).dataLen ≤ payload.length
  headers : HEADERS ≤ (wireMsg L payload).dataLen
  date : localtime (wireMsg L payload).stamp = true

/-- Two messages with the same fields and the same captured bytes. -/
structure SameMessage (m m' : EbtUlogPacketMsg) : Prop extends SameCapture m m' where
  stamp : m'.stamp = m.stamp

variable {L : MsgLayout} {localtime : Int → Bool} {buf : Nat → UInt8} {off : Nat}
  {payload : List UInt8}

/-- Two memories that agree up to the end of the captured frame. -/
theorem sameMessage_of_agree (hL : L.Ordered) {mem mem' : Nat → UInt8} {msg msg' : Nat}
    (h : ∀ i, i < L.data + (readMsg L mem msg).dataLen → mem' (msg' + i) = mem (msg + i)) :
    SameMessage (readMsg L mem msg) (readMsg L mem' msg') := by
  have hbyte : ∀ k, k < L.data → mem' (msg' + k) = mem (msg + k) := fun k hk => h k (by omega)
  have hname : ∀ k, k + IFNAMSIZ ≤ L.data → nameAt mem' (msg' + k) = nameAt mem (msg + k) := by
    intro k hk
    rw [nameAt, nameAt, slice, slice]
    congr 1
    apply List.map_congr_left
    intro i hi
    have := List.mem_range.mp hi
    rw [Nat.add_assoc, Nat.add_assoc]
    exact hbyte (k + i) (by omega)
  have hnum : ∀ k, k + 4 ≤ L.data → le32 mem' (msg' + k) = le32 mem (msg + k) := by
    intro k hk
    simp only [le32, le16, Nat.add_assoc]
    rw [hbyte k (by omega), hbyte (k + 1) (by omega), hbyte (k + 2) (by omega),
      hbyte (k + 3) (by omega)]
  have hlen := hL.dataLen
  have hstamp := hL.stamp
  refine ⟨?_, ?_⟩
  · constructor
    case version =>
      show int32At mem' (msg' + L.version) = int32At mem (msg + L.version)
      unfold int32At
      rw [hnum L.version hL.version]
    case physindev => exact hname L.physindev hL.physindev
    case physoutdev => exact hname L.physoutdev hL.physoutdev
    case dataLen =>
      exact congrArg₂ (fun low high => low + 2 ^ 32 * high) (hnum L.dataLen (by omega))
        (hnum (L.dataLen + 4) (by omega))
    case data =>
      intro i hi
      simp only [readMsg, Nat.add_assoc]
      exact h (L.data + i) (by omega)
  · show int64At mem' (msg' + L.stamp) = int64At mem (msg + L.stamp)
    unfold int64At
    rw [Nat.add_assoc, Nat.add_assoc, hnum L.stamp (by omega), hnum (L.stamp + 4) (by omega)]

/-- **A message is read as it was sent**, but for what lies behind the captured frame. -/
theorem sameMessage_readMsg (hL : L.Ordered) (h : Holds buf off payload)
    (hc : Complete L localtime payload) : SameMessage (wireMsg L payload) (readMsg L buf off) :=
  sameMessage_of_agree hL fun _ hi =>
    h.apply (holds_getD payload fun _ => 0) (Nat.lt_of_lt_of_le hi hc.whole)

/-- The messages of encoded datagrams are read as they were sent. -/
theorem sameMessage_messagesOf (hL : L.Ordered) (ds : List Sending)
    (hc : ∀ m ∈ sentMsgs ds, Complete L localtime m.payload) (buf : Nat → UInt8) :
    List.Forall₂ SameMessage ((sentMsgs ds).map fun m => wireMsg L m.payload)
      (messagesOf L buf (ds.map Sending.arrival)) := by
  induction ds generalizing buf with
  | nil => exact .nil
  | cons d ds ih =>
      rw [sentMsgs, List.flatMap_cons, List.forall_mem_append] at hc
      rw [sentMsgs, List.flatMap_cons, List.map_append, List.map_cons, Sending.arrival, messagesOf]
      refine List.rel_append ?_ (ih hc.2 _)
      -- the payloads are in their places, and each holds its message
      have hplaces : List.Forall₂ (fun m nlh => Holds (fill (encode d.msgs) buf) (nlmsgData nlh)
          m.payload) d.msgs (places 0 d.msgs) :=
        ((payloads_of_holds fun _ h => h).imp fun _ _ h => h _ (holds_fill _ buf)).flip
      rw [List.forall₂_map_left_iff, List.forall₂_map_right_iff, d.captured_eq]
      refine ((List.forall₂_and_left _ _).mpr ⟨hc.1, hplaces⟩).imp fun m nlh h => ?_
      exact sameMessage_readMsg hL h.2 h.1

/-- Messages that lie whole in a datagram are read inside the buffer. -/
theorem Netlink.Sending.arrives (d : Sending) (hc : ∀ m ∈ d.msgs, Complete L localtime m.payload) :
    Arrives L d.arrival := by
  refine ⟨d.fits, layout_encode d.multipart d.fits, fun nlh hnlh => ?_⟩
  obtain ⟨m, hm, hlen⟩ := exists_of_mem_places hnlh
  have hwhole := (hc m hm).whole
  have hheaders := (hc m hm).headers
  have hfits := d.fits
  simp only [NlMsg.len] at hlen
  show nlh + NLMSG_HDRLEN + L.data + HEADERS ≤ BUFLEN
  omega

/-! ## Frames that were sent -/

section

variable {m m' : EbtUlogPacketMsg}

theorem testedBytes_le (m : EbtUlogPacketMsg) : testedBytes m ≤ HEADERS := by
  unfold testedBytes
  split_ifs <;> decide

theorem countOff_le (m : EbtUlogPacketMsg) : countOff m + 2 ≤ HEADERS := by
  rw [countOff_eq]
  split_ifs <;> decide

theorem SameCapture.hDest (h : SameCapture m m') (hlen : HEADERS ≤ m.dataLen) :
    m'.hDest = m.hDest :=
  h.etherAddr (show 6 ≤ m.dataLen from (by decide : 6 ≤ HEADERS).trans hlen)

theorem SameCapture.hSource (h : SameCapture m m') (hlen : HEADERS ≤ m.dataLen) :
    m'.hSource = m.hSource :=
  h.etherAddr (show 12 ≤ m.dataLen from (by decide : 12 ≤ HEADERS).trans hlen)

/-- What the dispatcher does with a frame is decided by its captured bytes, once they reach beyond
its headers. -/
theorem SameCapture.action (h : SameCapture m m') (hlen : HEADERS ≤ m.dataLen) :
    TapProject.action m' = TapProject.action m := by
  have htest := h.groupTest ((testedBytes_le m).trans hlen)
  have hflooded : Flooded m' ↔ Flooded m := by
    rw [← groupFrame_iff_flooded, ← groupFrame_iff_flooded, ← groupTest_isSome, ← groupTest_isSome,
      htest]
  have hendpoints : endpoints m' = endpoints m := by
    rw [endpoints, endpoints, h.physindev, h.physoutdev, h.hDest hlen, h.hSource hlen]
  rw [TapProject.action, TapProject.action, hendpoints]
  exact if_congr hflooded rfl rfl

/-- The bytes were sent for the message: as many as its frame says, and the captured ones as far as
those go. -/
def SentFor (m : EbtUlogPacketMsg) (bytes : List UInt8) : Prop :=
  bytes.length = (sentBytes m).length
    ∧ bytes.take m.dataLen = (sentBytes m).take m.dataLen

theorem take_slice {α : Type*} (mem : Nat → α) (off k n : Nat) :
    (slice mem off n).take k = slice mem off (min k n) := by
  rw [slice, ← List.map_take, List.take_range, slice]

theorem SameCapture.sentFor (h : SameCapture m m') (hlen : HEADERS ≤ m.dataLen) :
    SentFor m (sentBytes m') := by
  have hoff : countOff m' = countOff m := by
    rw [countOff, countOff, h.hDest hlen, h.hSource hlen]
  have hcount : TapProject.le16 m'.data (countOff m) = TapProject.le16 m.data (countOff m) :=
    h.le16 ((countOff_le m).trans hlen)
  rw [SentFor, ← counted_countOff m, ← counted_countOff m', hoff]
  constructor
  · rw [counted_length, counted_length, hcount]
  · rw [EbtUlogPacketMsg.counted, EbtUlogPacketMsg.counted, hcount, take_slice, take_slice]
    exact slice_congr fun i _ hi => h.data i (by omega)

end

/-! ## The whole program -/

/-- The frames that were sent, each with its message. -/
def wireFrames (L : MsgLayout) (ds : List Sending) : List (Action EtherAddr × EbtUlogPacketMsg) :=
  (understood ((sentMsgs ds).map fun m => wireMsg L m.payload)).map fun m => (action m, m)

/-- The messages of the version that the program understands are read as they were sent. -/
theorem understood_rel (hL : L.Ordered) {ds : List Sending}
    (hc : ∀ m ∈ sentMsgs ds, Complete L localtime m.payload) (buf : Nat → UInt8) :
    List.Forall₂ (fun m m' => (HEADERS ≤ m.dataLen ∧ localtime m.stamp) ∧ SameMessage m m')
      (understood ((sentMsgs ds).map fun m => wireMsg L m.payload))
      (understood (messagesOf L buf (ds.map Sending.arrival))) := by
  have hsame := List.rel_filter (p := fun m => m.version = EBT_ULOG_VERSION)
    (q := fun m => m.version = EBT_ULOG_VERSION)
    (fun m m' (h : SameMessage m m') => by simp only [h.version])
    (sameMessage_messagesOf hL ds hc buf)
  refine (List.forall₂_and_left _ _).mpr ⟨fun m hm => ?_, hsame⟩
  obtain ⟨m, hsent, rfl⟩ := List.mem_map.mp (List.mem_of_mem_filter hm)
  exact ⟨(hc m hsent).headers, (hc m hsent).date⟩

/-- The frames that the program read are those that were sent. -/
theorem wireFrames_rel (hL : L.Ordered) {ds : List Sending}
    (hc : ∀ m ∈ sentMsgs ds, Complete L localtime m.payload) (buf : Nat → UInt8) :
    List.Forall₂ (fun f f' => f'.1 = f.1 ∧ SentFor f.2 f'.2) (wireFrames L ds)
      (framesOf (messagesOf L buf (ds.map Sending.arrival))) := by
  rw [wireFrames, framesOf, List.forall₂_map_left_iff, List.forall₂_map_right_iff]
  refine (understood_rel hL hc buf).imp fun m m' h => ?_
  exact ⟨h.2.action h.1.1, h.2.sentFor h.1.1⟩

/-- **From the socket to the devices.** Let well-formed datagrams arrive, with any interruptions
between them, whose payloads are complete, and let no more than ten addresses be learned from them.
When the system's calls succeed, the program takes one turn for each message and then waits. Its
table holds the addresses that the hub learned from the payloads, under the names `tap0`, `tap1` and
so on; and the writes are those of the hub, one for each frame it sends, to the descriptor of the
port, with as many bytes as the frame says and with the captured ones as far as those go. What is
written behind them is what the buffer holds there, and nothing else depends on how the messages are
spread over datagrams or on what the buffer held before. -/
theorem main_wire (L : MsgLayout) (hL : L.Ordered) (localtime : Int → Bool) (host : Host)
    (hh : host.Succeeds) (ds : List Sending)
    (hc : ∀ m ∈ sentMsgs ds, Complete L localtime m.payload)
    (hfit : (table [] (wireFrames L ds)).length ≤ 10) :
    ∃ st, mainTurns L localtime host (sentMsgs ds).length (mainStart (inboxOfSendings ds)) = .ok st
      ∧ addrs st.sys.listTop = (table [] (wireFrames L ds)).map etherNtoa
      ∧ names st.sys.listTop = (List.range st.sys.listTop.length).map tapName
      ∧ List.Forall₂ (fun d w => w.1 = fdAt st.sys.listTop d.1 ∧ SentFor d.2 w.2)
          (deliveries [] (wireFrames L ds)) (writes st.sys.trace)
      ∧ mainTurn L localtime host st = .error (.receive .blocked st.sys) := by
  obtain ⟨htable, hsent⟩ := deliveries_rel (wireFrames_rel hL hc fun _ => 0) []
  have harrives : ∀ a ∈ ds.map Sending.arrival, Arrives L a := by
    rw [List.forall_mem_map]
    exact fun d hd => d.arrives fun m hm => hc m (List.mem_flatMap.mpr ⟨d, hd, hm⟩)
  have hdate : ∀ m ∈ understood (messagesOf L (fun _ => 0) (ds.map Sending.arrival)),
      localtime m.stamp := by
    have hstamps : List.Forall₂ (fun m' m => localtime m'.stamp ∧ SameMessage m m')
        (understood (messagesOf L (fun _ => 0) (ds.map Sending.arrival)))
        (understood ((sentMsgs ds).map fun m => wireMsg L m.payload)) :=
      ((understood_rel hL hc fun _ => 0).imp fun _ _ h => ⟨h.2.stamp ▸ h.1.2, h.2⟩).flip
    exact ((List.forall₂_and_left _ _).mp hstamps).1
  obtain ⟨st, hturns, hs, hblocked⟩ :=
    mainTurns_hub L localtime host hh (ds.map Sending.arrival) harrives hdate (htable ▸ hfit)
  rw [messageCount_sendings] at hturns
  refine ⟨st, hturns, ?_, hs.inv.names_eq, ?_, hblocked⟩
  · rw [hs.addrs_eq, htable]
  · rw [hs.writes_eq, List.forall₂_map_right_iff]
    exact hsent.imp fun d d' h => ⟨by rw [h.1], h.2⟩

end TapProject
