import TapProject.Netlink.InOrder

set_option autoImplicit false

/-! # Malformed datagrams

`ulog_get_packet` checks the first header of a datagram against the size of the buffer and no
header after it. What this is good for is said here exactly:

* every message returned lies inside its datagram iff every datagram received is well-formed
  (`safe_iff`);
* a datagram that is rejected is not skipped but returned by the next call
  (`rejected_returned`);
* a datagram is used up by finitely many calls, with the cursor moving forward inside it, iff
  its first header is accepted and no later step of the cursor stands still or leaves the
  datagram (`usedUp_iff`). -/

namespace TapProject.Netlink

open Cursor Calls Slices

/-! ## The cursor along the calls -/

/-- The state from which the message at the `k`-th header is returned. -/
theorem calls_follow {k nlh b : Nat} {s : Ulog} (hs : s.nlh = some nlh)
    (h : follow (nextHeader s.buf) k nlh = some b) :
    ∃ log t, calls ulogGetPacket k s = .ok (log, t) ∧ t.nlh = some b ∧ t.buf = s.buf
      ∧ t.len = s.len := by
  induction k generalizing nlh s with
  | zero =>
      rw [follow, Option.some.injEq] at h
      exact ⟨[], s, rfl, by rw [hs, h], rfl, rfl⟩
  | succ k ih =>
      cases hn : nextHeader s.buf nlh with
      | none => rw [follow_succ_of_none hn] at h; exact absurd h (by simp)
      | some c =>
          rw [follow_succ_of_some hn] at h
          obtain ⟨log, t, hlog, hnlh, hbuf, hlen⟩ := ih (s := (deliver nlh s).2)
            (by rw [deliver_nlh, hn]) (by rwa [deliver_buf])
          rw [deliver_buf] at hbuf
          rw [deliver_len] at hlen
          exact ⟨_, t, calls_succ_ok (ulogGetPacket_of_some hs) hlog, hnlh, hbuf, hlen⟩

/-! ## Messages inside their datagrams -/

/-- The message a call returned lies inside the datagram in the buffer, with its header. -/
def InDatagram (c : Option Nat × Ulog) : Prop :=
  ∀ msg, c.1 = some msg → ∃ nlh, msg = nlmsgData nlh ∧ Inside c.2.buf c.2.len.toNat nlh

/-- No series of calls returns a message that is not inside its datagram. -/
def Safe (s : Ulog) : Prop :=
  ∀ n log t, calls ulogGetPacket n s = .ok (log, t) → ∀ c ∈ log, InDatagram c

/-- The cursor is on its way through a well-formed datagram, and all that follow are. -/
structure Fits (s : Ulog) : Prop where
  walk : ∀ nlh, s.nlh = some nlh →
    ∃ offs, Walk (Inside s.buf s.len.toNat) (nextHeader s.buf) nlh offs
  inbox : ∀ d ∈ received s.inbox, WellFormed d

theorem Fits.step_some {s : Ulog} (h : Fits s) {nlh : Nat} (hs : s.nlh = some nlh) :
    Fits (deliver nlh s).2 ∧ InDatagram (some (nlmsgData nlh), (deliver nlh s).2) := by
  obtain ⟨offs, hw⟩ := h.walk nlh hs
  constructor
  · constructor
    case walk =>
      -- the rest of the walk
      intro b hb
      rw [deliver_nlh] at hb
      simpa using hw.tail hb
    case inbox => simpa using h.inbox
  · intro msg hmsg
    refine ⟨nlh, (Option.some.inj hmsg).symm, ?_⟩
    simpa using hw.head

/-- Every call keeps `Fits` and returns a message inside its datagram. -/
theorem Fits.step {s s' : Ulog} {msg : Option Nat} (h : Fits s)
    (hc : ulogGetPacket s = .ok (msg, s')) : Fits s' ∧ InDatagram (msg, s') := by
  cases hs : s.nlh with
  | some nlh =>
      obtain ⟨rfl, rfl⟩ := eq_of_ulogGetPacket_ok hs hc
      exact h.step_some hs
  | none =>
      cases hr : received s.inbox with
      | nil =>
          obtain ⟨e, he⟩ := recvNew_of_received_nil hr s
          simp [ulogGetPacket, hs, he] at hc
      | cons d ds =>
          obtain ⟨a, rest, hi, rfl, rfl⟩ := exists_arrival hr
          obtain ⟨t, ht, hcall⟩ := ulogGetPacket_arrival hs hi
          obtain ⟨offs, hlayout⟩ := h.inbox a.captured (by simp [hr])
          rw [if_pos (hlayout.nlmsgOk a.length_captured_le s.buf)] at hcall
          rw [hcall] at hc
          obtain ⟨rfl, rfl⟩ := eq_of_ulogGetPacket_ok ht.nlh hc
          apply Fits.step_some _ ht.nlh
          constructor
          case walk =>
            intro nlh hnlh
            rw [ht.nlh, Option.some.injEq] at hnlh
            rw [ht.buf, ht.len, Int.toNat_natCast, ← hnlh]
            exact ⟨offs, (walk_fill_iff (fun _ => 0) s.buf).mp hlayout⟩
          case inbox =>
            intro d hd
            rw [ht.inbox] at hd
            exact h.inbox d (by rw [hr]; exact List.mem_cons_of_mem _ hd)

theorem Safe.of_calls {s t : Ulog} (h : Safe s) {n : Nat} {log : List (Option Nat × Ulog)}
    (hn : calls ulogGetPacket n s = .ok (log, t)) : Safe t := fun m log' u hm c hc =>
  h (n + m) (log ++ log') u (calls_add hn hm) c (List.mem_append_right _ hc)

theorem Safe.congr {s t : Ulog} (h : Safe s) (hst : ulogGetPacket s = ulogGetPacket t) :
    Safe t := by
  intro n log u hn
  cases n with
  | zero =>
      obtain ⟨rfl, rfl⟩ := calls_zero_inv hn
      exact fun c hc => absurd hc List.not_mem_nil
  | succ n => exact h (n + 1) log u (by rw [calls_succ_congr hst, hn])

/-- In a safe state the cursor points to a message inside the datagram. -/
theorem Safe.inside {s : Ulog} (h : Safe s) {nlh : Nat} (hs : s.nlh = some nlh) :
    Inside s.buf s.len.toNat nlh := by
  have hcall := calls_one (ulogGetPacket_of_some hs)
  obtain ⟨nlh', heq, hin⟩ := h 1 _ _ hcall _ (List.mem_singleton.mpr rfl) _ rfl
  simp only [nlmsgData, Nat.add_right_cancel_iff] at heq
  simpa [heq] using hin

/-- In a safe state that has received a datagram, the datagram is well-formed. -/
theorem Safe.exists_walk {s : Ulog} (h : Safe s) {nlh : Nat} (hs : s.nlh = some nlh)
    (hlen : s.len.toNat ≤ BUFLEN) :
    ∃ offs, Walk (Inside s.buf s.len.toNat) (nextHeader s.buf) nlh offs := by
  rw [exists_walk_iff_of_measure fun off => s.len.toNat - off]
  · intro k b hk
    obtain ⟨log, t, hlog, hnlh, hbuf, htlen⟩ := calls_follow hs hk
    have := (h.of_calls hlog).inside hnlh
    rwa [hbuf, htlen] at this
  · intro a b ha hb hinb
    have hlt : a < nlmsgNext s.buf a := ha.lt_nlmsgNext (by simp only [BUFLEN] at hlen; omega)
    have hle := hinb.header_le
    have hnext : nlmsgNext s.buf a = b := by
      unfold nextHeader at hb
      split at hb
      · exact Option.some.inj hb
      · exact absurd hb (by simp)
    simp only [NLMSG_HDRLEN] at hle
    omega

theorem wellFormed_of_safe {s : Ulog} (h : Safe s) (hs : s.nlh = none) :
    ∀ d ∈ received s.inbox, WellFormed d := by
  generalize hr : received s.inbox = ds
  induction ds generalizing s with
  | nil => simp
  | cons d ds ih =>
      obtain ⟨a, rest, hi, rfl, hrest⟩ := exists_arrival hr
      obtain ⟨t, ht, hcall⟩ := ulogGetPacket_arrival hs hi
      have htlen : t.len.toNat = a.captured.length := by rw [ht.len, Int.toNat_natCast]
      -- either way the first header is that of a message inside the datagram
      have hok : nlmsgOk (fill a.captured s.buf) 0 BUFLEN := by
        by_contra hno
        rw [if_neg hno] at hcall
        have hin := (h.of_calls (calls_one hcall)).inside ht.nlh
        rw [htlen, ht.buf] at hin
        have hle := hin.2
        have := a.length_captured_le
        exact hno ⟨by decide, hin.1, by omega⟩
      rw [if_pos hok] at hcall
      have hsafe := h.congr hcall
      obtain ⟨offs, hw⟩ := hsafe.exists_walk ht.nlh (by rw [htlen]; exact a.length_captured_le)
      obtain ⟨log, u, hlog, -, hunlh, huinbox, -⟩ := calls_walk hw ht.nlh
      refine List.forall_mem_cons.mpr ⟨⟨offs, ?_⟩, ih (hsafe.of_calls hlog) hunlh ?_⟩
      · rw [htlen, ht.buf] at hw
        exact (walk_fill_iff s.buf fun _ => 0).mp hw
      · rw [huinbox, ht.inbox, hrest]

/-- **Every message returned lies inside its datagram, header included, iff every datagram
received is well-formed**: whatever the buffer held before, and over every series of calls. -/
theorem safe_iff (s : Ulog) (hs : s.nlh = none) :
    Safe s ↔ ∀ d ∈ received s.inbox, WellFormed d := by
  constructor
  · intro h
    exact wellFormed_of_safe h hs
  · intro h n log t hn
    have hfits : Fits s := ⟨fun nlh hnlh => absurd (hs.symm.trans hnlh) (by simp), h⟩
    exact (calls_invariant (I := Fits) (fun s msg s' hs hc => hs.step hc) hfits hn).2

theorem safe_iff_twoMessages : Safe (Ulog.boot [.failed EINTR, .datagram 12 twoMessages]) :=
  (safe_iff (Ulog.boot [.failed EINTR, .datagram 12 twoMessages]) rfl).mpr fun d hd =>
    ⟨[0, 20], by rw [List.mem_singleton.mp hd]; exact layout_twoMessages⟩

/-- A header alone, which announces four bytes of payload. -/
def headerOnly : List UInt8 := [20, 0, 0, 0, 111, 0, 0, 0, 0, 0, 0, 0, 0, 0, 0, 0]

theorem not_safe_headerOnly :
    (∃ t, ulogGetPacket (Ulog.boot [.datagram 12 headerOnly]) = .ok (some 16, t)
      ∧ t.len = 16 ∧ nlmsgLen t.buf 0 = 20)
      ∧ ¬ Safe (Ulog.boot [.datagram 12 headerOnly]) := by
  refine ⟨⟨_, rfl, rfl, rfl⟩, fun h => ?_⟩
  obtain ⟨offs, hw⟩ := wellFormed_of_safe h rfl headerOnly (List.mem_singleton.mpr rfl)
  exact absurd hw.head (by decide)

/-! ## Rejected datagrams -/

/-- The answers of up to `n` calls, as far as they return: the message and the datagram it is
taken from. -/
def answers : Nat → Ulog → List (Option Nat × List UInt8)
  | 0, _ => []
  | n + 1, s =>
      match ulogGetPacket s with
      | .error _ => []
      | .ok (msg, t) => (msg, slice t.buf 0 t.len.toNat) :: answers n t

/-- After the datagram of `a` was rejected, the next call receives, and the answers are those
that the datagrams `cont` after it get without it. -/
def Recovers (s : Ulog) (a : Arrival) (cont : List Recv) : Prop :=
  ∃ t, ulogGetPacket (s.expecting (a.recvs ++ cont)) = .ok (none, t) ∧ t.nlh = none
    ∧ ∀ n, answers n t = answers n (s.expecting cont)

theorem answers_one_ok {s t : Ulog} {msg : Option Nat} (h : ulogGetPacket s = .ok (msg, t)) :
    answers 1 s = [(msg, slice t.buf 0 t.len.toNat)] := by
  simp only [answers, h]

/-- A message that is returned right after it was received is not one of a rejected datagram. -/
theorem answers_ne_of_rejected {s : Ulog} (hs : s.nlh = none) {d : List UInt8}
    (hr : ¬ nlmsgOk (fill d s.buf) 0 BUFLEN) (msg : Nat) :
    answers 1 s ≠ [(some msg, d)] := by
  cases hrec : received s.inbox with
  | nil =>
      obtain ⟨e, he⟩ := recvNew_of_received_nil hrec s
      simp [answers, ulogGetPacket, hs, he]
  | cons d' ds =>
      obtain ⟨a, rest, hi, rfl, -⟩ := exists_arrival hrec
      obtain ⟨t, ht, hcall⟩ := ulogGetPacket_arrival hs hi
      by_cases hok : nlmsgOk (fill a.captured s.buf) 0 BUFLEN
      · rw [if_pos hok, ulogGetPacket_of_some ht.nlh] at hcall
        rw [answers_one_ok hcall, deliver_buf, deliver_len, ht.buf, ht.len, Int.toNat_natCast,
          slice_fill]
        intro h
        simp only [List.cons.injEq, Prod.mk.injEq, and_true] at h
        exact hr (h.2 ▸ hok)
      · rw [if_neg hok] at hcall
        simp [answers_one_ok hcall]

/-- **A rejected datagram is not skipped.** The call returns `NULL` and leaves the cursor at the
start of the buffer, so that the next call receives nothing and returns a message of the rejected
datagram, whatever is to come. -/
theorem rejected_returned (s : Ulog) (hs : s.nlh = none) (a : Arrival)
    (hr : ¬ nlmsgOk (fill a.captured s.buf) 0 BUFLEN) (cont : List Recv) :
    ¬ Recovers s a cont
      ∧ ∃ t u, ulogGetPacket (s.expecting (a.recvs ++ cont)) = .ok (none, t) ∧ t.nlh = some 0
        ∧ ulogGetPacket t = .ok (some (nlmsgData 0), u) ∧ u.inbox = cont
        ∧ slice u.buf 0 u.len.toNat = a.captured
        ∧ answers 1 t ≠ answers 1 (s.expecting cont) := by
  obtain ⟨t, ht, hcall⟩ := ulogGetPacket_expecting hs (rfl : a.recvs ++ cont = a.recvs ++ cont)
  rw [if_neg hr] at hcall
  have hnext := ulogGetPacket_of_some ht.nlh
  have hcaptured : slice t.buf 0 t.len.toNat = a.captured := by
    rw [ht.buf, ht.len, Int.toNat_natCast, slice_fill]
  have hanswer : answers 1 t = [(some (nlmsgData 0), a.captured)] := by
    rw [answers_one_ok hnext, deliver_buf, deliver_len, hcaptured]
  have hne : answers 1 t ≠ answers 1 (s.expecting cont) := by
    rw [hanswer]
    exact (answers_ne_of_rejected (s := s.expecting cont) hs hr _).symm
  refine ⟨?_, t, _, hcall, ht.nlh, hnext, by rw [deliver_inbox, ht.inbox], ?_, hne⟩
  · rintro ⟨t', hcall', -, hsame⟩
    rw [hcall, Except.ok.injEq, Prod.mk.injEq] at hcall'
    exact hne (hcall'.2 ▸ hsame 1)
  · rw [deliver_buf, deliver_len, hcaptured]

theorem rejected_returned_empty :
    ¬ Recovers (Ulog.boot []) ⟨0, []⟩ [.datagram 12 oneMessage]
      ∧ ∃ t u, ulogGetPacket (Ulog.boot [.datagram 12 [], .datagram 12 oneMessage]) = .ok (none, t)
        ∧ ulogGetPacket t = .ok (some 16, u) ∧ u.inbox = [.datagram 12 oneMessage] := by
  obtain ⟨hnot, t, u, hcall, -, hnext, hinbox, -⟩ := rejected_returned (Ulog.boot []) rfl ⟨0, []⟩
    (by decide) [.datagram 12 oneMessage]
  exact ⟨hnot, t, u, hcall, hnext, hinbox⟩

/-- An empty datagram is rejected, and the call after it returns a message of it. -/
theorem not_recovers_empty :
    (Ulog.boot []).nlh = none ∧ ¬ nlmsgOk (fill [] (Ulog.boot []).buf) 0 BUFLEN
      ∧ (∃ t u, ulogGetPacket (Ulog.boot [.datagram 12 []]) = .ok (none, t)
        ∧ ulogGetPacket t = .ok (some 16, u))
      ∧ ¬ Recovers (Ulog.boot []) ⟨0, []⟩ [] := by
  refine ⟨rfl, by decide, ⟨_, _, rfl, rfl⟩, ?_⟩
  rintro ⟨t, hcall, hnlh, -⟩
  obtain ⟨t', ht', hcall'⟩ := ulogGetPacket_expecting (s := Ulog.boot []) rfl
    (rfl : (Arrival.mk 0 []).recvs ++ [] = (Arrival.mk 0 []).recvs ++ [])
  rw [if_neg (by decide), hcall, Except.ok.injEq, Prod.mk.injEq] at hcall'
  have hstart := ht'.nlh
  rw [← hcall'.2, hnlh] at hstart
  exact absurd hstart (by simp)

/-! ## Using up a datagram -/

/-- The datagram of `a`, received in the state `s`, answers finitely many calls, and each of them
moves the cursor forward inside the datagram or sets it to `NULL`. Nothing else is to come, so a
call that returns is answered from this datagram. -/
structure UsedUp (s : Ulog) (a : Arrival) : Prop where
  finite : ∃ n log t, calls ulogGetPacket (n + 1) (s.expecting a.recvs) = .ok (log, t)
    ∧ t.nlh = none
  progress : ∀ n log t msg t', calls ulogGetPacket n (s.expecting a.recvs) = .ok (log, t) →
    ulogGetPacket t = .ok (msg, t') →
    t'.nlh = none ∨ ∃ b, t'.nlh = some b ∧ t.nlh.getD 0 < b ∧ (b : Int) < t'.len

/-- From every header the cursor gets to, starting at the first one, it goes on to a later place
below `len`, if the header announces another message. -/
def StepsInside (buf : Nat → UInt8) (len : Nat) : Prop :=
  ∀ k nlh, follow (nextHeader buf) k 0 = some nlh → isMulti buf nlh →
    0 < nlmsgAlign (nlmsgLen buf nlh) ∧ nlmsgNext buf nlh < len

theorem nextHeader_eq_some {buf : Nat → UInt8} {nlh b : Nat} :
    nextHeader buf nlh = some b ↔ isMulti buf nlh ∧ nlmsgNext buf nlh = b := by
  unfold nextHeader
  split
  · next hm => simp [hm]
  · next hm => simp [hm]

theorem StepsInside.exists_walk {buf : Nat → UInt8} {len : Nat} (h : StepsInside buf len) :
    ∃ offs, Walk (fun nlh => isMulti buf nlh →
      0 < nlmsgAlign (nlmsgLen buf nlh) ∧ nlmsgNext buf nlh < len) (nextHeader buf) 0 offs := by
  rw [exists_walk_iff_of_measure fun nlh => len - nlh]
  · exact h
  · intro nlh b hP hb _
    obtain ⟨hm, rfl⟩ := nextHeader_eq_some.mp hb
    obtain ⟨hpos, hlt⟩ := hP hm
    simp only [nlmsgNext] at hlt ⊢
    omega

/-- A state in which the datagram `d` is being used up: the cursor is at a header it gets to, or
is `NULL`. -/
structure OnTheWay (d : List UInt8) (buf : Nat → UInt8) (t : Ulog) : Prop where
  cursor : ∀ nlh, t.nlh = some nlh → ∃ k, follow (nextHeader (fill d buf)) k 0 = some nlh
  buf : t.buf = fill d buf
  len : t.len = d.length
  inbox : t.inbox = []

variable {d : List UInt8} {buf : Nat → UInt8}

theorem OnTheWay.of_received {t : Ulog} (h : Received d buf [] t) : OnTheWay d buf t :=
  ⟨fun _ hn => ⟨0, h.nlh.symm.trans hn⟩, h.buf, h.len, h.inbox⟩

/-- A call that returns is made with the cursor at a header. -/
theorem OnTheWay.exists_nlh {t : Ulog} (h : OnTheWay d buf t) {r : Option Nat × Ulog}
    (hc : ulogGetPacket t = .ok r) : ∃ nlh, t.nlh = some nlh := by
  cases hn : t.nlh with
  | some nlh => exact ⟨nlh, rfl⟩
  | none =>
      rw [ulogGetPacket, hn, h.inbox] at hc
      exact absurd hc (by simp [recvNew])

theorem OnTheWay.step {t t' : Ulog} {msg : Option Nat} (h : OnTheWay d buf t)
    (hc : ulogGetPacket t = .ok (msg, t')) : OnTheWay d buf t' := by
  obtain ⟨nlh, hn⟩ := h.exists_nlh hc
  obtain ⟨-, rfl⟩ := eq_of_ulogGetPacket_ok hn hc
  constructor
  case cursor =>
    intro b hb
    obtain ⟨k, hk⟩ := h.cursor nlh hn
    rw [deliver_nlh, h.buf] at hb
    exact ⟨k + 1, by rw [follow_succ, hk, Option.bind_some, hb]⟩
  case buf => rw [deliver_buf, h.buf]
  case len => rw [deliver_len, h.len]
  case inbox => rw [deliver_inbox, h.inbox]

/-- Where the steps stay inside the datagram, a call moves the cursor forward inside it. -/
theorem OnTheWay.progress {t : Ulog} {nlh : Nat} (h : OnTheWay d buf t)
    (hsteps : StepsInside (fill d buf) d.length) (hn : t.nlh = some nlh) :
    (deliver nlh t).2.nlh = none
      ∨ ∃ b, (deliver nlh t).2.nlh = some b ∧ nlh < b ∧ (b : Int) < (deliver nlh t).2.len := by
  obtain ⟨k, hk⟩ := h.cursor nlh hn
  rw [deliver_nlh, deliver_len, h.buf, h.len]
  cases hb : nextHeader (fill d buf) nlh with
  | none => exact Or.inl rfl
  | some b =>
      obtain ⟨hm, rfl⟩ := nextHeader_eq_some.mp hb
      obtain ⟨hpos, hlt⟩ := hsteps k nlh hk hm
      exact Or.inr ⟨_, rfl, by simp only [nlmsgNext]; omega, by omega⟩

theorem UsedUp.of_steps {s : Ulog} {a : Arrival} (hs : s.nlh = none)
    (hok : nlmsgOk (fill a.captured s.buf) 0 BUFLEN)
    (hsteps : StepsInside (fill a.captured s.buf) a.captured.length) : UsedUp s a := by
  obtain ⟨t₀, ht₀, hcall⟩ := ulogGetPacket_expecting hs (List.append_nil a.recvs).symm
  rw [if_pos hok] at hcall
  have hstart := OnTheWay.of_received ht₀
  constructor
  case finite =>
    obtain ⟨offs, hw⟩ := hsteps.exists_walk
    rw [← hstart.buf] at hw
    obtain ⟨log, t, hlog, -, hnlh, -, -⟩ := calls_walk hw ht₀.nlh
    obtain ⟨off, offs, rfl⟩ := List.exists_cons_of_ne_nil hw.ne_nil
    exact ⟨offs.length, log, t, by rw [calls_succ_congr hcall]; exact hlog, hnlh⟩
  case progress =>
    intro n log t msg t' hn hc
    cases n with
    | zero =>
        -- the call that receives the datagram
        obtain ⟨rfl, rfl⟩ := calls_zero_inv hn
        rw [hcall] at hc
        obtain ⟨-, rfl⟩ := eq_of_ulogGetPacket_ok ht₀.nlh hc
        rw [show (s.expecting a.recvs).nlh = none from hs]
        exact hstart.progress hsteps ht₀.nlh
    | succ n =>
        rw [calls_succ_congr hcall] at hn
        have ht : OnTheWay a.captured s.buf t :=
          (calls_invariant (I := OnTheWay a.captured s.buf) (Q := fun _ => True)
            (fun _ _ _ h hc => ⟨h.step hc, trivial⟩) hstart hn).1
        obtain ⟨nlh, hnlh⟩ := ht.exists_nlh hc
        obtain ⟨-, rfl⟩ := eq_of_ulogGetPacket_ok hnlh hc
        rw [hnlh]
        exact ht.progress hsteps hnlh

theorem UsedUp.accepted {s : Ulog} {a : Arrival} (h : UsedUp s a) (hs : s.nlh = none) :
    nlmsgOk (fill a.captured s.buf) 0 BUFLEN := by
  obtain ⟨t₀, ht₀, hcall⟩ := ulogGetPacket_expecting hs (List.append_nil a.recvs).symm
  by_contra hno
  rw [if_neg hno] at hcall
  rcases h.progress 0 [] _ none t₀ rfl hcall with hnone | ⟨b, hb, hlt, -⟩
  · exact absurd (ht₀.nlh.symm.trans hnone) (by simp)
  · rw [ht₀.nlh, Option.some.injEq] at hb
    omega

theorem UsedUp.stepsInside {s : Ulog} {a : Arrival} (h : UsedUp s a) (hs : s.nlh = none) :
    StepsInside (fill a.captured s.buf) a.captured.length := by
  obtain ⟨t₀, ht₀, hcall⟩ := ulogGetPacket_expecting hs (List.append_nil a.recvs).symm
  rw [if_pos (h.accepted hs)] at hcall
  intro k nlh hk hm
  have hk' := hk
  rw [← ht₀.buf] at hk'
  obtain ⟨log, u, hlog, hnlh, hbuf, hlen⟩ := calls_follow ht₀.nlh hk'
  rw [ht₀.buf] at hbuf
  rw [ht₀.len] at hlen
  -- the cursor before the call is at `nlh`, also when the call receives the datagram
  have hprog : (deliver nlh u).2.nlh = none
      ∨ ∃ b, (deliver nlh u).2.nlh = some b ∧ nlh < b ∧ (b : Int) < (deliver nlh u).2.len := by
    cases k with
    | zero =>
        obtain ⟨-, rfl⟩ := calls_zero_inv hlog
        rw [follow, Option.some.injEq] at hk
        have := h.progress 0 [] _ _ _ rfl (hcall.trans (ulogGetPacket_of_some ht₀.nlh))
        rwa [show (s.expecting a.recvs).nlh = none from hs, Option.getD_none, hk] at this
    | succ k =>
        rw [← calls_succ_congr hcall] at hlog
        have := h.progress (k + 1) log u _ _ hlog (ulogGetPacket_of_some hnlh)
        rwa [hnlh, Option.getD_some] at this
  rw [deliver_nlh, deliver_len, hbuf, hlen, nextHeader_eq_some.mpr ⟨hm, rfl⟩] at hprog
  obtain ⟨b, hb, hlt, hin⟩ := hprog.resolve_left (by simp)
  rw [Option.some.injEq] at hb
  subst hb
  simp only [nlmsgNext] at hlt
  exact ⟨by omega, by omega⟩

/-- **A datagram is used up by finitely many calls, with the cursor moving forward inside it, iff
its first header is accepted and no step of the cursor stands still or leaves the datagram.** -/
theorem usedUp_iff (s : Ulog) (hs : s.nlh = none) (a : Arrival) :
    UsedUp s a ↔ nlmsgOk (fill a.captured s.buf) 0 BUFLEN
      ∧ StepsInside (fill a.captured s.buf) a.captured.length :=
  ⟨fun h => ⟨h.accepted hs, h.stepsInside hs⟩, fun h => UsedUp.of_steps hs h.1 h.2⟩

theorem usedUp_iff_twoMessages : UsedUp (Ulog.boot []) ⟨1, twoMessages⟩ := by
  refine (usedUp_iff (Ulog.boot []) rfl ⟨1, twoMessages⟩).mpr ⟨by decide, fun k nlh hk => ?_⟩
  have hw : Walk (fun nlh => isMulti (fill twoMessages fun _ => 0) nlh →
      0 < nlmsgAlign (nlmsgLen (fill twoMessages fun _ => 0) nlh)
        ∧ nlmsgNext (fill twoMessages fun _ => 0) nlh < 36)
      (nextHeader (fill twoMessages fun _ => 0)) 0 [0, 20] :=
    .step (by decide) (by decide) (.last (by decide) (by decide))
  exact hw.of_follow hk

/-- A message without payload that announces another one, and a header with length 0. -/
def standstill : List UInt8 :=
  [16, 0, 0, 0, 111, 0, 2, 0, 0, 0, 0, 0, 0, 0, 0, 0,
    0, 0, 0, 0, 111, 0, 2, 0, 0, 0, 0, 0, 0, 0, 0, 0]

theorem follow_standstill (n : Nat) :
    follow (nextHeader (fill standstill fun _ => 0)) (n + 1) 0 = some 16 := by
  induction n with
  | zero => decide
  | succ n ih =>
      rw [follow_succ, ih]
      decide

/-- The cursor stays at the second header for ever. -/
theorem not_usedUp_standstill :
    (∀ n, ∃ log t, calls ulogGetPacket (n + 1) (Ulog.boot [.datagram 12 standstill])
        = .ok (log, t) ∧ t.nlh = some 16)
      ∧ ¬ UsedUp (Ulog.boot []) ⟨0, standstill⟩ := by
  obtain ⟨t₀, ht₀, hcall⟩ := ulogGetPacket_expecting (s := Ulog.boot []) rfl
    (List.append_nil (Arrival.mk 0 standstill).recvs).symm
  rw [if_pos (by decide)] at hcall
  have hstuck : ∀ n, ∃ log t, calls ulogGetPacket (n + 1) (Ulog.boot [.datagram 12 standstill])
      = .ok (log, t) ∧ t.nlh = some 16 := fun n => by
    have hfollow : follow (nextHeader t₀.buf) (n + 1) 0 = some 16 := by
      rw [ht₀.buf]
      exact follow_standstill n
    obtain ⟨log, t, hlog, hnlh, -⟩ := calls_follow ht₀.nlh hfollow
    rw [← calls_succ_congr hcall] at hlog
    exact ⟨log, t, hlog, hnlh⟩
  refine ⟨hstuck, fun h => ?_⟩
  obtain ⟨n, log, t, hlog, hnone⟩ := h.finite
  obtain ⟨log', t', hlog', hsome⟩ := hstuck n
  have heq : (log, t) = (log', t') := Except.ok.inj (hlog.symm.trans hlog')
  rw [Prod.mk.injEq] at heq
  rw [heq.2, hsome] at hnone
  exact absurd hnone (by simp)

end TapProject.Netlink
