import TapProject.LinkInfo.Reads

set_option autoImplicit false

/-! # The nested walk

`parse` on a datagram that fits the receive buffer, whatever its bytes are. The loops end and stay
nested (`walk_nested`): the messages lie one behind the other inside the datagram, and the
attributes of a message one behind the other inside the message, behind its `ifinfomsg`; none for
which the macros hold is left out. What they read was received exactly when the datagram is
`Complete` (`readsInside_iff`). -/

namespace TapProject.LinkInfo

open Loops
open Netlink (nlmsgLen nlmsgType nlmsgAlign nlmsgData NLMSG_HDRLEN NLMSG_ALIGNTO)

variable {buf : Nat → UInt8} {n nlh : Nat} {c : Cur}

/-! ## One step of each loop -/

theorem nlmsgAlign_bounds {l : Nat} (h : l + 3 < 2 ^ 32) :
    l ≤ nlmsgAlign l ∧ nlmsgAlign l ≤ l + 3 := by
  simp only [nlmsgAlign, NLMSG_ALIGNTO]
  rw [Nat.mod_eq_of_lt (by omega)]
  omega

/-- `RTA_ALIGN` rounds as `NLMSG_ALIGN` does. -/
theorem rtaAlign_bounds {l : Nat} (h : l + 3 < 2 ^ 32) : l ≤ rtaAlign l ∧ rtaAlign l ≤ l + 3 :=
  nlmsgAlign_bounds h

/-- The difference of two lengths is right after the narrowing, also when it has wrapped. -/
theorem narrow_sizeSub {x y : Nat} (hx : x < 2 ^ 31) (hy : y < 2 ^ 31) :
    narrow (sizeSub x y) = x - y := by
  rw [narrow, sizeSub, Int.bmod_def]
  split <;> omega

/-- The invariant of the outer loop. -/
def MsgInv (n : Nat) (c : Cur) : Prop := (c.off : Int) + c.len = n

/-- A message for which `NLMSG_OK` holds lies inside the datagram. -/
theorem MsgInv.inside (h : MsgInv n c) (hn : n ≤ BUFSIZE) (hok : nlmsgOk buf c) :
    NLMSG_HDRLEN ≤ nlmsgLen buf c.off ∧ c.off + nlmsgLen buf c.off ≤ n := by
  obtain ⟨hlen, hmin, hmax⟩ := hok
  rw [MsgInv] at h
  simp only [BUFSIZE, NLMSG_HDRLEN] at *
  have huns : (unsigned c.len : Int) = c.len := unsigned_eq (by omega) (by omega)
  omega

theorem MsgInv.next (h : MsgInv n c) (hn : n ≤ BUFSIZE) (hok : nlmsgOk buf c) :
    MsgInv n (nlmsgNext buf c) ∧ (nlmsgNext buf c).len.toNat < c.len.toNat
      ∧ c.off + nlmsgLen buf c.off ≤ (nlmsgNext buf c).off := by
  obtain ⟨hmin, hin⟩ := h.inside hn hok
  have hlen := hok.1
  rw [MsgInv] at h
  simp only [BUFSIZE, NLMSG_HDRLEN] at *
  obtain ⟨hlo, hhi⟩ := nlmsgAlign_bounds (l := nlmsgLen buf c.off) (by omega)
  have hnarrow : narrow (c.len - nlmsgAlign (nlmsgLen buf c.off))
      = c.len - nlmsgAlign (nlmsgLen buf c.off) := narrow_eq (by omega) (by omega)
  simp only [MsgInv, nlmsgNext, Netlink.nlmsgNext, hnarrow]
  omega

/-- The invariant of the inner loop. -/
structure AttrInv (buf : Nat → UInt8) (nlh : Nat) (c : Cur) : Prop where
  sum : (c.off : Int) + c.len = nlh + nlmsgLen buf nlh
  behind : nlh + nlmsgLength sizeofIfinfomsg ≤ c.off

/-- The bytes left are negative in a message that is shorter than its fixed part. -/
theorem attrStart_eq (hlen : nlmsgLen buf nlh ≤ BUFSIZE) :
    attrStart buf nlh = ⟨nlh + 32, (nlmsgLen buf nlh : Int) - (32 : Nat)⟩ := by
  have hlt : nlmsgLen buf nlh < 2 ^ 31 := by
    simp only [BUFSIZE] at hlen
    omega
  rw [attrStart, narrow_sizeSub hlt (by decide)]
  rfl

theorem AttrInv.start (hlen : nlmsgLen buf nlh ≤ BUFSIZE) :
    AttrInv buf nlh (attrStart buf nlh) := by
  rw [attrStart_eq hlen]
  constructor
  · show ((nlh + 32 : Nat) : Int) + ((nlmsgLen buf nlh : Int) - (32 : Nat)) = _
    omega
  · exact Nat.le_refl _

/-- An attribute for which `RTA_OK` holds lies inside the message. -/
theorem AttrInv.inside (h : AttrInv buf nlh c) (hok : rtaOk buf c) :
    RTA_HDRLEN ≤ rtaLen buf c.off
      ∧ c.off + rtaLen buf c.off ≤ nlh + nlmsgLen buf nlh := by
  have hsum := h.sum
  obtain ⟨-, hmin, hmax⟩ := hok
  omega

theorem AttrInv.next (h : AttrInv buf nlh c) (hlen : nlmsgLen buf nlh ≤ BUFSIZE)
    (hok : rtaOk buf c) :
    AttrInv buf nlh (rtaNext buf c) ∧ (rtaNext buf c).len.toNat < c.len.toNat
      ∧ c.off + rtaLen buf c.off ≤ (rtaNext buf c).off := by
  obtain ⟨hsum, hbehind⟩ := h
  obtain ⟨hleft, hmin, hmax⟩ := hok
  simp only [BUFSIZE, RTA_HDRLEN] at *
  obtain ⟨hlo, hhi⟩ := rtaAlign_bounds (l := rtaLen buf c.off) (by omega)
  have hnarrow : narrow (c.len - rtaAlign (rtaLen buf c.off))
      = c.len - rtaAlign (rtaLen buf c.off) := narrow_eq (by omega) (by omega)
  refine ⟨⟨?_, ?_⟩, ?_, ?_⟩
  all_goals
    simp only [rtaNext, hnarrow]
    omega

/-! ## The inner loop -/

/-- What comes after one place of the walk starts behind the block there. -/
def Behind (len : Nat → Nat) (a b : Nat) : Prop := a < b ∧ a + len a ≤ b

theorem rtaOkLoads_inside (h : AttrInv buf nlh c) (hin : nlh + nlmsgLen buf nlh ≤ n) :
    ReadsInside buf n (rtaOkLoads c) := by
  have hsum := h.sum
  unfold rtaOkLoads RTA_HDRLEN
  split
  · rw [readsInside_load]
    exact ⟨by omega, readsInside_nil⟩
  · exact readsInside_nil

/-- The header of the attribute is read again after the `switch`. -/
theorem attrTurn_inside (h : AttrInv buf nlh c) (hok : rtaOk buf c)
    (hin : nlh + nlmsgLen buf nlh ≤ n) :
    ReadsInside buf n (.attr nlh c.off :: showAttr buf c.off ++ [.load c.off 2])
      ↔ AttrFits buf n c.off := by
  obtain ⟨hmin, hend⟩ := h.inside hok
  have hhdr : RTA_HDRLEN = 4 := rfl
  rw [List.cons_append, readsInside_attr, readsInside_append, showAttr_inside hmin (by omega),
    readsInside_load]
  exact and_iff_left ⟨by omega, readsInside_nil⟩

/-- **The inner loop ends.** What it does is what the turns do, and it reads inside the datagram
exactly when each attribute fits. -/
theorem attrLoop_spec (hlen : nlmsgLen buf nlh ≤ BUFSIZE) (hin : nlh + nlmsgLen buf nlh ≤ n) :
    ∃ ss t es, Turns (rtaOk buf) (rtaNext buf) (attrStart buf nlh) ss t
      ∧ attrLoop buf nlh = .ok es
      ∧ messages es = [] ∧ attrs es = ss.map (fun c => (nlh, c.off))
      ∧ (ReadsInside buf n es ↔ ∀ c ∈ ss, AttrFits buf n c.off) := by
  apply forLoop_ok (I := AttrInv buf nlh) (m := fun c => c.len.toNat)
    (B := fun c es => messages es = [] ∧ attrs es = [(nlh, c.off)]
      ∧ (ReadsInside buf n es ↔ AttrFits buf n c.off))
    (P := fun ss es => messages es = [] ∧ attrs es = ss.map (fun c => (nlh, c.off))
      ∧ (ReadsInside buf n es ↔ ∀ c ∈ ss, AttrFits buf n c.off))
  case hstep =>
    intro c h hok
    obtain ⟨hinv, hlt, -⟩ := h.next hlen hok
    exact ⟨hinv, hlt⟩
  case hbody =>
    intro c h hok
    refine ⟨_, rfl, ?_, ?_, attrTurn_inside h hok hin⟩
    · show messages (showAttr buf c.off ++ [.load c.off 2]) = []
      rw [messages_append, (showAttr_marks c.off).1]
      rfl
    · show (nlh, c.off) :: attrs (showAttr buf c.off ++ [.load c.off 2]) = _
      rw [attrs_append, (showAttr_marks c.off).2]
      rfl
  case hleave =>
    intro _ h _
    refine ⟨?_, ?_, iff_of_true (rtaOkLoads_inside h hin) (by simp)⟩
    all_goals
      unfold rtaOkLoads
      split <;> rfl
  case hturn =>
    rintro c ss es rest h - ⟨hmsg, hattr, hread⟩ ⟨hmsg', hattr', hread'⟩
    have hloads : messages (rtaOkLoads c) = [] ∧ attrs (rtaOkLoads c) = [] := by
      unfold rtaOkLoads
      split <;> exact ⟨rfl, rfl⟩
    refine ⟨?_, ?_, ?_⟩
    · rw [messages_append, messages_append, hloads.1, hmsg, hmsg']
      rfl
    · rw [attrs_append, attrs_append, hloads.2, hattr, hattr']
      rfl
    · rw [readsInside_append, readsInside_append, hread, hread', List.forall_mem_cons,
        and_iff_right (rtaOkLoads_inside h hin)]
  case hs => exact AttrInv.start hlen
  case hn => omega

/-! ## The body of the outer loop -/

variable (buf n nlh)

/-- The inner loop comes to the attribute at `rta` in the message at `nlh`. -/
def IsAttr (rta : Nat) : Prop :=
  ∃ ss t, Turns (rtaOk buf) (rtaNext buf) (attrStart buf nlh) ss t ∧ ∃ c ∈ ss, c.off = rta

/-- What is read of the message was received: `ifi_family`, and of an accepted family `ifi_index`
and what is read of the attributes. -/
def MessageFits : Prop :=
  nlmsgType buf nlh = RTM_NEWLINK → nlmsgData nlh + 1 ≤ n
    ∧ (accepted buf nlh → nlmsgData nlh + 8 ≤ n ∧ ∀ rta, IsAttr buf nlh rta → AttrFits buf n rta)

/-- The attribute at `rta` lies inside the message at `nlh`, behind its `ifinfomsg`; it is one that
the program prints. -/
structure AttrInside (rta : Nat) : Prop where
  newlink : nlmsgType buf nlh = RTM_NEWLINK
  family : accepted buf nlh
  behind : nlh + nlmsgLength sizeofIfinfomsg ≤ rta
  inside : rta + rtaLen buf rta ≤ nlh + nlmsgLen buf nlh

/-- The attribute at `rta` is one that the program comes to when it is at the message at `nlh`. -/
structure Shown (rta : Nat) : Prop where
  newlink : nlmsgType buf nlh = RTM_NEWLINK
  family : accepted buf nlh
  isAttr : IsAttr buf nlh rta

/-- What a turn of the outer loop does. -/
structure MessageActs (es : List Act) : Prop where
  message : messages es = [nlh]
  shown : ∀ p, p ∈ attrs es ↔ p.1 = nlh ∧ Shown buf nlh p.2
  ordered : (attrs es).Pairwise fun p q => Behind (rtaLen buf) p.2 q.2
  reads : ReadsInside buf n es ↔ MessageFits buf n nlh

variable {buf n nlh}

/-- The attributes of the walk are those of its turns. -/
theorem isAttr_iff {ss : List Cur} {t : Cur}
    (h : Turns (rtaOk buf) (rtaNext buf) (attrStart buf nlh) ss t) (rta : Nat) :
    IsAttr buf nlh rta ↔ ∃ c ∈ ss, c.off = rta := by
  constructor
  · rintro ⟨ss', t', h', hmem⟩
    rwa [(h.unique h').1]
  · exact fun hmem => ⟨ss, t, h, hmem⟩

theorem attrs_turns {ss : List Cur} {t : Cur} (hlen : nlmsgLen buf nlh ≤ BUFSIZE)
    (h : Turns (rtaOk buf) (rtaNext buf) (attrStart buf nlh) ss t) :
    ∀ c ∈ ss, AttrInv buf nlh c ∧ rtaOk buf c :=
  h.invariant (fun _ hc hok => (hc.next hlen hok).1) (AttrInv.start hlen)

/-- The attributes that the inner loop comes to lie inside the message. -/
theorem Shown.inside {rta : Nat} (hlen : nlmsgLen buf nlh ≤ BUFSIZE) (h : Shown buf nlh rta) :
    AttrInside buf nlh rta := by
  obtain ⟨ss, t, hturns, c, hc, rfl⟩ := h.isAttr
  obtain ⟨hinv, hok⟩ := attrs_turns hlen hturns c hc
  exact ⟨h.newlink, h.family, hinv.behind, (hinv.inside hok).2⟩

/-- They follow one another. -/
theorem attrs_ordered {ss : List Cur} {t : Cur} (hlen : nlmsgLen buf nlh ≤ BUFSIZE)
    (h : Turns (rtaOk buf) (rtaNext buf) (attrStart buf nlh) ss t) :
    (ss.map fun c => (nlh, c.off)).Pairwise fun p q => Behind (rtaLen buf) p.2 q.2 := by
  have hpair : ss.Pairwise fun a b => a.off + rtaLen buf a.off ≤ b.off :=
    (h.apart (I := AttrInv buf nlh)
      (fun c hc hok => ⟨(hc.next hlen hok).1, (hc.next hlen hok).2.2⟩) (AttrInv.start hlen)).1
  rw [List.pairwise_map]
  apply hpair.imp_of_mem
  intro a b ha _ hab
  have hpos : RTA_HDRLEN ≤ rtaLen buf a.off := (attrs_turns hlen h a ha).2.2.1
  have hhdr : RTA_HDRLEN = 4 := rfl
  exact ⟨by omega, hab⟩

theorem showHeader_inside (hmin : NLMSG_HDRLEN ≤ nlmsgLen buf nlh)
    (hin : nlh + nlmsgLen buf nlh ≤ n) : ReadsInside buf n (showHeader buf nlh) := by
  simp only [NLMSG_HDRLEN] at hmin
  simp only [showHeader, readsInside_message, readsInside_print, readsInside_load,
    readsInside_nil, and_true]
  omega

/-- Of a message of another type the header is read. -/
theorem messageTurn_other (hhead : ReadsInside buf n (showHeader buf c.off))
    (hin : c.off + NLMSG_HDRLEN ≤ n) (htype : nlmsgType buf c.off ≠ RTM_NEWLINK) :
    ∃ es, messageTurn buf c = .ok es ∧ MessageActs buf n c.off es := by
  have hhdr : NLMSG_HDRLEN = 16 := rfl
  refine ⟨_, by rw [messageTurn, showMessage, if_pos htype], rfl, fun p => ?_,
    List.Pairwise.nil, iff_of_true ?_ fun heq => absurd heq htype⟩
  · exact iff_of_false (by simp [attrs, showHeader]) fun h => htype h.2.newlink
  · simp only [readsInside_append, readsInside_load, readsInside_print, readsInside_nil, and_true]
    exact ⟨⟨hhead, by omega⟩, by omega⟩

/-- Of a message of another family the header and the family are read. -/
theorem messageTurn_refused (hhead : ReadsInside buf n (showHeader buf c.off))
    (hin : c.off + NLMSG_HDRLEN ≤ n) (htype : nlmsgType buf c.off = RTM_NEWLINK)
    (hfamily : ¬ accepted buf c.off) :
    ∃ es, messageTurn buf c = .ok es ∧ MessageActs buf n c.off es := by
  have hhdr : NLMSG_HDRLEN = 16 := rfl
  refine ⟨_, by rw [messageTurn, showMessage, if_neg (not_not.mpr htype), if_pos hfamily], rfl,
    fun p => ?_, List.Pairwise.nil, ?_⟩
  · exact iff_of_false (by simp [attrs, showHeader]) fun h => hfamily h.2.family
  · simp only [readsInside_append, readsInside_load, readsInside_print, readsInside_nil,
      and_true, hhead, true_and, MessageFits, htype, forall_const, hfamily, false_imp_iff]
    omega

/-- `MessageFits` of an accepted message, by the turns of its inner loop. -/
theorem messageFits_accepted {ss : List Cur} {t : Cur}
    (hturns : Turns (rtaOk buf) (rtaNext buf) (attrStart buf nlh) ss t)
    (htype : nlmsgType buf nlh = RTM_NEWLINK) (hfamily : accepted buf nlh) :
    MessageFits buf n nlh ↔ nlmsgData nlh + 8 ≤ n ∧ ∀ d ∈ ss, AttrFits buf n d.off := by
  have hfits : (∀ rta, IsAttr buf nlh rta → AttrFits buf n rta)
      ↔ ∀ d ∈ ss, AttrFits buf n d.off := by
    simp only [isAttr_iff hturns]
    constructor
    · exact fun hrta d hd => hrta d.off ⟨d, hd, rfl⟩
    · rintro hss rta ⟨d, hd, rfl⟩
      exact hss d hd
  rw [MessageFits, hfits]
  constructor
  · intro h
    exact (h htype).2 hfamily
  · rintro ⟨hidx, hss⟩ -
    exact ⟨by omega, fun _ => ⟨hidx, hss⟩⟩

/-- Of a message of an accepted family the attributes are read too. -/
theorem messageTurn_accepted (hhead : ReadsInside buf n (showHeader buf c.off))
    (hlen : nlmsgLen buf c.off ≤ BUFSIZE) (hin : c.off + nlmsgLen buf c.off ≤ n)
    (htype : nlmsgType buf c.off = RTM_NEWLINK) (hfamily : accepted buf c.off) :
    ∃ es, messageTurn buf c = .ok es ∧ MessageActs buf n c.off es := by
  have hdata : nlmsgData c.off = c.off + 16 := rfl
  obtain ⟨ss, t, es, hturns, hloop, hmsg, hattr, hread⟩ := attrLoop_spec hlen hin
  refine ⟨_, by rw [messageTurn, showMessage, if_neg (not_not.mpr htype),
    if_neg (not_not.mpr hfamily), hloop], ?_⟩
  constructor
  case message =>
    rw [messages_append, messages_append, hmsg]
    rfl
  case shown =>
    rw [attrs_append, attrs_append, hattr]
    show ∀ p, p ∈ ss.map _ ++ [] ↔ _
    rintro ⟨nlh, rta⟩
    rw [List.append_nil, List.mem_map]
    constructor
    · rintro ⟨d, hd, heq⟩
      obtain ⟨rfl, rfl⟩ := Prod.mk.inj heq
      exact ⟨rfl, htype, hfamily, ss, t, hturns, d, hd, rfl⟩
    · rintro ⟨rfl, h⟩
      obtain ⟨d, hd, rfl⟩ := (isAttr_iff hturns rta).mp h.isAttr
      exact ⟨d, hd, rfl⟩
  case ordered =>
    rw [attrs_append, attrs_append, hattr]
    show (List.map _ ss ++ []).Pairwise _
    rw [List.append_nil]
    exact attrs_ordered hlen hturns
  case reads =>
    rw [messageFits_accepted hturns htype hfamily]
    simp only [readsInside_append, readsInside_load, readsInside_print, readsInside_nil,
      and_true, hhead, true_and, hread]
    constructor
    · rintro ⟨⟨⟨h1, h2, h3⟩, h4⟩, h5⟩
      exact ⟨by omega, h4⟩
    · rintro ⟨h1, h2⟩
      exact ⟨⟨⟨by omega, by omega, by omega⟩, h2⟩, by omega⟩

theorem messageTurn_spec (hn : n ≤ BUFSIZE) (h : MsgInv n c) (hok : nlmsgOk buf c) :
    ∃ es, messageTurn buf c = .ok es ∧ MessageActs buf n c.off es := by
  obtain ⟨hmin, hin⟩ := h.inside hn hok
  have hhead := showHeader_inside hmin hin
  have hhdrin : c.off + NLMSG_HDRLEN ≤ n := by omega
  by_cases htype : nlmsgType buf c.off = RTM_NEWLINK
  · by_cases hfamily : accepted buf c.off
    · exact messageTurn_accepted hhead (by omega) hin htype hfamily
    · exact messageTurn_refused hhead hhdrin htype hfamily
  · exact messageTurn_other hhead hhdrin htype

/-! ## The outer loop -/

variable (buf n)

/-- The outer loop comes to the message at `nlh`. -/
def IsMessage (nlh : Nat) : Prop :=
  ∃ ss t, Turns (nlmsgOk buf) (nlmsgNext buf) ⟨0, n⟩ ss t ∧ ∃ c ∈ ss, c.off = nlh

/-- Every message that the outer loop comes to fits. -/
def Complete : Prop := ∀ nlh, IsMessage buf n nlh → MessageFits buf n nlh

/-- What the outer loop does when it makes the turns `ss`. -/
structure WalkActs (ss : List Cur) (es : List Act) : Prop where
  messages_eq : messages es = ss.map Cur.off
  shown : ∀ p, p ∈ attrs es ↔ p.1 ∈ messages es ∧ Shown buf p.1 p.2
  inside : ∀ p ∈ attrs es, p.1 ∈ messages es ∧ AttrInside buf p.1 p.2
  ordered : (ss.Pairwise fun a b => a.off + nlmsgLen buf a.off ≤ b.off) →
    (attrs es).Pairwise fun p q => Behind (rtaLen buf) p.2 q.2
  reads : ReadsInside buf n es ↔ ∀ c ∈ ss, MessageFits buf n c.off

variable {buf n}

/-- The messages of the walk are those of its turns. -/
theorem isMessage_iff {ss : List Cur} {t : Cur}
    (h : Turns (nlmsgOk buf) (nlmsgNext buf) ⟨0, n⟩ ss t) (nlh : Nat) :
    IsMessage buf n nlh ↔ ∃ c ∈ ss, c.off = nlh := by
  constructor
  · rintro ⟨ss', t', h', hmem⟩
    rwa [(h.unique h').1]
  · exact fun hmem => ⟨ss, t, h, hmem⟩

variable (buf) in
theorem nlmsgOkLoads_spec (h : MsgInv n c) :
    messages (nlmsgOkLoads c) = [] ∧ attrs (nlmsgOkLoads c) = []
      ∧ ReadsInside buf n (nlmsgOkLoads c) := by
  rw [MsgInv] at h
  unfold nlmsgOkLoads NLMSG_HDRLEN
  split
  · refine ⟨rfl, rfl, ?_⟩
    rw [readsInside_load]
    exact ⟨by omega, readsInside_nil⟩
  · exact ⟨rfl, rfl, readsInside_nil⟩

/-- One more turn in front of a walk. -/
theorem WalkActs.turn {ss : List Cur} {es rest : List Act} (hinv : MsgInv n c)
    (hlen : nlmsgLen buf c.off ≤ BUFSIZE) (h : MessageActs buf n c.off es)
    (hrest : WalkActs buf n ss rest) :
    WalkActs buf n (c :: ss) (nlmsgOkLoads c ++ es ++ rest) := by
  obtain ⟨hmsg, hattr, hread⟩ := nlmsgOkLoads_spec buf hinv
  have hmessages : messages (nlmsgOkLoads c ++ es ++ rest) = c.off :: messages rest := by
    rw [messages_append, messages_append, hmsg, h.message]
    rfl
  have hattrs : attrs (nlmsgOkLoads c ++ es ++ rest) = attrs es ++ attrs rest := by
    rw [attrs_append, attrs_append, hattr, List.nil_append]
  constructor
  case messages_eq => rw [hmessages, hrest.messages_eq, List.map_cons]
  case shown =>
    intro p
    rw [hattrs, hmessages, List.mem_append, List.mem_cons, h.shown, hrest.shown, or_and_right]
    refine or_congr_left ⟨?_, ?_⟩
    · rintro ⟨hoff, hp⟩
      exact ⟨hoff, hoff ▸ hp⟩
    · rintro ⟨hoff, hp⟩
      exact ⟨hoff, hoff ▸ hp⟩
  case inside =>
    intro p hp
    rw [hattrs] at hp
    rw [hmessages]
    rcases List.mem_append.mp hp with hp | hp
    · obtain ⟨hoff, hshown⟩ := (h.shown p).mp hp
      rw [hoff]
      exact ⟨List.mem_cons_self, hshown.inside hlen⟩
    · obtain ⟨hmem, hin⟩ := hrest.inside p hp
      exact ⟨List.mem_cons_of_mem _ hmem, hin⟩
  case ordered =>
    intro hpair
    obtain ⟨hfirst, hpair⟩ := List.pairwise_cons.mp hpair
    rw [hattrs, List.pairwise_append]
    refine ⟨h.ordered, hrest.ordered hpair, ?_⟩
    intro p hp q hq
    -- the one attribute lies in this message, the other in a later one
    have hpin := ((h.shown p).mp hp).2.inside hlen
    obtain ⟨hmem, hqin⟩ := hrest.inside q hq
    rw [hrest.messages_eq] at hmem
    obtain ⟨d, hd, hoff⟩ := List.mem_map.mp hmem
    have hle := hfirst d hd
    have hbehind := hqin.behind
    have hinside := hpin.inside
    have hhdr : nlmsgLength sizeofIfinfomsg = 32 := rfl
    exact ⟨by omega, by omega⟩
  case reads =>
    rw [readsInside_append, readsInside_append, h.reads, hrest.reads, List.forall_mem_cons,
      and_iff_right hread]

variable (buf) in
/-- **The outer loop ends.** -/
theorem parse_spec (hn : n ≤ BUFSIZE) :
    ∃ ss t es, Turns (nlmsgOk buf) (nlmsgNext buf) ⟨0, n⟩ ss t ∧ parse buf n = .ok es
      ∧ WalkActs buf n ss es := by
  apply forLoop_ok (I := MsgInv n) (m := fun c => c.len.toNat)
    (B := fun c es => MessageActs buf n c.off es) (P := WalkActs buf n)
  case hstep =>
    intro c h hok
    obtain ⟨hinv, hlt, -⟩ := h.next hn hok
    exact ⟨hinv, hlt⟩
  case hbody => exact fun _ h hok => messageTurn_spec hn h hok
  case hleave =>
    intro _ h _
    obtain ⟨hmsg, hattr, hread⟩ := nlmsgOkLoads_spec buf h
    refine ⟨hmsg, by simp [hattr, hmsg], by simp [hattr], fun _ => ?_,
      iff_of_true hread (by simp)⟩
    rw [hattr]
    exact List.Pairwise.nil
  case hturn =>
    intro c _ _ _ h hok hturn hrest
    obtain ⟨-, hin⟩ := h.inside hn hok
    exact hrest.turn h (by omega) hturn
  case hs => exact Int.zero_add _
  case hn =>
    show (n : Int).toNat < n + 1
    omega

theorem messages_turns {ss : List Cur} {t : Cur} (hn : n ≤ BUFSIZE)
    (h : Turns (nlmsgOk buf) (nlmsgNext buf) ⟨0, n⟩ ss t) :
    ∀ c ∈ ss, MsgInv n c ∧ nlmsgOk buf c :=
  h.invariant (fun _ hc hok => (hc.next hn hok).1) (Int.zero_add _)

/-- The messages that the outer loop comes to follow one another. -/
theorem messages_ordered {ss : List Cur} {t : Cur} (hn : n ≤ BUFSIZE)
    (h : Turns (nlmsgOk buf) (nlmsgNext buf) ⟨0, n⟩ ss t) :
    ss.Pairwise fun a b => a.off + nlmsgLen buf a.off ≤ b.off :=
  (h.apart (I := MsgInv n)
    (fun _ hc hok => ⟨(hc.next hn hok).1, (hc.next hn hok).2.2⟩) (Int.zero_add _)).1

/-! ## Results -/

/-- The walk is nested: the messages lie one behind the other inside the first `n` bytes, and the
attributes one behind the other, each inside the message to which it belongs. -/
structure Nested (buf : Nat → UInt8) (n : Nat) (es : List Act) : Prop where
  inside : ∀ nlh ∈ messages es, nlh + nlmsgLen buf nlh ≤ n
  ordered : (messages es).Pairwise fun a b => Behind (nlmsgLen buf) a b
  attrInside : ∀ p ∈ attrs es, p.1 ∈ messages es ∧ AttrInside buf p.1 p.2
  attrOrdered : (attrs es).Pairwise fun p q => Behind (rtaLen buf) p.2 q.2

/-- The walk leaves nothing out: it comes to every message for which `NLMSG_OK` holds, and of a link
in an accepted family to every attribute for which `RTA_OK` holds. -/
structure Visits (buf : Nat → UInt8) (n : Nat) (es : List Act) : Prop where
  message_iff : ∀ nlh, nlh ∈ messages es ↔ IsMessage buf n nlh
  attr_iff : ∀ nlh rta, (nlh, rta) ∈ attrs es ↔ IsMessage buf n nlh ∧ Shown buf nlh rta

theorem WalkActs.visits {ss : List Cur} {t : Cur} {es : List Act} (h : WalkActs buf n ss es)
    (hturns : Turns (nlmsgOk buf) (nlmsgNext buf) ⟨0, n⟩ ss t) : Visits buf n es := by
  have hmessage : ∀ nlh, nlh ∈ messages es ↔ IsMessage buf n nlh := by
    intro nlh
    rw [h.messages_eq, List.mem_map, isMessage_iff hturns]
  refine ⟨hmessage, fun nlh rta => ?_⟩
  rw [h.shown, hmessage]

/-- **The walk ends and is nested**, whatever the `n` bytes received are and whatever the buffer
held behind them. -/
theorem walk_nested (buf : Nat → UInt8) (n : Nat) (hn : n ≤ BUFSIZE) :
    ∃ es, parse buf n = .ok es ∧ Nested buf n es ∧ Visits buf n es := by
  obtain ⟨ss, t, es, hturns, hok, hacts⟩ := parse_spec buf hn
  have hall := messages_turns hn hturns
  have hordered := messages_ordered hn hturns
  refine ⟨es, hok, ⟨?_, ?_, hacts.inside, hacts.ordered hordered⟩, hacts.visits hturns⟩
  · rw [hacts.messages_eq]
    intro nlh hmem
    obtain ⟨c, hc, rfl⟩ := List.mem_map.mp hmem
    obtain ⟨hinv, hcok⟩ := hall c hc
    exact (hinv.inside hn hcok).2
  · rw [hacts.messages_eq, List.pairwise_map]
    apply hordered.imp_of_mem
    intro a b ha _ hab
    have hpos : NLMSG_HDRLEN ≤ nlmsgLen buf a.off := (hall a ha).2.2.1
    have hhdr : NLMSG_HDRLEN = 16 := rfl
    exact ⟨by omega, hab⟩

/-- **What is read was received exactly when the datagram is complete**: every message of a link
that the walk comes to reaches at least to its `ifi_family` and, if that is accepted, to its
`ifi_index`, every number among its attributes has four bytes and every name a NUL. -/
theorem readsInside_iff (buf : Nat → UInt8) (n : Nat) (hn : n ≤ BUFSIZE) :
    ∃ es, parse buf n = .ok es ∧ (ReadsInside buf n es ↔ Complete buf n) := by
  obtain ⟨ss, t, es, hturns, hok, hacts⟩ := parse_spec buf hn
  refine ⟨es, hok, ?_⟩
  rw [hacts.reads]
  simp only [Complete, isMessage_iff hturns]
  constructor
  · rintro hss nlh ⟨c, hc, rfl⟩
    exact hss c hc
  · exact fun hcomplete c hc => hcomplete c.off ⟨c, hc, rfl⟩

/-- The buffer after `d` was received into it, with zeros behind. -/
def received (d : List UInt8) : Nat → UInt8 := Netlink.fill d fun _ => 0

/-- A link with the name `eth0`, in an attribute whose length is not aligned. -/
def linkMessage : List UInt8 :=
  [48, 0, 0, 0, 16, 0, 0, 0, 0, 0, 0, 0, 0, 0, 0, 0,
    0, 0, 0, 0, 2, 0, 0, 0, 0, 0, 0, 0, 0, 0, 0, 0,
    9, 0, 3, 0, 101, 116, 104, 48, 0, 0, 0, 0, 4, 0, 9, 0]

/-- What the walk does with it. -/
def linkActs : List Act :=
  [.load 0 4, .message 0, .print "=================================".toList,
    .load 0 4, .print "len : 48".toList, .load 4 2, .print "type : 16".toList, .load 4 2,
    .load 16 1, .load 20 4, .print " index : 2".toList, .load 0 4,
    .load 32 2, .attr 0 32, .load 34 2, .printText " + ".toList 36, .load 32 2,
    .load 44 2, .attr 0 44, .load 46 2, .load 44 2, .load 0 4]

theorem parse_link : parse (received linkMessage) 48 = .ok linkActs := by decide +kernel

theorem walk_nested_link :
    parse (received linkMessage) 48 = .ok linkActs ∧ messages linkActs = [0]
      ∧ attrs linkActs = [(0, 32), (0, 44)] ∧ Nested (received linkMessage) 48 linkActs
      ∧ Visits (received linkMessage) 48 linkActs := by
  obtain ⟨es, hok, hnested, hvisits⟩ := walk_nested (received linkMessage) 48 (by decide)
  obtain rfl : linkActs = es := Except.ok.inj (parse_link ▸ hok)
  exact ⟨hok, by decide, by decide, hnested, hvisits⟩

theorem readsInside_iff_link :
    parse (received linkMessage) 48 = .ok linkActs
      ∧ ReadsInside (received linkMessage) 48 linkActs ∧ Complete (received linkMessage) 48 := by
  obtain ⟨es, hok, hiff⟩ := readsInside_iff (received linkMessage) 48 (by decide)
  obtain rfl : linkActs = es := Except.ok.inj (parse_link ▸ hok)
  -- the name ends with the byte at 40
  have hname : ∃ z, 36 ≤ z ∧ z < 48 ∧ received linkMessage z = 0 := ⟨40, by decide⟩
  have hreads : ReadsInside (received linkMessage) 48 linkActs := by
    simpa [linkActs] using hname
  exact ⟨hok, hreads, hiff.mp hreads⟩

/-- A message of a link that ends with its header. -/
def headerOnly : List UInt8 := [16, 0, 0, 0, 16, 0, 0, 0, 0, 0, 0, 0, 0, 0, 0, 0]

/-- Its `ifi_family` is read behind the end of the datagram. -/
theorem not_readsInside_headerOnly :
    ∃ es, parse (received headerOnly) 16 = .ok es ∧ ¬ ReadsInside (received headerOnly) 16 es := by
  have hload : ∃ es ∈ (parse (received headerOnly) 16).toOption, Act.load 16 1 ∈ es := by
    decide +kernel
  obtain ⟨es, hes, hmem⟩ := hload
  cases hrun : parse (received headerOnly) 16 with
  | error e => rw [hrun] at hes; exact absurd hes (by simp [Except.toOption])
  | ok es' =>
      rw [hrun] at hes
      obtain rfl : es' = es := Option.some.inj hes
      refine ⟨es', rfl, fun hin => ?_⟩
      have hread : (Act.load 16 1).Reads (received headerOnly) 16 := ⟨by omega, by omega⟩
      exact absurd (hin _ hmem 16 hread) (by omega)

end TapProject.LinkInfo
