import TapProject.LinkInfo.Values
import TapProject.LinkInfo.Walk

set_option autoImplicit false

/-! # What was described is printed

The program receives the bytes of a dump as far as they fit its buffer. It prints what the messages
say that were received whole: their lines and the lines of their attributes, each once and in order,
and nothing else (`parse_received`). -/

namespace TapProject.LinkInfo

open Loops Slices
open Netlink (NlMsg encode encode_cons fill holds_fill nlmsgLen nlmsgType nlmsgAlign nlmsgData
  NLMSG_HDRLEN nlmsgLen_of_holds nlmsgType_of_holds payload_of_holds nlmsgNext_of_holds)

/-! ## Printed lines -/

/-- Nothing is printed. -/
def Act.Silent : Act → Prop
  | .message _ => True
  | .attr _ _ => True
  | .load _ _ => True
  | _ => False

/-- A run prints these lines. The string that `printText` prints ends at its NUL. -/
inductive Prints (buf : Nat → UInt8) : List Act → List CStr → Prop
  | nil : Prints buf [] []
  | silent {a : Act} {es : List Act} {ls : List CStr} :
      a.Silent → Prints buf es ls → Prints buf (a :: es) ls
  | print {line : CStr} {es : List Act} {ls : List CStr} :
      Prints buf es ls → Prints buf (.print line :: es) (line :: ls)
  | text {pre : CStr} {off : Nat} {name : List UInt8} {es : List Act} {ls : List CStr} :
      Holds buf off (name ++ [0]) → 0 ∉ name → Prints buf es ls →
      Prints buf (.printText pre off :: es) ((pre ++ name.map fun b => Char.ofNat b.toNat) :: ls)

variable {buf : Nat → UInt8} {es fs : List Act} {ls ls' : List CStr}

theorem Prints.append (h : Prints buf es ls) (h' : Prints buf fs ls') :
    Prints buf (es ++ fs) (ls ++ ls') := by
  induction h with
  | nil => exact h'
  | silent ha _ ih => exact .silent ha ih
  | print _ ih => exact .print ih
  | text hname hnul _ ih => exact .text hname hnul ih

theorem Prints.of_silent (h : ∀ a ∈ es, a.Silent) : Prints buf es [] := by
  induction es with
  | nil => exact .nil
  | cons a es ih =>
      obtain ⟨ha, hes⟩ := List.forall_mem_cons.mp h
      exact .silent ha (ih hes)

/-- A string in memory has one end. -/
theorem name_unique {off : Nat} {name name' : List UInt8} (h : Holds buf off (name ++ [0]))
    (hn : 0 ∉ name) (h' : Holds buf off (name' ++ [0])) (hn' : 0 ∉ name') : name = name' := by
  obtain ⟨hname, hnul⟩ := holds_append.mp h
  obtain ⟨hname', hnul'⟩ := holds_append.mp h'
  have hend : buf (off + name.length) = 0 := (holds_cons.mp hnul).1
  have hend' : buf (off + name'.length) = 0 := (holds_cons.mp hnul').1
  -- the end of the one is not inside the other
  have hlen : name.length = name'.length := by
    rcases Nat.lt_trichotomy name.length name'.length with hlt | heq | hlt
    · rw [holds_iff.mp hname' _ hlt] at hend
      exact absurd (hend ▸ List.getElem_mem hlt) hn'
    · exact heq
    · rw [holds_iff.mp hname _ hlt] at hend'
      exact absurd (hend' ▸ List.getElem_mem hlt) hn
  calc name = slice buf off name.length := hname.symm
    _ = slice buf off name'.length := by rw [hlen]
    _ = name' := hname'

/-- **A run prints only one list of lines.** -/
theorem Prints.unique (h : Prints buf es ls) (h' : Prints buf es ls') : ls = ls' := by
  induction h generalizing ls' with
  | nil => cases h'; rfl
  | silent ha _ ih =>
      cases h' with
      | silent _ h' => exact ih h'
      | print => exact absurd ha id
      | text => exact absurd ha id
  | print _ ih =>
      cases h' with
      | silent ha => exact absurd ha id
      | print h' => rw [ih h']
  | text hname hnul _ ih =>
      cases h' with
      | silent ha => exact absurd ha id
      | text hname' hnul' h' => rw [name_unique hname hnul hname' hnul', ih h']

/-! ## Attributes -/

section

variable {a : Attr} {rta : Nat} (h : Holds buf rta a.bytes)

include h

theorem rtaLen_of_holds : rtaLen buf rta = a.len := by
  obtain ⟨hfield, -⟩ := holds_append.mp h
  exact (le16_of_holds hfield).trans (Nat.mod_eq_of_lt a.fits)

theorem rtaType_of_holds : rtaType buf rta = a.value.type := by
  obtain ⟨-, hrest⟩ := holds_append.mp h
  obtain ⟨hfield, -⟩ := holds_append.mp hrest
  rw [bytes16_length] at hfield
  rw [rtaType, le16_of_holds hfield, Nat.mod_eq_of_lt a.value.type_lt]

theorem rtaData_of_holds : Holds buf (rtaData rta) a.value.payload := by
  obtain ⟨-, hrest⟩ := holds_append.mp h
  obtain ⟨-, hrest⟩ := holds_append.mp hrest
  exact (holds_append.mp hrest).1

theorem rtaPayload_of_holds : rtaPayload buf rta = a.value.payload.length := by
  rw [rtaPayload_eq, rtaLen_of_holds h, Attr.len, Nat.add_sub_cancel_left]
  rw [rtaLen_of_holds h, Attr.len]
  exact Nat.le_add_right _ _

end

theorem etherAddr_of_holds {off : Nat} {a : EtherAddr} (h : Holds buf off (addrBytes a)) :
    MacFilter.etherAddr buf off = a := by
  obtain ⟨a0, a1, a2, a3, a4, a5⟩ := a
  simp only [addrBytes, holds_cons, Nat.add_assoc] at h
  obtain ⟨h0, h1, h2, h3, h4, h5, -⟩ := h
  simp [MacFilter.etherAddr, h0, h1, h2, h3, h4, h5]

theorem intAt_of_holds {off : Nat} {x : UInt32} (h : Holds buf off (bytes32 x.toNat)) :
    intAt buf off = narrow x.toNat := by
  have hx := x.toNat_lt
  rw [intAt, le32_of_holds h, Nat.mod_eq_of_lt (by omega)]

theorem longAt_of_holds {off : Nat} {x : UInt64} (h : Holds buf off (bytes64 x.toNat)) :
    longAt buf off = (x.toNat : Int).bmod (2 ^ 64) := by
  obtain ⟨hlow, hhigh⟩ := holds_append.mp h
  have hx := x.toNat_lt
  rw [bytes32_length] at hhigh
  have hsum : le32 buf off + 2 ^ 32 * le32 buf (off + 4) = x.toNat := by
    rw [le32_of_holds hlow, le32_of_holds hhigh]
    omega
  unfold longAt
  rw [hsum]

/-- An attribute of another kind, or with a payload of another size, is passed over. -/
theorem showAttr_other {type : UInt16} {payload : List UInt8} {rta : Nat}
    (hvalid : (Value.other type payload).Valid) (htype : rtaType buf rta = type.toNat)
    (hsize : rtaPayload buf rta = payload.length) : Prints buf (showAttr buf rta) [] := by
  obtain ⟨hname, hmtu, hlink, haddr, hstats⟩ := hvalid
  unfold showAttr
  rw [htype, if_neg hname, if_neg hmtu, if_neg hlink, hsize]
  split
  next hkind =>
    rw [if_neg (haddr hkind)]
    exact .silent trivial (.silent trivial .nil)
  next =>
    split
    next hkind =>
      rw [if_pos (hstats hkind)]
      exact .silent trivial (.silent trivial .nil)
    next => exact .silent trivial .nil

/-- **The `switch` prints the value of the attribute.** -/
theorem showAttr_prints {a : Attr} {rta : Nat} (h : Holds buf rta a.bytes) :
    Prints buf (showAttr buf rta) a.value.lines := by
  have htype := rtaType_of_holds h
  have hdata := rtaData_of_holds h
  have hsize := rtaPayload_of_holds h
  have hvalid := a.valid
  generalize a.value = v at htype hdata hsize hvalid ⊢
  cases v with
  | ifname name =>
      rw [showAttr, htype]
      exact .silent trivial (.text hdata hvalid .nil)
  | mtu value =>
      rw [showAttr, htype, intAt_of_holds hdata]
      exact .silent trivial (.silent trivial (.print .nil))
  | link value =>
      rw [showAttr, htype, intAt_of_holds hdata]
      exact .silent trivial (.silent trivial (.print .nil))
  | address a =>
      rw [showAttr, htype, hsize, etherAddr_of_holds hdata]
      exact .silent trivial (.silent trivial (.silent trivial (.silent trivial (.print .nil))))
  | broadcast a =>
      rw [showAttr, htype, hsize, etherAddr_of_holds hdata]
      exact .silent trivial (.silent trivial (.silent trivial (.silent trivial (.print .nil))))
  | stats rx tx rest =>
      obtain ⟨hrx, hrest⟩ := holds_append.mp hdata
      have htx := (holds_append.mp hrest).1
      have hfull : (Value.stats rx tx rest).payload.length = sizeofNetDeviceStats := by
        simp [Value.payload, show rest.length = _ from hvalid, sizeofNetDeviceStats]
      rw [bytes64_length] at htx
      rw [showAttr, htype, hsize, hfull, longAt_of_holds hrx, longAt_of_holds htx]
      exact .silent trivial (.silent trivial (.silent trivial (.silent trivial (.print .nil))))
  | other type payload => exact showAttr_other hvalid htype hsize

theorem Attr.len_le_bytes_length (a : Attr) : a.len ≤ a.bytes.length := by
  simp only [Attr.bytes, Attr.len, List.length_append, bytes16_length, RTA_HDRLEN]
  omega

theorem Attr.bytes_length (a : Attr) : a.bytes.length = rtaAlign a.len := by
  have hfits := a.fits
  have hle := (rtaAlign_bounds (l := a.len) (by rw [Attr.len]; omega)).1
  simp only [Attr.bytes, List.length_append, bytes16_length, List.length_replicate]
  rw [Attr.len, RTA_HDRLEN] at *
  omega

theorem Attr.bytes_ne_nil (a : Attr) : a.bytes ≠ [] := by
  simp [Attr.bytes, bytes16]

/-- The attributes `as` are still to come, and nothing else. -/
def AttrsAt (buf : Nat → UInt8) (as : List Attr) (c : Cur) : Prop :=
  Holds buf c.off (as.flatMap Attr.bytes) ∧ c.len = (as.flatMap Attr.bytes).length
    ∧ (as.flatMap Attr.bytes).length ≤ BUFSIZE

theorem AttrsAt.ok {a : Attr} {as : List Attr} {c : Cur} (h : AttrsAt buf (a :: as) c) :
    rtaOk buf c := by
  obtain ⟨hbuf, hlen, -⟩ := h
  rw [List.flatMap_cons, holds_append] at hbuf
  rw [List.flatMap_cons, List.length_append] at hlen
  have hle := a.len_le_bytes_length
  have hhdr : RTA_HDRLEN ≤ a.len := Nat.le_add_right _ _
  rw [rtaOk, rtaLen_of_holds hbuf.1]
  omega

theorem AttrsAt.next {a : Attr} {as : List Attr} {c : Cur} (h : AttrsAt buf (a :: as) c) :
    AttrsAt buf as (rtaNext buf c) := by
  obtain ⟨hbuf, hlen, hsize⟩ := h
  rw [List.flatMap_cons, holds_append] at hbuf
  rw [List.flatMap_cons, List.length_append] at hlen hsize
  have hnarrow : narrow (c.len - a.bytes.length) = (as.flatMap Attr.bytes).length := by
    simp only [BUFSIZE] at hsize
    rw [narrow_eq] <;> omega
  have hnext : rtaNext buf c = ⟨c.off + a.bytes.length, (as.flatMap Attr.bytes).length⟩ := by
    rw [rtaNext, rtaLen_of_holds hbuf.1, ← a.bytes_length, hnarrow]
  rw [hnext]
  exact ⟨hbuf.2, rfl, by omega⟩

/-- A turn of the inner loop prints its attribute. -/
theorem attrTurn_prints {nlh rta : Nat} {a : Attr} (h : Holds buf rta a.bytes) :
    Prints buf (.attr nlh rta :: showAttr buf rta ++ [.load rta 2]) a.value.lines := by
  rw [← List.append_nil a.value.lines]
  exact Prints.append (.silent trivial (showAttr_prints h)) (.silent trivial .nil)

theorem rtaOkLoads_silent (c : Cur) : ∀ a ∈ rtaOkLoads c, a.Silent := by
  intro a ha
  unfold rtaOkLoads at ha
  split at ha
  · rw [List.mem_singleton.mp ha]
    trivial
  · exact absurd ha List.not_mem_nil

/-- The inner loop prints the attributes. -/
theorem attrLoop_prints {nlh : Nat} {as : List Attr} (h : AttrsAt buf as (attrStart buf nlh)) :
    ∃ es, attrLoop buf nlh = .ok es ∧ Prints buf es (as.flatMap fun a => a.value.lines) := by
  apply forLoop_along (I := AttrsAt buf)
    (P := fun as es => Prints buf es (as.flatMap fun a => a.value.lines))
  case hs => exact h
  case hnil =>
    rintro c ⟨-, hlen, -⟩
    refine ⟨fun hok => ?_, Prints.of_silent (rtaOkLoads_silent c)⟩
    have hleft := hok.1
    rw [hlen] at hleft
    exact absurd hleft (by decide)
  case hcons =>
    intro a as c hc
    refine ⟨hc.ok, hc.next, _, rfl, fun rest hrest => ?_⟩
    have hbuf := hc.1
    rw [List.flatMap_cons, holds_append] at hbuf
    rw [List.flatMap_cons]
    exact ((Prints.of_silent (rtaOkLoads_silent c)).append (attrTurn_prints hbuf.1)).append hrest
  case hn =>
    -- every attribute takes its header at least
    have hle : as.length ≤ (as.flatMap Attr.bytes).length :=
      length_le_length_flatMap fun a _ => a.bytes_ne_nil
    have hlen := h.2.1
    omega

/-! ## Messages -/

section

variable {nlh : Nat} {l : Link} (h : Holds buf (nlmsgData nlh) l.bytes)

include h

theorem ifiFamily_of_holds : ifiFamily buf nlh = l.family.toNat := by
  obtain ⟨hinfo, -⟩ := holds_append.mp h
  obtain ⟨hfirst, -⟩ := holds_append.mp hinfo
  rw [ifiFamily, (holds_cons.mp hfirst).1]

theorem ifiIndex_of_holds : ifiIndex buf nlh = narrow l.index.toNat := by
  obtain ⟨hinfo, -⟩ := holds_append.mp h
  obtain ⟨-, hrest⟩ := holds_append.mp hinfo
  obtain ⟨-, hrest⟩ := holds_append.mp hrest
  exact intAt_of_holds (holds_append.mp hrest).1

theorem attrsAt_of_holds (hlen : nlmsgLen buf nlh = NLMSG_HDRLEN + l.bytes.length)
    (hsize : nlmsgLen buf nlh ≤ BUFSIZE) : AttrsAt buf l.attrs (attrStart buf nlh) := by
  obtain ⟨-, hattrs⟩ := holds_append.mp h
  have hinfo : l.ifinfomsg.length = 16 := rfl
  have hhdr : NLMSG_HDRLEN = 16 := rfl
  rw [Link.bytes, List.length_append] at hlen
  rw [attrStart_eq hsize]
  refine ⟨hattrs, ?_, by omega⟩
  show (nlmsgLen buf nlh : Int) - (32 : Nat) = _
  omega

end

theorem showHeader_prints {m : NlMsg} {nlh : Nat} (h : Holds buf nlh m.text)
    (hsize : m.len ≤ BUFSIZE) : Prints buf (showHeader buf nlh) (headerLines m) := by
  rw [BUFSIZE] at hsize
  rw [showHeader, nlmsgLen_of_holds h (by omega), nlmsgType_of_holds h]
  exact .silent trivial (.print (.silent trivial (.print (.silent trivial (.print
    (.silent trivial .nil))))))

theorem showLink_prints {l : Link} {flags : UInt16} {seq pid : UInt32} {nlh : Nat}
    (h : Holds buf nlh (l.msg flags seq pid).text) (hsize : (l.msg flags seq pid).len ≤ BUFSIZE) :
    ∃ es, showMessage buf nlh = .ok es
      ∧ Prints buf es (headerLines (l.msg flags seq pid) ++ l.lines) := by
  have hlen : nlmsgLen buf nlh = NLMSG_HDRLEN + l.bytes.length :=
    nlmsgLen_of_holds h (by rw [BUFSIZE] at hsize; omega)
  have htype : nlmsgType buf nlh = RTM_NEWLINK := nlmsgType_of_holds h
  have hpayload : Holds buf (nlmsgData nlh) l.bytes := payload_of_holds h
  have hfamily := ifiFamily_of_holds hpayload
  have hheader := showHeader_prints h hsize
  rw [showMessage, if_neg (not_not.mpr htype), Link.lines]
  by_cases hacc : l.Accepted
  · have haccepted : accepted buf nlh := by rwa [accepted, hfamily]
    obtain ⟨es, hloop, hes⟩ :=
      attrLoop_prints (attrsAt_of_holds hpayload hlen (by rw [hlen]; exact hsize))
    rw [if_neg (not_not.mpr haccepted), hloop, if_pos hacc, ifiIndex_of_holds hpayload]
    refine ⟨_, rfl, ?_⟩
    rw [List.append_assoc]
    exact hheader.append (.silent trivial (.silent trivial (.print (.silent trivial hes))))
  · have hrefused : ¬ accepted buf nlh := by rwa [accepted, hfamily]
    rw [if_pos hrefused, if_neg hacc, hfamily]
    exact ⟨_, rfl, hheader.append (.silent trivial (.print .nil))⟩

theorem showOther_prints {m : NlMsg} {nlh : Nat} (hm : m.type.toNat ≠ RTM_NEWLINK)
    (h : Holds buf nlh m.text) (hsize : m.len ≤ BUFSIZE) :
    ∃ es, showMessage buf nlh = .ok es
      ∧ Prints buf es (headerLines m ++ ["error : ".toList ++ decimal m.type.toNat]) := by
  rw [showMessage, nlmsgType_of_holds h, if_pos hm]
  exact ⟨_, rfl, (showHeader_prints h hsize).append (.silent trivial (.print .nil))⟩

/-- **A turn of the outer loop prints its message.** -/
theorem messageTurn_prints {e : Entry} {c : Cur} (h : Holds buf c.off e.msg.text)
    (hsize : e.msg.len ≤ BUFSIZE) :
    ∃ es, messageTurn buf c = .ok es ∧ Prints buf es e.lines := by
  have hshow : ∃ es, showMessage buf c.off = .ok es ∧ Prints buf es e.lines := by
    cases e with
    | link l flags seq pid => exact showLink_prints h hsize
    | other m hm => exact showOther_prints hm h hsize
  obtain ⟨es, hok, hes⟩ := hshow
  rw [messageTurn, hok, ← List.append_nil e.lines]
  exact ⟨_, rfl, hes.append (.silent trivial .nil)⟩

/-! ## Dumps -/

/-- The messages of which the first `n` bytes of the dump hold everything but the zeros behind the
last one. -/
def wholeIn : Nat → List Entry → List Entry
  | _, [] => []
  | n, e :: entries =>
      if e.msg.len ≤ n then e :: wholeIn (n - e.msg.bytes.length) entries else []

theorem dump_cons (e : Entry) (entries : List Entry) :
    dump (e :: entries) = e.msg.bytes ++ dump entries := encode_cons _ _

theorem wholeIn_length_le (n : Nat) (entries : List Entry) : (wholeIn n entries).length ≤ n := by
  induction entries generalizing n with
  | nil => exact Nat.zero_le _
  | cons e entries ih =>
      rw [wholeIn]
      split
      next hle =>
        have hhdr : NLMSG_HDRLEN ≤ e.msg.len := Nat.le_add_right _ _
        have hbytes := e.msg.len_le_bytes_length
        have hrest := ih (n - e.msg.bytes.length)
        simp only [NLMSG_HDRLEN, List.length_cons] at *
        omega
      next => exact Nat.zero_le _

/-- A buffer with room for the whole dump holds all of its messages. -/
theorem wholeIn_of_le {n : Nat} {entries : List Entry} (h : (dump entries).length ≤ n) :
    wholeIn n entries = entries := by
  induction entries generalizing n with
  | nil => rfl
  | cons e entries ih =>
      rw [dump_cons, List.length_append] at h
      have hbytes := e.msg.len_le_bytes_length
      rw [wholeIn, if_pos (by omega), ih (by omega)]

/-- The bytes received of the messages `entries` are still to come, and nothing else. The bytes left
are negative behind a last message that was received without its zeros. -/
structure EntriesAt (buf : Nat → UInt8) (entries : List Entry) (c : Cur) : Prop where
  holds : Holds buf c.off ((dump entries).take c.len.toNat)
  fits : ∀ e ∈ entries, e.msg.len < 2 ^ 32
  lo : -3 ≤ c.len
  hi : c.len ≤ BUFSIZE
  received : c.len ≤ (dump entries).length

theorem EntriesAt.not_ok_of_nil {c : Cur} (h : EntriesAt buf [] c) : ¬ nlmsgOk buf c := by
  intro hok
  have hleft : (NLMSG_HDRLEN : Int) ≤ 0 := hok.1.trans h.received
  exact absurd hleft (by decide)

section

variable {e : Entry} {entries : List Entry} {c : Cur} (h : EntriesAt buf (e :: entries) c)

include h

/-- The beginning of the first message was received. -/
theorem EntriesAt.prefix_holds {xs : List UInt8} (hxs : xs <+: e.msg.text)
    (hlen : (xs.length : Int) ≤ c.len) : Holds buf c.off xs := by
  apply h.holds.of_prefix
  rw [List.prefix_take_iff]
  refine ⟨?_, by omega⟩
  rw [dump_cons, NlMsg.bytes, List.append_assoc]
  exact hxs.trans (List.prefix_append _ _)

/-- `NLMSG_OK` holds when all of the first message was received. -/
theorem EntriesAt.ok_iff : nlmsgOk buf c ↔ (e.msg.len : Int) ≤ c.len := by
  have hhdr : NLMSG_HDRLEN ≤ e.msg.len := Nat.le_add_right _ _
  have hhi := h.hi
  simp only [BUFSIZE] at hhi
  by_cases hleft : (NLMSG_HDRLEN : Int) ≤ c.len
  · -- the length is in the header
    have hheader : Holds buf c.off e.msg.header :=
      h.prefix_holds (List.prefix_append _ _) (by rwa [NlMsg.header_length])
    obtain ⟨hfield, -⟩ := holds_append.mp hheader
    have hlen : nlmsgLen buf c.off = e.msg.len :=
      (le32_of_holds hfield).trans (Nat.mod_eq_of_lt (h.fits e List.mem_cons_self))
    have huns : (unsigned c.len : Int) = c.len := unsigned_eq (by omega) (by omega)
    rw [nlmsgOk, hlen]
    omega
  · constructor
    · intro hok
      exact absurd hok.1 hleft
    · intro hle
      omega

/-- Behind a message that was received the rest is to come. -/
theorem EntriesAt.next (hle : (e.msg.len : Int) ≤ c.len) :
    EntriesAt buf entries (nlmsgNext buf c)
      ∧ (nlmsgNext buf c).len.toNat = c.len.toNat - e.msg.bytes.length := by
  obtain ⟨hholds, hfits, -, hhi, hreceived⟩ := id h
  have htext := h.prefix_holds List.prefix_rfl (by rwa [NlMsg.text_length])
  simp only [BUFSIZE] at hhi
  have hmlen : nlmsgLen buf c.off = e.msg.len := nlmsgLen_of_holds htext (by omega)
  have hbytes := NlMsg.bytes_length (m := e.msg) (by omega)
  obtain ⟨hlo', hhi'⟩ := nlmsgAlign_bounds (l := e.msg.len) (by omega)
  have hnarrow : narrow (c.len - e.msg.bytes.length) = c.len - e.msg.bytes.length :=
    narrow_eq (by omega) (by omega)
  have hnext : nlmsgNext buf c = ⟨c.off + e.msg.bytes.length, c.len - e.msg.bytes.length⟩ := by
    rw [nlmsgNext, nlmsgNext_of_holds htext (by omega), hmlen, ← hbytes, hnarrow]
  rw [dump_cons, List.length_append] at hreceived
  rw [hnext]
  refine ⟨⟨?_, fun e' he' => hfits e' (List.mem_cons_of_mem _ he'), ?_, ?_, ?_⟩, ?_⟩
  · show Holds buf (c.off + e.msg.bytes.length)
      ((dump entries).take (c.len - e.msg.bytes.length).toNat)
    rw [dump_cons, List.take_append, holds_append] at hholds
    have htoNat : (c.len - e.msg.bytes.length).toNat = c.len.toNat - e.msg.bytes.length := by omega
    rw [htoNat]
    rcases Nat.lt_or_ge c.len.toNat e.msg.bytes.length with hlt | hge
    · -- the zeros were not received, and nothing behind them
      rw [Nat.sub_eq_zero_of_le hlt.le, List.take_zero]
      exact holds_nil
    · rw [List.take_of_length_le hge] at hholds
      exact hholds.2
  · show -3 ≤ c.len - e.msg.bytes.length
    omega
  · show c.len - e.msg.bytes.length ≤ (BUFSIZE : Int)
    simp only [BUFSIZE]
    omega
  · show c.len - e.msg.bytes.length ≤ ((dump entries).length : Int)
    omega
  · show (c.len - e.msg.bytes.length).toNat = _
    omega

end

theorem nlmsgOkLoads_silent (c : Cur) : ∀ a ∈ nlmsgOkLoads c, a.Silent := by
  intro a ha
  unfold nlmsgOkLoads at ha
  split at ha
  · rw [List.mem_singleton.mp ha]
    trivial
  · exact absurd ha List.not_mem_nil

/-- The outer loop is left when no message is to come that was received. -/
theorem EntriesAt.not_ok_of_wholeIn {entries : List Entry} {c : Cur} (h : EntriesAt buf entries c)
    (hnil : wholeIn c.len.toNat entries = []) : ¬ nlmsgOk buf c := by
  cases entries with
  | nil => exact h.not_ok_of_nil
  | cons e entries =>
      rw [wholeIn] at hnil
      split at hnil
      next => exact absurd hnil (List.cons_ne_nil _ _)
      next hnot =>
        rw [h.ok_iff]
        omega

/-- **What the kernel describes is printed, as far as it was received.** When the first `n` bytes of
a dump are received, whatever the buffer held before, the program ends. It prints of every message
that was received, and of every attribute, in order, what it says, and nothing else. -/
theorem parse_received (entries : List Entry) (hfits : ∀ e ∈ entries, e.msg.len < 2 ^ 32) {n : Nat}
    (hn : n ≤ BUFSIZE) (hle : n ≤ (dump entries).length) (buf : Nat → UInt8) :
    ∃ es, parse (fill ((dump entries).take n) buf) n = .ok es
      ∧ ∀ ls, Prints (fill ((dump entries).take n) buf) es ls
        ↔ ls = (wholeIn n entries).flatMap Entry.lines := by
  obtain ⟨mem, hmem⟩ : ∃ mem, mem = fill ((dump entries).take n) buf := ⟨_, rfl⟩
  have hstart : EntriesAt mem entries ⟨0, n⟩ := by
    refine ⟨?_, hfits, (by decide : (-3 : Int) ≤ 0).trans (Int.natCast_nonneg n),
      Int.ofNat_le.mpr hn, Int.ofNat_le.mpr hle⟩
    rw [hmem]
    exact holds_fill _ _
  have hrun : ∃ es, parse mem n = .ok es
      ∧ Prints mem es ((wholeIn n entries).flatMap Entry.lines) := by
    apply forLoop_along (I := fun whole c =>
        ∃ entries', EntriesAt mem entries' c ∧ whole = wholeIn c.len.toNat entries')
      (P := fun whole es => Prints mem es (whole.flatMap Entry.lines))
    case hs => exact ⟨entries, hstart, rfl⟩
    case hnil =>
      rintro c ⟨entries', hc, hwhole⟩
      exact ⟨hc.not_ok_of_wholeIn hwhole.symm, Prints.of_silent (nlmsgOkLoads_silent c)⟩
    case hcons =>
      rintro e whole c ⟨entries', hc, hwhole⟩
      cases entries' with
      | nil => exact absurd hwhole (List.cons_ne_nil _ _)
      | cons e' entries' =>
          rw [wholeIn] at hwhole
          split at hwhole
          next hreceived =>
            obtain ⟨rfl, rfl⟩ := List.cons.inj hwhole
            have hhdr : 16 ≤ e.msg.len := Nat.le_add_right _ _
            have hlen : (e.msg.len : Int) ≤ c.len := by omega
            obtain ⟨hnext, htoNat⟩ := hc.next hlen
            obtain ⟨es, hturn, hes⟩ := messageTurn_prints
              (hc.prefix_holds List.prefix_rfl (by rwa [NlMsg.text_length]))
              (by have := hc.hi; omega)
            refine ⟨hc.ok_iff.mpr hlen, ⟨entries', hnext, by rw [htoNat]⟩, es, hturn,
              fun rest hrest => ?_⟩
            rw [List.flatMap_cons]
            exact ((Prints.of_silent (nlmsgOkLoads_silent c)).append hes).append hrest
          next => exact absurd hwhole (List.cons_ne_nil _ _)
    case hn => exact Nat.lt_succ_of_le (wholeIn_length_le n entries)
  obtain ⟨es, hok, hes⟩ := hrun
  rw [← hmem]
  exact ⟨es, hok, fun ls => ⟨fun h => h.unique hes, fun h => h ▸ hes⟩⟩

end TapProject.LinkInfo
