import TapProject.Lib.Codes
import TapProject.Main.Loop

set_option autoImplicit false

/-! # What the output tells

`write_tap_v5.c` prints the table after every frame and after every node that is added, and a line
for a message with another version. It prints nothing else until it ends.

So its output is a sequence of reports, and it can be read back: the addresses, the numbers of the
devices and the descriptors are printed between separators that do not occur in them, and the line
of dashes ends a table. `output_tells_table`: whatever arrives and whatever the system answers, the
output of a run that goes on tells the table that the run has reached. -/

namespace TapProject

open Codes Netlink Runs

/-! ## Texts -/

/-- A node of the table by what is printed of it. -/
structure Entry where
  addr : EtherAddr
  number : Nat
  fd : Int

def Entry.node (e : Entry) : MacList := ⟨etherNtoa e.addr, tapName e.number, e.fd⟩

def Entry.text (e : Entry) : CStr := e.node.line ++ [lineEnd]

/-- The end of a table. -/
def dashes : CStr := "------------------------".toList ++ [lineEnd]

def wrongVersion (version : Int) : CStr :=
  "WRONG VERSION: ".toList ++ signed version ++ " INSTEAD OF ".toList ++ signed EBT_ULOG_VERSION
    ++ [lineEnd]

/-- The version of a message that is skipped, or the table. -/
abbrev Report := Int ⊕ List Entry

def Report.text : Report → CStr := Sum.elim wrongVersion fun l => l.flatMap Entry.text ++ dashes

/-- What a report says of the table. -/
def Report.told : Report → Int ⊕ List MacList := Sum.map id (List.map Entry.node)

theorem not_mem_decimal {c : Char} (h : ∀ d < 10, Nat.digitChar d ≠ c) (n : Nat) :
    c ∉ decimal n :=
  Digits.not_mem_toDigits (by decide) h

theorem not_mem_signed {c : Char} (h : ∀ d < 10, Nat.digitChar d ≠ c) (hc : c ≠ '-') (i : Int) :
    c ∉ signed i := by
  cases i with
  | ofNat n => exact not_mem_decimal h n
  | negSucc n =>
      show c ∉ '-' :: decimal (n + 1)
      rw [List.mem_cons, not_or]
      exact ⟨hc, not_mem_decimal h _⟩

theorem signed_injective : Function.Injective signed := by
  have hminus : ∀ n, '-' ∉ decimal n := not_mem_decimal (by decide)
  intro i j h
  cases i with
  | ofNat m =>
      cases j with
      | ofNat n => exact congrArg Int.ofNat (decimal_injective h)
      | negSucc n =>
          have hm : decimal m = '-' :: decimal (n + 1) := h
          exact absurd (hm ▸ List.mem_cons_self) (hminus m)
  | negSucc m =>
      cases j with
      | ofNat n =>
          have hn : '-' :: decimal (m + 1) = decimal n := h
          exact absurd (hn ▸ List.mem_cons_self) (hminus n)
      | negSucc n =>
          have hmn : m + 1 = n + 1 := decimal_injective (List.cons.inj h).2
          rw [Nat.succ_injective hmn]

theorem space_not_mem_etherNtoa (a : EtherAddr) : ' ' ∉ etherNtoa a := by
  have hhex : ∀ n, ' ' ∉ hex n := fun n => Digits.not_mem_toDigits (by decide) (by decide)
  simp [etherNtoa, hhex]

/-! ## Reading the texts -/

theorem Entry.text_eq (e : Entry) :
    e.text = "mac add | ".toList ++ ((etherNtoa e.addr ++ [' ']) ++ ("--> tap".toList
      ++ ((decimal e.number ++ [' ']) ++ ("| fd num ".toList ++ (signed e.fd ++ [lineEnd]))))) := by
  have harrow : " --> ".toList = ' ' :: "--> ".toList := by decide
  have htap : "--> tap".toList = "--> ".toList ++ tapText := by decide
  have hfd : " | fd num ".toList = ' ' :: "| fd num ".toList := by decide
  unfold Entry.text MacList.line Entry.node tapName
  rw [harrow, htap, hfd]
  simp only [List.append_assoc, List.cons_append, List.nil_append]

/-- **A line of a table tells the node.** -/
theorem code_entry : Code Entry.text Entry.node := by
  have haddr : Code (fun e : Entry => etherNtoa e.addr ++ [' ']) Entry.addr :=
    .until (fun e => space_not_mem_etherNtoa e.addr) fun _ _ => etherNtoa_injective.eq_iff
  have hnumber : Code (fun e : Entry => decimal e.number ++ [' ']) Entry.number :=
    .until (fun e => not_mem_decimal (by decide) e.number) fun _ _ => decimal_injective.eq_iff
  have hfd : Code (fun e : Entry => signed e.fd ++ [lineEnd]) Entry.fd :=
    .until (fun e => not_mem_signed (by decide) (by decide) e.fd) fun _ _ => signed_injective.eq_iff
  have hfields := (haddr.append ((hnumber.append (hfd.cons_text "| fd num ".toList)).cons_text
    "--> tap".toList)).cons_text "mac add | ".toList
  constructor
  · intro a b s t heq
    rw [a.text_eq, b.text_eq] at heq
    obtain ⟨hab, hst⟩ := hfields.reads a b s t heq
    rw [Prod.mk.injEq, Prod.mk.injEq] at hab
    obtain ⟨haddr, hnumber, hfd⟩ := hab
    exact ⟨by rw [Entry.node, haddr, hnumber, hfd, Entry.node], hst⟩
  · intro a b hab
    rw [Entry.text, hab, Entry.text]

theorem code_wrongVersion : Code wrongVersion id := by
  have hversion : Code (fun version => signed version ++ [' ']) (id : Int → Int) :=
    .until (fun version => not_mem_signed (by decide) (by decide) version)
      fun _ _ => signed_injective.eq_iff
  have hinstead : " INSTEAD OF ".toList = ' ' :: "INSTEAD OF ".toList := by decide
  have heq : wrongVersion = fun version => "WRONG VERSION: ".toList
      ++ (signed version ++ [' '] ++ ("INSTEAD OF ".toList ++ signed EBT_ULOG_VERSION
        ++ [lineEnd])) := by
    funext version
    unfold wrongVersion
    rw [hinstead]
    simp only [List.append_assoc, List.cons_append, List.nil_append]
  rw [heq]
  exact (hversion.append_text _).cons_text _

/-- The first letters of the lines. -/
theorem Entry.head?_text (e : Entry) (s : CStr) : (e.text ++ s).head? = some 'm' := by
  have hmac : "mac add | ".toList = 'm' :: "ac add | ".toList := by decide
  rw [e.text_eq, hmac]
  rfl

theorem head?_dashes (s : CStr) : (dashes ++ s).head? = some '-' := by
  have hdash : "------------------------".toList = '-' :: "-----------------------".toList := by
    decide +kernel
  unfold dashes
  rw [hdash]
  rfl

theorem head?_wrongVersion (version : Int) (s : CStr) :
    (wrongVersion version ++ s).head? = some 'W' := by
  have hwrong : "WRONG VERSION: ".toList = 'W' :: "RONG VERSION: ".toList := by decide
  unfold wrongVersion
  rw [hwrong]
  rfl

theorem code_table : Code (fun l : List Entry => l.flatMap Entry.text ++ dashes)
    (List.map Entry.node) := by
  apply code_entry.list
  intro e s t heq
  have hhead := congrArg List.head? heq
  rw [e.head?_text, head?_dashes] at hhead
  exact absurd hhead (by decide)

/-- **A report can be read back.** -/
theorem code_report : Code Report.text Report.told := by
  apply code_wrongVersion.sum code_table
  intro version l s t heq
  have hhead := congrArg List.head? heq
  rw [head?_wrongVersion, List.append_assoc] at hhead
  cases l with
  | nil =>
      rw [List.flatMap_nil, List.nil_append, head?_dashes] at hhead
      exact absurd hhead (by decide)
  | cons e l =>
      rw [List.flatMap_cons, List.append_assoc, e.head?_text] at hhead
      exact absurd hhead (by decide)

theorem Report.text_ne_nil (r : Report) : r.text ≠ [] := by
  cases r with
  | inl version => exact List.append_ne_nil_of_right_ne_nil _ (List.cons_ne_nil _ _)
  | inr l =>
      exact List.append_ne_nil_of_right_ne_nil _
        (List.append_ne_nil_of_right_ne_nil _ (List.cons_ne_nil _ _))

/-! ## What is printed -/

/-- The table that was printed last. -/
def lastTable {α : Type} (rs : List (Int ⊕ List α)) : List α :=
  rs.foldl (fun l r => r.elim (fun _ => l) id) []

theorem lastTable_concat {α : Type} (rs : List (Int ⊕ List α)) (r : Int ⊕ List α) :
    lastTable (rs ++ [r]) = r.elim (fun _ => lastTable rs) id :=
  List.foldl_concat _ _ _ _

theorem lastTable_map {α β : Type} (f : α → β) (rs : List (Int ⊕ List α)) :
    lastTable (rs.map (Sum.map id (List.map f))) = (lastTable rs).map f := by
  induction rs using List.reverseRecOn with
  | nil => rfl
  | append_singleton rs r ih =>
      rw [List.map_append, List.map_singleton, lastTable_concat, lastTable_concat]
      cases r with
      | inl version => exact ih
      | inr l => rfl

/-- The output is the text of the reports `rs`, and the table is the one that was printed last. -/
structure Logged (s : Sys) (rs : List Report) : Prop where
  out : stdout s.trace = rs.flatMap Report.text
  table : s.listTop = (lastTable rs).map Entry.node

/-- A run goes on from a state whose output tells the table, or has ended. -/
def Logs : Except Halt Sys → Prop
  | .ok s => ∃ rs, Logged s rs
  | .error _ => True

section

variable {s : Sys} {rs : List Report}

theorem Logged.boot : Logged Sys.boot [] := ⟨rfl, rfl⟩

/-- What happens without `printf`. -/
theorem Logged.emit (h : Logged s rs) {es : List Event} (hes : ∀ e ∈ es, ∀ line, e ≠ .print line) :
    Logged (s.emit es) rs := by
  refine ⟨?_, h.table⟩
  rw [Sys.emit_trace, stdout_append, stdout_eq_nil hes, List.append_nil, h.out]

theorem stdout_table (l : List Entry) :
    stdout ((l.map Entry.node).map (fun p => .print p.line)
      ++ [.print "------------------------".toList]) = l.flatMap Entry.text ++ dashes := by
  unfold dashes
  generalize "------------------------".toList = line
  induction l with
  | nil => rfl
  | cons e l ih =>
      rw [List.map_cons, List.map_cons, List.cons_append, List.flatMap_cons, List.append_assoc, ← ih]
      show e.node.line ++ lineEnd :: _ = e.node.line ++ [lineEnd] ++ _
      rw [List.append_assoc, List.singleton_append]

/-- `mac_list_print` reports the table, whatever was reported before. -/
theorem logged_macListPrint {l : List Entry} (hout : stdout s.trace = rs.flatMap Report.text)
    (htable : s.listTop = l.map Entry.node) : Logged (macListPrint s) (rs ++ [.inr l]) := by
  constructor
  · rw [macListPrint, Sys.emit_trace, stdout_append, hout, htable, stdout_table, List.flatMap_append,
      List.flatMap_singleton]
    rfl
  · rw [macListPrint_listTop, htable, lastTable_concat]
    rfl

theorem Logged.macListPrint (h : Logged s rs) :
    Logged (macListPrint s) (rs ++ [.inr (lastTable rs)]) :=
  logged_macListPrint h.out h.table

/-- A node that is added is reported before anything else. -/
theorem Logged.macListAdd (h : Logged s rs) (host : Host) (a : EtherAddr) :
    Logs (macListAdd host (etherNtoa a) s) := by
  rw [macListAdd_eq]
  split
  · exact ⟨rs, h⟩
  · obtain ⟨fd, es, hfd, herr | hok⟩ := addNode_cases host (etherNtoa a) s
    · rw [herr]
      trivial
    · rw [hok]
      refine ⟨rs ++ [.inr (lastTable rs ++ [⟨a, s.listTop.length, fd⟩])],
        logged_macListPrint ?_ ?_⟩
      · have hquiet : ∀ e ∈ [.system mktun, .system (linkUp s.listTop.length)] ++ es, ∀ line,
            e ≠ .print line := by
          rw [List.forall_mem_append]
          refine ⟨by simp, fun e he line heq => ?_⟩
          exact absurd (hfd e he) (by rw [heq]; simp [Event.isFd])
        rw [linked_trace, stdout_append, stdout_eq_nil hquiet, List.append_nil, h.out]
      · rw [List.map_append, ← h.table]
        rfl

theorem Logged.learnAndWrite (h : Logged s rs) (host : Host) (off : Nat) (m : EbtUlogPacketMsg) :
    Logs (learnAndWrite host off m s) := by
  have hread : Logged (readAddr off s) rs := h.emit (by simp)
  have hadd := hread.macListAdd host (m.etherAddr off)
  unfold TapProject.learnAndWrite
  cases hs : TapProject.macListAdd host (etherNtoa (m.etherAddr off)) (readAddr off s) with
  | error e => trivial
  | ok t =>
      rw [hs] at hadd
      obtain ⟨rs', ht⟩ := hadd
      have hread' : Logged (readAddr off t) rs' := ht.emit (by simp)
      dsimp only
      cases macListCheck (etherNtoa (m.etherAddr off)) (readAddr off t).listTop with
      | none => trivial
      | some p => exact ⟨rs', hread'.emit (by simp)⟩

theorem Logged.unicast (h : Logged s rs) (host : Host) (m : EbtUlogPacketMsg) :
    Logs (unicast host m s) := by
  rw [unicast_eq_run]
  apply run_result (P := Logs)
  · exact ⟨rs, h⟩
  · rintro off - t ⟨rs', ht⟩
    exact ht.learnAndWrite host off m

theorem Logged.distributePacket (h : Logged s rs) (host : Host) (m : EbtUlogPacketMsg) :
    Logs (distributePacket host m s) := by
  have hloads : ∀ e ∈ (groupTest m).1, ∀ line, e ≠ .print line := by
    intro e he line heq
    obtain ⟨off, len, hload⟩ := groupTest_loads m e he
    rw [hload] at heq
    cases heq
  rw [distributePacket_eq]
  cases (groupTest m).2 with
  | some off =>
      have hflood : ∀ e ∈ floodEvents m off s.listTop, ∀ line, e ≠ .print line := by
        intro e he line heq
        simp [heq, floodEvents] at he
      exact ⟨_, (h.emit (List.forall_mem_append.mpr ⟨hloads, hflood⟩)).macListPrint⟩
  | none =>
      have hrest := (h.emit hloads).unicast host m
      cases hs : TapProject.unicast host m (s.emit (groupTest m).1) with
      | error e => trivial
      | ok t =>
          rw [hs] at hrest
          obtain ⟨rs', ht⟩ := hrest
          exact ⟨_, ht.macListPrint⟩

theorem Logs.checkNames {r : Except Halt Sys} (h : Logs r) : Logs (checkNames r) := by
  unfold TapProject.checkNames
  split
  · exact h
  · trivial

/-- A message. -/
theorem Logged.mainBody (h : Logged s rs) (localtime : Int → Bool) (host : Host)
    (m : EbtUlogPacketMsg) : Logs (mainBody localtime host m s) := by
  unfold TapProject.mainBody
  split
  · refine ⟨rs ++ [.inl m.version], ?_, ?_⟩
    · rw [Sys.emit_trace, stdout_append, h.out, List.flatMap_append, List.flatMap_singleton]
      show _ = _ ++ wrongVersion m.version
      unfold wrongVersion
      generalize "WRONG VERSION: ".toList = wrong
      generalize " INSTEAD OF ".toList = instead
      simp [stdout]
    · rw [lastTable_concat]
      exact h.table
  · split
    · trivial
    · exact (h.distributePacket host m).checkNames

end

/-! ## Runs -/

/-- The program has printed what tells its table, or has ended. -/
def MainLogs : Except MainEnd MainState → Prop
  | .ok st => ∃ rs, Logged st.sys rs
  | .error _ => True

theorem Logged.mainTurn (L : MsgLayout) (localtime : Int → Bool) (host : Host) {st : MainState}
    {rs : List Report} (h : Logged st.sys rs) : MainLogs (mainTurn L localtime host st) := by
  cases hcall : ulogGetPacket st.ulog with
  | error e =>
      rw [mainTurn_error hcall]
      trivial
  | ok p =>
      obtain ⟨msg, u⟩ := p
      cases msg with
      | none =>
          rw [mainTurn_none hcall]
          exact ⟨rs, h⟩
      | some msg =>
          by_cases hin : Readable L msg
          · have hbody := h.mainBody localtime host (readMsg L u.buf msg)
            rw [mainTurn_some hcall hin]
            cases hs : TapProject.mainBody localtime host (readMsg L u.buf msg) st.sys with
            | error e => trivial
            | ok s =>
                rw [hs] at hbody
                exact hbody
          · rw [mainTurn_outside hcall hin]
            trivial

/-- Every run. -/
theorem mainTurns_logs (L : MsgLayout) (localtime : Int → Bool) (host : Host) (inbox : List Recv)
    (n : Nat) : MainLogs (mainTurns L localtime host n (mainStart inbox)) := by
  apply run_result (P := MainLogs)
  · exact ⟨[], rfl, rfl⟩
  · rintro - - st ⟨rs, hst⟩
    exact hst.mainTurn L localtime host

/-- **The output tells the table.** Two runs of the program that are still going on, on any systems
and whatever arrives, and that have printed the same have the same table: the same addresses, in the
same order, with the same names of devices and the same descriptors. -/
theorem output_tells_table {L L' : MsgLayout} {localtime localtime' : Int → Bool}
    {host host' : Host} {inbox inbox' : List Recv} {n n' : Nat} {st st' : MainState}
    (h : mainTurns L localtime host n (mainStart inbox) = .ok st)
    (h' : mainTurns L' localtime' host' n' (mainStart inbox') = .ok st')
    (hout : stdout st.sys.trace = stdout st'.sys.trace) : st.sys.listTop = st'.sys.listTop := by
  have hlogs := mainTurns_logs L localtime host inbox n
  have hlogs' := mainTurns_logs L' localtime' host' inbox' n'
  rw [h] at hlogs
  rw [h'] at hlogs'
  obtain ⟨rs, hrs⟩ := hlogs
  obtain ⟨rs', hrs'⟩ := hlogs'
  have htold : rs.map Report.told = rs'.map Report.told := by
    rw [← code_report.flatMap Report.text_ne_nil, ← hrs.out, ← hrs'.out, hout]
  calc st.sys.listTop
      = (lastTable rs).map Entry.node := hrs.table
    _ = lastTable (rs.map Report.told) := (lastTable_map Entry.node rs).symm
    _ = lastTable (rs'.map Report.told) := by rw [htold]
    _ = (lastTable rs').map Entry.node := lastTable_map Entry.node rs'
    _ = st'.sys.listTop := hrs'.table.symm

/-- The guest's device is reported when it is added and behind the frame. -/
def knockReports : List Report :=
  [.inr [⟨⟨0x00, 0x16, 0x3e, 0x0d, 0x58, 0xc1⟩, 0, 4⟩],
    .inr [⟨⟨0x00, 0x16, 0x3e, 0x0d, 0x58, 0xc1⟩, 0, 4⟩]]

/-- What a run that goes on has printed. -/
def printed : Except MainEnd MainState → Option CStr
  | .ok st => some (stdout st.sys.trace)
  | .error _ => none

theorem of_printed {r : Except MainEnd MainState} {text : CStr} (h : printed r = some text) :
    ∃ st, r = .ok st ∧ stdout st.sys.trace = text := by
  cases r with
  | ok st => exact ⟨st, rfl, Option.some.inj h⟩
  | error e => exact absurd h (by simp [printed])

/-- Two runs on different datagrams print the same. -/
theorem output_tells_table_knock :
    ∃ st st', mainTurns layout64 localtime64 freshHost 1
          (mainStart [.datagram 12 (knock 0xc1 34)]) = .ok st
      ∧ mainTurns layout64 localtime64 freshHost 1
          (mainStart [.failed EINTR, .datagram 12 (knock 0xc1 60)]) = .ok st'
      ∧ stdout st.sys.trace = knockReports.flatMap Report.text
      ∧ st.sys.listTop = st'.sys.listTop := by
  have hprinted : printed (mainTurns layout64 localtime64 freshHost 1
      (mainStart [.datagram 12 (knock 0xc1 34)])) = some (knockReports.flatMap Report.text) := by
    decide +kernel
  have hprinted' : printed (mainTurns layout64 localtime64 freshHost 1
      (mainStart [.failed EINTR, .datagram 12 (knock 0xc1 60)]))
        = some (knockReports.flatMap Report.text) := by decide +kernel
  obtain ⟨st, hst, hout⟩ := of_printed hprinted
  obtain ⟨st', hst', hout'⟩ := of_printed hprinted'
  exact ⟨st, st', hst, hst', hout, output_tells_table hst hst' (hout.trans hout'.symm)⟩

end TapProject
