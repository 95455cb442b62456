import Mathlib.Data.Set.Basic
import TapProject.Lib.Runs
import TapProject.MacList.Invariant

set_option autoImplicit false

/-! # The life of the TAP devices

Runs of `mac_list_add` and `mac_list_init` calls, and what their trace says about the devices
that are up and the descriptors that are open. `TapsMatch` is that both are exactly those of
the table. `delete_tap` formats its commands and executes none, and nothing closes a
descriptor, so the table only keeps track of its devices until it is cleared after a device was
created: the state after a run matches iff every `mac_list_init` came before the first
`mac_list_add` (`tapsMatch_iff`). -/

namespace TapProject

open Insertion Runs

inductive TableOp
  | add (item : CStr)
  | init
  deriving DecidableEq, Repr

def applyOp (host : Host) : TableOp → Sys → Except Halt Sys
  | .add item, s => macListAdd host item s
  | .init, s => .ok (macListInit s)

/-- The run of the calls `ops`, from the empty table. -/
def runOps (host : Host) (ops : List TableOp) : Except Halt Sys := run (applyOp host) ops Sys.boot

/-- `tap<n>` was put up by a command of the trace and by no later one down. -/
def tapUp (es : List Event) (n : Nat) : Prop :=
  ∃ pre post, es = pre ++ .system (linkUp n) :: post ∧ .system (linkDown n) ∉ post

/-- The devices that are up after the trace. -/
def devicesUp (es : List Event) : Set CStr := {d | ∃ n, d = tapName n ∧ tapUp es n}

/-- The devices that are up and the descriptors that are open are those of the table. -/
def TapsMatch (s : Sys) : Prop :=
  devicesUp s.trace = {d | d ∈ names s.listTop}
    ∧ {fd | fd ∈ openFds s.trace} = {fd | fd ∈ fds s.listTop}

/-- No `mac_list_init` comes after a `mac_list_add`. -/
def InitsFirst (ops : List TableOp) : Prop := ops.Pairwise fun a b => b = .init → a = .init

/-! ## The commands -/

theorem space_not_mem_decimal (n : Nat) : ' ' ∉ decimal n :=
  Digits.not_mem_toDigits (by decide) (by decide)

theorem linkUp_injective : Function.Injective linkUp := fun _ _ h =>
  decimal_injective (List.append_cancel_left (List.append_cancel_right h))

theorem linkUp_ne_linkDown (m n : Nat) : linkUp m ≠ linkDown n := by
  intro h
  have hup : upText = ' ' :: "up".toList := by decide
  have hdown : downText = ' ' :: "down".toList := by decide
  rw [linkUp, linkDown, List.append_assoc, List.append_assoc, hup, hdown] at h
  exact absurd (Digits.append_cons_inj (space_not_mem_decimal m) (space_not_mem_decimal n)
    (List.append_cancel_left h)).2 (by decide)

/-- The commands on a link begin with another letter than the command that makes a device. -/
theorem mktun_ne_link (n : Nat) (t : CStr) : mktun ≠ linkSetTapText ++ decimal n ++ t := by
  have hmktun : mktun = 'o' :: "penvpn --mktun --dev tap --user shohei".toList := by decide
  have hlink : linkSetTapText = 'i' :: "p link set tap".toList := by decide
  rw [hmktun, hlink, List.cons_append, List.cons_append]
  exact fun h => absurd (List.head_eq_of_cons_eq h) (by decide)

theorem tapUp_iff {es : List Event} {n : Nat} (hdown : .system (linkDown n) ∉ es) :
    tapUp es n ↔ .system (linkUp n) ∈ es := by
  constructor
  · rintro ⟨pre, post, rfl, -⟩
    exact List.mem_append_right pre List.mem_cons_self
  · intro h
    obtain ⟨pre, post, rfl⟩ := List.append_of_mem h
    exact ⟨pre, post, rfl, fun hp => hdown (List.mem_append_right pre (List.mem_cons_of_mem _ hp))⟩

/-! ## The invariant of a run -/

/-- The table accounts for every device that is up and every descriptor that is open. -/
structure Accounted (s : Sys) : Prop where
  ups : ∀ n, .system (linkUp n) ∈ s.trace ↔ n < s.listTop.length
  opens : ∀ fd, fd ∈ openFds s.trace ↔ fd ∈ fds s.listTop

/-- Some open descriptor is not in the table. -/
def Leaked (s : Sys) : Prop := ∃ fd ∈ openFds s.trace, fd ∉ fds s.listTop

structure OpsInv (ops : List TableOp) (s : Sys) : Prop where
  table : TableInv s
  noDown : ∀ n, .system (linkDown n) ∉ s.trace
  unopened : openFds s.trace = [] ↔ ∀ a ∈ ops, a = .init
  accounted : InitsFirst ops → Accounted s
  leaked : ¬ InitsFirst ops → Leaked s

theorem OpsInv.boot : OpsInv [] Sys.boot where
  table := TableInv.boot
  noDown := by simp [Sys.boot]
  unopened := by simp [Sys.boot]
  accounted _ := ⟨by simp [Sys.boot], by simp [Sys.boot, fds]⟩
  leaked h := absurd List.Pairwise.nil h

theorem initsFirst_concat_add (ops : List TableOp) (item : CStr) :
    InitsFirst (ops ++ [.add item]) ↔ InitsFirst ops := by
  simp [InitsFirst, List.pairwise_append]

theorem initsFirst_concat_init (ops : List TableOp) :
    InitsFirst (ops ++ [.init]) ↔ InitsFirst ops ∧ ∀ a ∈ ops, a = .init := by
  simp [InitsFirst, List.pairwise_append]

@[simp] theorem deleteTap_listTop (s : Sys) : (deleteTap s).listTop = s.listTop := by
  simp [deleteTap, List.range_succ]

/-- `delete_tap` executes nothing. -/
@[simp] theorem deleteTap_trace (s : Sys) : (deleteTap s).trace = s.trace := by
  simp [deleteTap, List.range_succ]

@[simp] theorem macListInit_listTop (s : Sys) : (macListInit s).listTop = [] := by
  simp [macListInit]

@[simp] theorem macListInit_trace (s : Sys) : (macListInit s).trace = s.trace := by
  simp [macListInit]

theorem TableInv.macListInit {s : Sys} : TableInv (macListInit s) :=
  ⟨by simp [names], by simp, by simp [fds], by simp [fds]⟩

/-- Clearing the table. The invariant survives only because a run in which nothing was added has
nothing to clear; after a device was created its descriptor is left behind. -/
theorem OpsInv.init {ops : List TableOp} {s : Sys} (h : OpsInv ops s) :
    OpsInv (ops ++ [.init]) (macListInit s) := by
  constructor
  case table => exact TableInv.macListInit
  case noDown => rw [macListInit_trace]; exact h.noDown
  case unopened => rw [macListInit_trace, h.unopened]; simp [or_imp]
  case accounted =>
    intro hfirst
    obtain ⟨hops, hinits⟩ := (initsFirst_concat_init ops).mp hfirst
    have hacc := h.accounted hops
    have hopen : openFds s.trace = [] := h.unopened.mpr hinits
    have hempty : s.listTop = [] := by
      rw [← List.map_eq_nil_iff (f := (·.tapFdNum)), List.eq_nil_iff_forall_not_mem]
      intro fd hfd
      have := (hacc.opens fd).mpr hfd
      rw [hopen] at this
      exact absurd this List.not_mem_nil
    constructor
    · intro n
      rw [macListInit_trace, hacc.ups n, hempty, macListInit_listTop]
    · intro fd
      rw [macListInit_trace, hacc.opens fd, hempty, macListInit_listTop]
  case leaked =>
    -- a device was created before: its descriptor stays open
    intro hfirst
    have hopen : openFds s.trace ≠ [] := by
      intro hnil
      have hinits := h.unopened.mp hnil
      refine hfirst ((initsFirst_concat_init ops).mpr ⟨?_, hinits⟩)
      exact List.pairwise_of_forall_mem_list fun a ha _ _ _ => hinits a ha
    obtain ⟨fd, hfd⟩ := List.exists_mem_of_ne_nil _ hopen
    exact ⟨fd, by rw [macListInit_trace]; exact hfd, by simp [fds]⟩

/-- Events of which none is a command on a device. -/
theorem print_not_command {es : List Event} (hes : ∀ e ∈ es, ∃ line, e = .print line) :
    ∀ e ∈ es, e.isFd = false ∧ ∀ cmd, e ≠ .system cmd := by
  intro e he
  obtain ⟨line, rfl⟩ := hes e he
  exact ⟨rfl, by simp⟩

/-- The commands in the trace after a node was added. -/
theorem system_mem_linked {cmd item : CStr} {fd fd' : Int} {s : Sys} :
    .system cmd ∈ (macListPrint (linked item fd [.openFd fd'] s)).trace
      ↔ .system cmd ∈ s.trace ∨ cmd = mktun ∨ cmd = linkUp s.listTop.length := by
  obtain ⟨es, hes, hprint⟩ := macListPrint_emit (linked item fd [.openFd fd'] s)
  have hnot : .system cmd ∉ es := fun hmem => (print_not_command hprint _ hmem).2 cmd rfl
  rw [hes, Sys.emit_trace, linked_trace]
  simp [hnot]

theorem openFds_macListPrint (s : Sys) : openFds (macListPrint s).trace = openFds s.trace := by
  obtain ⟨es, hes, hprint⟩ := macListPrint_emit s
  rw [hes, Sys.emit_trace,
    openFds_append_of_not_fd fun e he => (print_not_command hprint e he).1]

/-- Adding an address that is in the table changes nothing; a descriptor is open already. -/
theorem OpsInv.add_of_mem {ops : List TableOp} {s : Sys} (h : OpsInv ops s) {item : CStr}
    (hmem : item ∈ addrs s.listTop) : OpsInv (ops ++ [.add item]) s := by
  obtain ⟨p, hp, -⟩ := List.mem_map.mp hmem
  have hopen : openFds s.trace ≠ [] :=
    List.ne_nil_of_mem (h.table.fds_open _ (List.mem_map_of_mem hp))
  refine ⟨h.table, h.noDown, ?_, ?_, ?_⟩
  · exact ⟨fun hnil => absurd hnil hopen, fun hinits => absurd (hinits (.add item) (by simp))
      (by simp)⟩
  · rw [initsFirst_concat_add]; exact h.accounted
  · rw [initsFirst_concat_add]; exact h.leaked

section

variable (host : Host) (item : CStr) (s : Sys)

theorem openFds_added :
    openFds (macListPrint (linked item (newFd host s) [.openFd (newFd host s)] s)).trace
      = openFds s.trace ++ [newFd host s] := by
  rw [openFds_macListPrint, openFds_linked]

theorem fds_added :
    fds (macListPrint (linked item (newFd host s) [.openFd (newFd host s)] s)).listTop
      = fds s.listTop ++ [newFd host s] :=
  fds_append s.listTop _

variable {s}

/-- A new node brings one device up and opens one descriptor, and both are in the table. -/
theorem Accounted.added (h : Accounted s) :
    Accounted (macListPrint (linked item (newFd host s) [.openFd (newFd host s)] s)) := by
  constructor
  case ups =>
    intro n
    have hmk : ¬ linkUp n = mktun := fun heq => mktun_ne_link n upText heq.symm
    have hlen : (macListPrint (linked item (newFd host s)
        [.openFd (newFd host s)] s)).listTop.length = s.listTop.length + 1 := by simp [linked]
    rw [system_mem_linked, h.ups n, linkUp_injective.eq_iff, hlen, Nat.lt_succ_iff_lt_or_eq]
    simp [hmk]
  case opens =>
    intro fd
    rw [openFds_added, fds_added, List.mem_append, List.mem_append, h.opens fd]

/-- A descriptor that was left behind stays so: it is open, so it is not handed out again. -/
theorem Leaked.added {host : Host} (hh : host.Succeeds) (h : Leaked s) :
    Leaked (macListPrint (linked item (newFd host s) [.openFd (newFd host s)] s)) := by
  obtain ⟨fd, hfd, hnot⟩ := h
  have hne : fd ≠ newFd host s := by
    rintro rfl
    rw [← openFds_bringUp] at hfd
    exact hh.fresh _ hfd
  refine ⟨fd, by rw [openFds_added]; exact List.mem_append_left _ hfd, ?_⟩
  rw [fds_added, List.mem_append, List.mem_singleton]
  exact fun hor => hor.elim hnot hne

end

theorem OpsInv.add_of_not_mem {host : Host} (hh : host.Succeeds) {ops : List TableOp} {s : Sys}
    (h : OpsInv ops s) {item : CStr} (hmem : item ∉ addrs s.listTop) :
    OpsInv (ops ++ [.add item])
      (macListPrint (linked item (newFd host s) [.openFd (newFd host s)] s)) := by
  constructor
  case table => exact (h.table.linked hh hmem).macListPrint
  case noDown =>
    intro n hn
    rcases system_mem_linked.mp hn with hold | hmk | hup
    · exact h.noDown n hold
    · exact mktun_ne_link n downText hmk.symm
    · exact linkUp_ne_linkDown _ n hup.symm
  case unopened =>
    rw [openFds_added]
    exact ⟨fun hnil => absurd hnil (by simp), fun hinits => absurd (hinits (.add item) (by simp))
      (by simp)⟩
  case accounted =>
    rw [initsFirst_concat_add]
    exact fun hfirst => (h.accounted hfirst).added host item
  case leaked =>
    rw [initsFirst_concat_add]
    exact fun hfirst => (h.leaked hfirst).added item hh

theorem OpsInv.step {host : Host} (hh : host.Succeeds) {ops : List TableOp} {s : Sys}
    (h : OpsInv ops s) (op : TableOp) :
    ∃ s', applyOp host op s = .ok s' ∧ OpsInv (ops ++ [op]) s' := by
  cases op with
  | init => exact ⟨macListInit s, rfl, h.init⟩
  | add item =>
      by_cases hmem : item ∈ addrs s.listTop
      · exact ⟨s, macListAdd_of_mem host hmem, h.add_of_mem hmem⟩
      · exact ⟨_, macListAdd_of_not_mem hh hmem, h.add_of_not_mem hh hmem⟩

/-! ## When the devices match the table -/

theorem Accounted.tapsMatch {s : Sys} (h : Accounted s) (ht : TableInv s)
    (hdown : ∀ n, .system (linkDown n) ∉ s.trace) : TapsMatch s := by
  refine ⟨Set.ext fun d => ?_, Set.ext h.opens⟩
  show (∃ n, d = tapName n ∧ tapUp s.trace n) ↔ d ∈ names s.listTop
  rw [ht.names_eq, List.mem_map]
  constructor
  · rintro ⟨n, rfl, hup⟩
    exact ⟨n, List.mem_range.mpr ((h.ups n).mp ((tapUp_iff (hdown n)).mp hup)), rfl⟩
  · rintro ⟨n, hn, rfl⟩
    exact ⟨n, rfl, (tapUp_iff (hdown n)).mpr ((h.ups n).mpr (List.mem_range.mp hn))⟩

/-- **The devices and descriptors match the table exactly after the runs in which no
`mac_list_init` comes after a `mac_list_add`.** -/
theorem tapsMatch_iff (host : Host) (hh : host.Succeeds) (ops : List TableOp) :
    ∃ s, runOps host ops = .ok s ∧ (TapsMatch s ↔ InitsFirst ops) := by
  obtain ⟨s, hok, hinv⟩ := run_ok (I := OpsInv) OpsInv.boot (fun _ op _ h => h.step hh op) ops
  refine ⟨s, hok, ?_⟩
  constructor
  · intro hmatch
    by_contra hfirst
    obtain ⟨fd, hfd, hnot⟩ := hinv.leaked hfirst
    have hmem : fd ∈ {fd | fd ∈ fds s.listTop} := hmatch.2 ▸ hfd
    exact hnot hmem
  · intro hfirst
    exact (hinv.accounted hfirst).tapsMatch hinv.table hinv.noDown

def guestMac : CStr := "0:16:3e:d:58:c1".toList

theorem tapsMatch_iff_guest :
    ∃ s, runOps freshHost [.init, .add guestMac] = .ok s ∧ InitsFirst [.init, .add guestMac]
      ∧ names s.listTop = [tapName 0] ∧ fds s.listTop = [4] ∧ TapsMatch s := by
  obtain ⟨s, hok, hiff⟩ := tapsMatch_iff freshHost freshHost_succeeds [.init, .add guestMac]
  have hfirst : InitsFirst [.init, .add guestMac] := by simp [InitsFirst]
  obtain rfl : lastSys (runOps freshHost [.init, .add guestMac]) = s := by rw [hok]; rfl
  exact ⟨_, hok, hfirst, by decide +kernel, by decide +kernel, hiff.mpr hfirst⟩

/-- After one device was created, clearing the table leaves it up and its descriptor open. -/
theorem not_tapsMatch_guest :
    ∃ s, runOps freshHost [.add guestMac, .init] = .ok s ∧ s.listTop = []
      ∧ tapName 0 ∈ devicesUp s.trace ∧ 4 ∈ openFds s.trace ∧ ¬ TapsMatch s := by
  obtain ⟨s, hs⟩ : ∃ s, s = lastSys (runOps freshHost [.add guestMac, .init]) := ⟨_, rfl⟩
  have hok : runOps freshHost [.add guestMac, .init] = .ok s := by rw [hs]; decide +kernel
  have htop : s.listTop = [] := by rw [hs]; decide +kernel
  have hup : tapUp s.trace 0 := by
    have hdown : .system (linkDown 0) ∉ s.trace := by rw [hs]; decide +kernel
    rw [tapUp_iff hdown, hs]
    decide +kernel
  have hopen : 4 ∈ openFds s.trace := by rw [hs]; decide +kernel
  refine ⟨s, hok, htop, ⟨0, rfl, hup⟩, hopen, fun h => ?_⟩
  have hmem : (4 : Int) ∈ {fd | fd ∈ fds s.listTop} := h.2 ▸ hopen
  rw [htop] at hmem
  exact absurd hmem List.not_mem_nil

end TapProject
