import Mathlib.Order.Lattice
import TapProject.Lib.Digits

set_option autoImplicit false

/-! # The program's state and the system below it

The state of `write_tap_v5.c` is the table `list_top`, the command buffer `cmd_str` and what
the run has asked of the operating system so far, recorded as a trace of events. What the
system answers is a parameter, `Host`: it may depend on everything the run has done before.
`tun_alloc` is modelled over it with all its error paths.

C strings are the lists of their characters up to the terminating NUL, of any length; `%d`
and `%x` print through `Nat.toDigits`. -/

namespace TapProject

/-- The text of a C string, without its NUL. -/
abbrev CStr := List Char

/-- `%d` of a non-negative number. -/
def decimal (n : Nat) : CStr := Nat.toDigits 10 n

/-- `%x`. -/
def hex (n : Nat) : CStr := Nat.toDigits 16 n

/-- `%d` of an `int`. -/
def signed : Int → CStr
  | .ofNat n => decimal n
  | .negSucc n => '-' :: decimal (n + 1)

/-- The text and its NUL fit an array of `size` characters. -/
def Fits (size : Nat) (text : CStr) : Prop := text.length + 1 ≤ size

instance (size : Nat) (text : CStr) : Decidable (Fits size text) :=
  inferInstanceAs (Decidable (_ ≤ _))

theorem decimal_injective : Function.Injective decimal :=
  Digits.toDigits_injective (by decide) (by decide)

theorem hex_injective : Function.Injective hex :=
  Digits.toDigits_injective (by decide) (by decide)

/-! ## State and events -/

/-- `struct mac_list`: a node of the table. The link is the node's place in the list. -/
structure MacList where
  macAdd : CStr
  tapName : CStr
  tapFdNum : Int
  deriving DecidableEq, Repr

/-- What a run does to the outside, and what it reads of the captured frame. `load off len` is
a read of `len` bytes at `msg->data + off`, and `write fd bytes` the call
`write(fd, msg->data, n)` that hands the `n` bytes `bytes` to the kernel. -/
inductive Event
  | system (cmd : CStr)
  | openFd (fd : Int)
  | closeFd (fd : Int)
  | load (off len : Nat)
  | write (fd : Int) (bytes : List UInt8)
  | print (line : CStr)
  deriving DecidableEq, Repr

structure Sys where
  listTop : List MacList
  cmdStr : CStr
  trace : List Event
  deriving DecidableEq, Repr

/-- The state in which the program starts: `list_top` is `NULL`. -/
def Sys.boot : Sys := ⟨[], [], []⟩

def Sys.emit (s : Sys) (es : List Event) : Sys := { s with trace := s.trace ++ es }

section

variable (s : Sys) (es fs : List Event)

@[simp] theorem Sys.emit_listTop : (s.emit es).listTop = s.listTop := rfl
@[simp] theorem Sys.emit_cmdStr : (s.emit es).cmdStr = s.cmdStr := rfl
@[simp] theorem Sys.emit_trace : (s.emit es).trace = s.trace ++ es := rfl

@[simp] theorem Sys.emit_emit : (s.emit es).emit fs = s.emit (es ++ fs) := by
  simp [Sys.emit]

end

/-- How a run ends early: it exits, it follows `NULL`, or it has written a name behind the end of
the array that it formats names into. -/
inductive Stop
  | exit (code : Int)
  | nullDeref
  | overrun
  deriving DecidableEq, Repr

/-- A run that ended early, with the state it ended in. -/
structure Halt where
  why : Stop
  sys : Sys
  deriving DecidableEq, Repr

/-- The last state of a run, whether it ended early or not. -/
def lastSys : Except Halt Sys → Sys
  | .ok s => s
  | .error h => h.sys

@[simp] theorem lastSys_ok (s : Sys) : lastSys (.ok s) = s := rfl
@[simp] theorem lastSys_error (h : Halt) : lastSys (.error h) = h.sys := rfl

/-! ## What a trace says -/

/-- The calls of `write`, in order. -/
def writes : List Event → List (Int × List UInt8)
  | [] => []
  | .write fd bytes :: es => (fd, bytes) :: writes es
  | _ :: es => writes es

def lineEnd : Char := Char.ofNat 10

/-- What was printed. -/
def stdout : List Event → CStr
  | [] => []
  | .print line :: es => line ++ lineEnd :: stdout es
  | _ :: es => stdout es

/-- The descriptors that are opened and not closed again. -/
def openFds (es : List Event) : List Int :=
  es.foldl (fun fds e => match e with
    | .openFd fd => fds ++ [fd]
    | .closeFd fd => fds.erase fd
    | _ => fds) []

/-- The events that open or close a descriptor. -/
def Event.isFd : Event → Bool
  | .openFd _ => true
  | .closeFd _ => true
  | _ => false

def Event.isWrite : Event → Bool
  | .write _ _ => true
  | _ => false

theorem writes_append (es fs : List Event) : writes (es ++ fs) = writes es ++ writes fs := by
  induction es with
  | nil => rfl
  | cons e es ih => cases e <;> simp [writes, ih]

theorem stdout_append (es fs : List Event) : stdout (es ++ fs) = stdout es ++ stdout fs := by
  induction es with
  | nil => rfl
  | cons e es ih => cases e <;> simp [stdout, ih]

/-- Nothing is printed without `printf`. -/
theorem stdout_eq_nil {es : List Event} (h : ∀ e ∈ es, ∀ line, e ≠ .print line) :
    stdout es = [] := by
  induction es with
  | nil => rfl
  | cons e es ih =>
      obtain ⟨he, hes⟩ := List.forall_mem_cons.mp h
      cases e with
      | print line => exact absurd rfl (he line)
      | system | openFd | closeFd | load | write => exact ih hes

theorem mem_writes {es : List Event} {fd : Int} {bytes : List UInt8} :
    (fd, bytes) ∈ writes es ↔ .write fd bytes ∈ es := by
  induction es with
  | nil => simp [writes]
  | cons e es ih => cases e <;> simp [writes, ih]

theorem writes_eq_nil {es : List Event} (h : ∀ e ∈ es, e.isWrite = false) : writes es = [] := by
  induction es with
  | nil => rfl
  | cons e es ih =>
      obtain ⟨he, hes⟩ := List.forall_mem_cons.mp h
      cases e <;> simp_all [writes, Event.isWrite]

@[simp] theorem openFds_nil : openFds [] = [] := rfl

theorem openFds_concat_open (es : List Event) (fd : Int) :
    openFds (es ++ [.openFd fd]) = openFds es ++ [fd] := by
  simp [openFds]

theorem openFds_append_of_not_fd {es fs : List Event} (h : ∀ e ∈ fs, e.isFd = false) :
    openFds (es ++ fs) = openFds es := by
  induction fs generalizing es with
  | nil => simp
  | cons f fs ih =>
      obtain ⟨hf, hfs⟩ := List.forall_mem_cons.mp h
      have hstep : openFds (es ++ [f]) = openFds es := by
        cases f <;> simp_all [openFds, Event.isFd]
      rw [List.append_cons, ih hfs, hstep]

/-! ## The system's answers -/

/-- The answers of the operating system: what `open` of `/dev/net/tun` returns, and what the
`TUNSETIFF` request on a descriptor with given flags and interface name returns and leaves in
`ifr_name`. -/
structure Host where
  openTun : List Event → Int
  tunsetiff : List Event → Int → Nat → CStr → Int × CStr

/-- Both calls of `tun_alloc` succeed, and `open` hands out a descriptor that is not open. -/
structure Host.Succeeds (host : Host) : Prop where
  opens : ∀ es, 0 ≤ host.openTun es
  fresh : ∀ es, host.openTun es ∉ openFds es
  attaches : ∀ es fd flags name, 0 ≤ (host.tunsetiff es fd flags name).1

def IFNAMSIZ : Nat := 16
def IFF_TAP : Nat := 0x0002
def IFF_NO_PI : Nat := 0x1000

/-- `int flags = IFF_TAP;` -/
def flags : Nat := IFF_TAP

/-- `tun_alloc`: the value returned, the name left in `dev` and the state. -/
def tunAlloc (host : Host) (dev : CStr) (flags : Nat) (s : Sys) : Int × CStr × Sys :=
  let fd := host.openTun s.trace
  if fd < 0 then (fd, dev, s)
  else
    let s := s.emit [.openFd fd]
    -- `memset(&ifr, 0, sizeof(ifr))` leaves `ifr_name` empty
    let ifrName := if dev = [] then [] else dev.take IFNAMSIZ
    let (err, ifrName) := host.tunsetiff s.trace fd flags ifrName
    if err < 0 then (err, dev, s.emit [.closeFd fd])
    else (fd, ifrName, s)

theorem tunAlloc_of_succeeds {host : Host} (h : host.Succeeds) (dev : CStr) (flags : Nat)
    (s : Sys) :
    (tunAlloc host dev flags s).1 = host.openTun s.trace
      ∧ (tunAlloc host dev flags s).2.2 = s.emit [.openFd (host.openTun s.trace)] := by
  have hopen : ¬ host.openTun s.trace < 0 := by have := h.opens s.trace; omega
  have hioctl : ∀ es fd fl name, ¬ (host.tunsetiff es fd fl name).1 < 0 := fun es fd fl name => by
    have := h.attaches es fd fl name
    omega
  simp [tunAlloc, hopen, hioctl]

/-- Whatever the system answers, `tun_alloc` only opens and closes descriptors. -/
theorem tunAlloc_emit (host : Host) (dev : CStr) (flags : Nat) (s : Sys) :
    ∃ es, (tunAlloc host dev flags s).2.2 = s.emit es ∧ ∀ e ∈ es, e.isFd = true := by
  by_cases hopen : host.openTun s.trace < 0
  · exact ⟨[], by simp [tunAlloc, hopen, Sys.emit], by simp⟩
  · by_cases hioctl : (host.tunsetiff (s.trace ++ [.openFd (host.openTun s.trace)])
        (host.openTun s.trace) flags (if dev = [] then [] else dev.take IFNAMSIZ)).1 < 0
    · exact ⟨[.openFd (host.openTun s.trace), .closeFd (host.openTun s.trace)],
        by simp [tunAlloc, hopen, hioctl], by simp [Event.isFd]⟩
    · exact ⟨[.openFd (host.openTun s.trace)],
        by simp [tunAlloc, hopen, hioctl], by simp [Event.isFd]⟩

/-! ## A system on which every call succeeds -/

/-- Hands out descriptors above the standard ones and the netlink socket, and attaches every
device under the name asked for. -/
def freshHost : Host where
  openTun es := (openFds es).foldr max 3 + 1
  tunsetiff _ _ _ name := (0, name)

theorem le_foldr_max (l : List Int) : 3 ≤ l.foldr max 3 ∧ ∀ fd ∈ l, fd ≤ l.foldr max 3 := by
  induction l with
  | nil => simp
  | cons a l ih =>
      refine ⟨le_trans ih.1 (le_max_right _ _), ?_⟩
      simp only [List.mem_cons, List.foldr_cons, forall_eq_or_imp]
      exact ⟨le_max_left _ _, fun fd hfd => le_trans (ih.2 fd hfd) (le_max_right _ _)⟩

theorem freshHost_succeeds : freshHost.Succeeds := by
  refine ⟨fun es => ?_, fun es hmem => ?_, fun _ _ _ _ => le_refl _⟩
  · have := (le_foldr_max (openFds es)).1
    show 0 ≤ (openFds es).foldr max 3 + 1
    omega
  · have hle : (openFds es).foldr max 3 + 1 ≤ (openFds es).foldr max 3 :=
      (le_foldr_max (openFds es)).2 _ hmem
    omega

end TapProject
