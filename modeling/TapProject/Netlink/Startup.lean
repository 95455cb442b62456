import TapProject.Netlink.Encode
import TapProject.Netlink.GroupArgument

set_option autoImplicit false

/-! # From the command line to the socket

What `main` of `write_tap_v5.c` and of `write_tap_v5_hyper.c` does alike before anything else: it
chooses a multicast group, by the argument or group 1 without one, makes the socket and binds it to
its own address.

`Selects` says which command lines choose a group. These get the socket, bound to the group and to
no other (`openSocket_of_selects`), so it delivers what is sent to the group (`deliver_openSocket`).
Any other number shifts by a count that C leaves undefined; the programs as they are built go on
with whatever that gives (`SocketHost.shift`). -/

namespace TapProject.Netlink

open Strtoul

/-! ## The socket -/

/-- `struct sockaddr_nl`; the family is `AF_NETLINK`. -/
structure SockaddrNl where
  nlPid : UInt32
  nlGroups : UInt32
  deriving DecidableEq, Repr

/-- The multicast group is among those of the address; group `g` has bit `g - 1`. -/
def SockaddrNl.member (addr : SockaddrNl) (g : Nat) : Bool :=
  addr.nlGroups.toNat.testBit (g - 1)

/-- What the system answers about sockets: `getpid`, `socket` and `bind`, and what a socket that is
bound to an address delivers; and what `1 << count` gives on the machine when `count` is not the
place of a bit. -/
structure SocketHost where
  getpid : UInt32
  socket : Int
  bind : Int → SockaddrNl → Int
  deliver : SockaddrNl → List Recv
  shift : Int → UInt32

/-- How the program ends before it has its socket. -/
inductive SocketEnd
  | exit (code : Int)
  deriving DecidableEq, Repr

/-- The groups of the two addresses, `argv` being the command line with the program's name. -/
def argument (sfd : Int) : List CStr → Started
  | [_, argv1] => groupArgument false sfd argv1
  -- the initial values
  | _ => if sfd = 0 then .exit (-1) else .bind 1 1

/-- `bind`, and the address that the socket then has. What `setsockopt` returns is not looked at. -/
def bindSocket (net : SocketHost) (saLocalGroups : UInt32) : Except SocketEnd SockaddrNl :=
  let saLocal : SockaddrNl := ⟨net.getpid, saLocalGroups⟩
  if net.bind net.socket saLocal = -1 then .error (.exit (-1)) else .ok saLocal

/-- The address that the socket is bound to. -/
def openSocket (net : SocketHost) (argv : List CStr) : Except SocketEnd SockaddrNl :=
  match argument net.socket argv with
  | .exit code => .error (.exit code)
  | .badShift count =>
      -- the shift gives something, and `if (!sfd)` stands behind it
      if net.socket = 0 then .error (.exit (-1)) else bindSocket net (net.shift count)
  | .bind saLocalGroups _ => bindSocket net saLocalGroups

/-- `socket` and `bind` succeed. -/
structure SocketHost.Succeeds (net : SocketHost) : Prop where
  socket : net.socket ≠ 0
  binds : ∀ addr, net.bind net.socket addr ≠ -1

/-- The socket delivers what is sent to the groups of its address, in order: `sends` are the
datagrams with the groups they are sent to. -/
def SocketHost.Multicasts (net : SocketHost) (sends : List (Nat × Sending)) : Prop :=
  ∀ addr, net.deliver addr
    = inboxOfSendings ((sends.filter fun s => addr.member s.1).map Prod.snd)

/-! ## The group -/

/-- The number of the group: without an argument, or with more than one, the first. -/
def groupNumber : List CStr → Int
  | [_, argv1] => toInt (strtoul argv1).1
  | _ => 1

/-- The command line chooses the group `g`. -/
def Selects (argv : List CStr) (g : Nat) : Prop := groupNumber argv = g ∧ 1 ≤ g ∧ g ≤ 32

/-- How the program goes on with a number. -/
def shifted (sfd i : Int) : Started :=
  match shiftOne (i - 1) with
  | none => .badShift (i - 1)
  | some groups => if sfd = 0 then .exit (-1) else .bind groups groups

theorem shifted_of_none {sfd i : Int} (h : shiftOne (i - 1) = none) :
    shifted sfd i = .badShift (i - 1) := by
  rw [shifted, h]

theorem shifted_of_some {sfd i : Int} {groups : UInt32} (h : shiftOne (i - 1) = some groups) :
    shifted sfd i = if sfd = 0 then .exit (-1) else .bind groups groups := by
  rw [shifted, h]

/-- As the programs are built, nothing but the number matters of an argument. -/
theorem groupArgument_shifted (sfd : Int) {argv1 ctmp : CStr} {n : Nat}
    (hread : strtoul argv1 = (n, ctmp)) :
    groupArgument false sfd argv1 = shifted sfd (toInt n) := by
  cases h : shiftOne (toInt n - 1) with
  | none => rw [groupArgument_eq false sfd hread, if_neg (by simp), h, shifted_of_none h]
  | some groups => rw [groupArgument_eq false sfd hread, if_neg (by simp), h, shifted_of_some h]

/-- The initial values of the addresses are what the shift makes of group 1. -/
theorem argument_eq (sfd : Int) (argv : List CStr) :
    argument sfd argv = shifted sfd (groupNumber argv) := by
  have hfirst : shiftOne (1 - 1) = some 1 := by decide
  unfold argument groupNumber
  split
  · exact groupArgument_shifted sfd rfl
  · exact (shifted_of_some hfirst).symm

/-- A number between 1 and 32, as it is printed, chooses its group. -/
theorem selects_decimal (argv0 : CStr) {g : Nat} (hlo : 1 ≤ g) (hhi : g ≤ 32) :
    Selects [argv0, decimal g] g := by
  have hnum : IsNumeral (decimal g) [] (decimal g) :=
    ⟨⟨[], rfl, by simp⟩, Or.inl rfl, Nat.toDigits_ne_nil,
      fun c hc => Nat.isDigit_of_mem_toDigits (by decide) (by decide) hc⟩
  have hvalue : value [] (decimal g) = g := by
    unfold value decimal
    rw [Nat.ofDigitChars_ten_toDigits, if_neg (by rw [ULONG_MAX]; omega), if_neg (by decide)]
  refine ⟨?_, hlo, hhi⟩
  rw [groupNumber, strtoul_of_isNumeral hnum, hvalue, toInt_of_le hhi]

variable {net : SocketHost} {argv : List CStr}

/-- The socket is bound to the groups that the number of the command line shifts to. -/
theorem openSocket_eq (net : SocketHost) (argv : List CStr) :
    openSocket net argv = if net.socket = 0 then .error (.exit (-1))
      else bindSocket net
        ((shiftOne (groupNumber argv - 1)).getD (net.shift (groupNumber argv - 1))) := by
  cases hshift : shiftOne (groupNumber argv - 1) with
  | none => simp only [openSocket, argument_eq, shifted_of_none hshift, Option.getD_none]
  | some groups =>
      by_cases hsfd : net.socket = 0
      · simp only [openSocket, argument_eq, shifted_of_some hshift, if_pos hsfd]
      · simp only [openSocket, argument_eq, shifted_of_some hshift, if_neg hsfd, Option.getD_some]

/-- **A chosen group gets its socket**, with the bit of the group and no other. -/
theorem openSocket_of_selects (hnet : net.Succeeds) {g : Nat} (h : Selects argv g) :
    ∃ addr, openSocket net argv = .ok addr ∧ addr.nlPid = net.getpid
      ∧ addr.nlGroups.toNat = 2 ^ (g - 1) := by
  obtain ⟨hnumber, hlo, hhi⟩ := h
  obtain ⟨groups, hshift, hbits⟩ := shiftOne_toNat hlo hhi
  refine ⟨⟨net.getpid, groups⟩, ?_, rfl, hbits⟩
  rw [openSocket_eq, hnumber, hshift, if_neg hnet.socket, Option.getD_some, bindSocket]
  exact if_neg (hnet.binds _)

/-- The program ends in front of its loop only when a call fails. -/
theorem openSocket_error {e : SocketEnd} (h : openSocket net argv = .error e) : e = .exit (-1) := by
  rw [openSocket_eq, bindSocket] at h
  split_ifs at h
  · exact (Except.error.inj h).symm
  · exact (Except.error.inj h).symm

/-- The members of a group's address. -/
theorem member_iff {addr : SockaddrNl} {g k : Nat} (h : addr.nlGroups.toNat = 2 ^ (g - 1))
    (hg : 1 ≤ g) (hk : 1 ≤ k) : addr.member k = true ↔ k = g := by
  rw [SockaddrNl.member, h, Nat.testBit_two_pow, decide_eq_true_eq]
  omega

/-- What is sent to the group, in order. -/
def sentToGroup (g : Nat) (sends : List (Nat × Sending)) : List Sending :=
  (sends.filter fun s => s.1 = g).map Prod.snd

/-- **The socket delivers what is sent to the group.** -/
theorem deliver_openSocket {sends : List (Nat × Sending)} (hnet : net.Succeeds)
    (hmulti : net.Multicasts sends) (hgroups : ∀ s ∈ sends, 1 ≤ s.1) {g : Nat}
    (h : Selects argv g) :
    ∃ addr, openSocket net argv = .ok addr
      ∧ net.deliver addr = inboxOfSendings (sentToGroup g sends) := by
  obtain ⟨addr, hok, -, hbits⟩ := openSocket_of_selects hnet h
  refine ⟨addr, hok, ?_⟩
  rw [hmulti addr, sentToGroup]
  congr 2
  apply List.filter_congr
  intro s hs
  rw [Bool.eq_iff_iff, decide_eq_true_eq]
  exact member_iff hbits h.2.1 (hgroups s hs)

end TapProject.Netlink
