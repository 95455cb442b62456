import TapProject.Main.Memory
import TapProject.Main.Wire
import TapProject.Netlink.Startup

set_option autoImplicit false

/-! # The program from its command line

The whole program `write_tap_v5.c`, with its table in memory: `main` calls `mac_list_init`, chooses
a multicast group, binds its socket to the group and runs its loop on what the socket delivers.

`program_tableSafe` is what holds of every run. `program_wire` puts together what was shown of the
parts when the system's calls succeed: which socket the command line makes, what the receiver
returns of what is sent to it, that the table in memory is the list, and that the dispatcher on the
list is a hub. -/

namespace TapProject.Pointers

open Cells Slices Hub Runs
open Netlink hiding deliveries

/-- How the program ends: in front of its loop or in it. -/
inductive ProgramEnd
  | socket (why : SocketEnd)
  | loop (why : MainEnd)

/-- The program, up to the end of the `n`-th turn of its loop. -/
def program (L : MsgLayout) (localtime : Int → Bool) (host : Host) (alloc : Alloc)
    (net : SocketHost) (argv : List CStr) (n : Nat) : Except ProgramEnd MainState :=
  match openSocket net argv with
  | .error e => .error (.socket e)
  | .ok saLocal => (mainTurns L localtime host alloc n (net.deliver saLocal)).mapError .loop

theorem program_of_openSocket {L : MsgLayout} {localtime : Int → Bool} {host : Host}
    {alloc : Alloc} {net : SocketHost} {argv : List CStr} {saLocal : SockaddrNl}
    (h : openSocket net argv = .ok saLocal) (n : Nat) :
    program L localtime host alloc net argv n
      = (mainTurns L localtime host alloc n (net.deliver saLocal)).mapError .loop := by
  unfold program
  rw [h]

/-! ## Every run -/

/-- A memory that is sound, with the table of a running program. -/
def TableSafe (m : Mem) : Prop :=
  ∃ l, Sound m l ∧ Running ⟨l.map Prod.snd, m.cmdStr, m.trace⟩

/-- The body of the loop ended the program: a device could not be opened, the stamp of a message has
no date, or the name of the eleventh device does not fit. -/
inductive Exited (h : Halt) : Prop
  | device : h.why = .program (.exit 1) →
      (∃ es, h.mem.trace = es ++ [.print "error:tun_alloc".toList]) →
      Traces.Lawful Allowed [] h.mem.trace → Exited h
  | date : h.why = .program .nullDeref → Traces.Lawful Allowed [] h.mem.trace → Exited h
  | name : h.why = .program .overrun → 10 < h.mem.heap.keys.card → Exited h

/-- How the program is after some turns of its loop: it runs, it has no socket, it waits for a
datagram or gave up receiving, the cursor has left the buffer, or the body of the loop ended it. -/
inductive ProgramOutcome : Except ProgramEnd MainState → Prop
  | running {st : MainState} : TableSafe st.mem → ProgramOutcome (.ok st)
  | socket : ProgramOutcome (.error (.socket (.exit (-1))))
  | receive {why : Netlink.Ended} {m : Mem} : TableSafe m →
      ProgramOutcome (.error (.loop (.receive why m)))
  | outside {m : Mem} : TableSafe m → ProgramOutcome (.error (.loop (.outside m)))
  | halt {h : Halt} : Exited h → ProgramOutcome (.error (.loop (.halt h)))

theorem InStep.tableSafe {m : Mem} {s : Sys} (h : InStep m s) (hs : Running s) : TableSafe m := by
  obtain ⟨l, hsound, htable, hcmd, htrace⟩ := h.sameTable
  refine ⟨l, hsound, ?_⟩
  rwa [htable, hcmd, htrace]

theorem SameExit.exited {h : Halt} {h' : TapProject.Halt} (hsame : SameExit h h')
    (hfailed : BodyFailed h') : Exited h := by
  obtain ⟨hwhy, htrace, hcard⟩ := hsame
  cases hfailed with
  | device hfailed =>
      rw [hfailed.why] at hwhy
      exact .device hwhy (htrace ▸ hfailed.said) (htrace ▸ hfailed.lawful)
  | date hs => exact .date hwhy (htrace ▸ hs.lawful)
  | name hlen => exact .name hwhy (hcard ▸ hlen)

/-- The loop in memory is as the loop on the list. -/
theorem outcome_of_agree {r : Except MainEnd MainState}
    {r' : Except TapProject.MainEnd TapProject.MainState}
    (h : Agree (SameReceiver InStep) (SameEnd InStep) r r') (h' : MainOutcome r') :
    ProgramOutcome (r.mapError .loop) := by
  cases h' with
  | @running st' hs =>
      obtain ⟨st, rfl, -, hmem⟩ := h.of_ok
      exact .running (hmem.tableSafe hs)
  | receive hs =>
      obtain ⟨⟨why, m⟩ | m | e, rfl, hend⟩ := h.of_error
      case receive => exact .receive (hend.2.tableSafe hs)
      all_goals exact hend.elim
  | outside hs =>
      obtain ⟨⟨why, m⟩ | m | e, rfl, hend⟩ := h.of_error
      case outside => exact .outside (InStep.tableSafe hend hs)
      all_goals exact hend.elim
  | halt hfailed =>
      obtain ⟨⟨why, m⟩ | m | e, rfl, hend⟩ := h.of_error
      case halt => exact .halt (SameExit.exited hend hfailed)
      all_goals exact hend.elim

/-- **The table is safe in every run of the program.** Whatever the command line, whatever the calls
of the system answer and whatever arrives, as long as `open` returns no descriptor that is open and
`malloc` hands out memory that is free: after any number of turns the list in memory is sound, with
devices numbered in order, names that fit and no address or descriptor twice, exactly its
descriptors are open, and everything that happened was allowed when it did. The program follows no
pointer of the table that does not lead to a node and reads no field of a node that was not written.
It ends only without a socket, in receiving, when the cursor leaves the buffer, when a device cannot
be opened, at a stamp without a date and at the eleventh device. -/
theorem program_tableSafe (L : MsgLayout) (localtime : Int → Bool) (host : Host) (hf : host.Fresh)
    (alloc : Alloc) (ha : Succeeds alloc) (net : SocketHost) (argv : List CStr) (n : Nat) :
    ProgramOutcome (program L localtime host alloc net argv n) := by
  cases hopen : openSocket net argv with
  | error e =>
      unfold program
      rw [hopen, openSocket_error hopen]
      exact .socket
  | ok saLocal =>
      rw [program_of_openSocket hopen]
      apply outcome_of_agree (mainTurns_agree ha (net.deliver saLocal) n)
      apply run_result (P := MainOutcome)
      case h₀ => exact .running (Running.start _)
      case hstep =>
        intro _ _ st hst
        cases hst with
        | running hst => exact hst.mainTurn hf

/-- What a shift gives on a machine that takes the count modulo 32. -/
def shift86 (count : Int) : UInt32 := 1 <<< UInt32.ofNat (count % 32).toNat

/-- Whatever the socket is bound to, the two guests' datagrams arrive. -/
def twoGuestsNet : SocketHost := ⟨4711, 3, fun _ _ => 0, fun _ => twoGuests, shift86⟩

/-- The number 0 chooses no group. The program binds its socket all the same, and exits at the
second guest, on a system that opens one device. -/
theorem program_tableSafe_refused :
    ∃ h, program layout64 localtime64 oneDevice firstFree twoGuestsNet
          ["write_to_tap".toList, "0".toList] 2 = .error (.loop (.halt h))
      ∧ Exited h ∧ h.why = .program (.exit 1) ∧ h.mem.heap.keys.card = 2 := by
  obtain ⟨h', hrun', hwhy, htable, -⟩ := halted_twoGuests
  generalize hn : 2 = n at hrun' ⊢
  have hsafe := program_tableSafe layout64 localtime64 oneDevice oneDevice_fresh firstFree
    firstFree_succeeds twoGuestsNet ["write_to_tap".toList, "0".toList] n
  have hopen : openSocket twoGuestsNet ["write_to_tap".toList, "0".toList]
      = .ok ⟨4711, shift86 (-1)⟩ := by decide +kernel
  have hagree := @mainTurns_agree layout64 localtime64 oneDevice firstFree firstFree_succeeds
    twoGuests n
  rw [hrun'] at hagree
  obtain ⟨e, hrun, hend⟩ := hagree.of_error
  have hprogram : program layout64 localtime64 oneDevice firstFree twoGuestsNet
      ["write_to_tap".toList, "0".toList] n = .error (.loop e) := by
    rw [program_of_openSocket hopen]
    exact congrArg (Except.mapError ProgramEnd.loop) hrun
  rw [hprogram] at hsafe
  rcases e with ⟨why, m⟩ | m | h
  case halt =>
    cases hsafe with
    | halt hexited =>
        refine ⟨h, hprogram, hexited, ?_, ?_⟩
        · rw [hend.why, hwhy]
        · rw [hend.card, htable]
          exact hn
  all_goals exact hend.elim

/-! ## From the command line to the devices -/

/-- The program on the list after some turns, and then waiting, is the program in memory so. -/
theorem mainTurns_of_blocked {L : MsgLayout} {localtime : Int → Bool} {host : Host}
    {alloc : Alloc} (ha : Succeeds alloc)
    {inbox : List Recv} {n : Nat} {st : TapProject.MainState}
    (h : TapProject.mainTurns L localtime host n (TapProject.mainStart inbox) = .ok st)
    (hblocked : TapProject.mainTurn L localtime host st = .error (.receive .blocked st.sys)) :
    ∃ pst, mainTurns L localtime host alloc n inbox = .ok pst ∧ SameTable pst.mem st.sys
      ∧ ∃ m, mainTurns L localtime host alloc (n + 1) inbox = .error (.receive .blocked m)
        ∧ SameTable m st.sys := by
  have hnext : TapProject.mainTurns L localtime host (n + 1) (TapProject.mainStart inbox)
      = .error (.receive .blocked st.sys) := by
    rw [mainTurns_add, h]
    exact (mainTurns_one st).trans hblocked
  obtain ⟨pst, hpst, -, hmem⟩ := (h ▸ mainTurns_agree ha inbox n).of_ok
  obtain ⟨e, he, hend⟩ := (hnext ▸ mainTurns_agree ha inbox (n + 1)).of_error
  rcases e with ⟨why, m⟩ | m | e
  case receive =>
    obtain ⟨rfl, hm⟩ := hend
    exact ⟨pst, hpst, hmem.sameTable, m, he, hm.sameTable⟩
  all_goals exact hend.elim

/-- **From the command line to the devices.** Datagrams of encoded messages are sent to multicast
groups, in any order; those for the group that the command line chooses carry payloads that are
complete, from which no more than ten addresses are learned. When the system's calls succeed, the
program takes one turn for each message that is sent to its group and then waits for the next
datagram. Following the links from `list_top` leads to the addresses that the hub learns from the
payloads sent to the group, under the names `tap0`, `tap1` and so on, and what was written is what
this hub sends, to the descriptors of the hub's ports, with as many bytes as the frame says and with
the captured ones as far as those go. What is sent to other groups and where the nodes are allocated
do not matter; how the messages are spread over datagrams and what the receive buffer held decide
only what is written behind a captured frame. -/
theorem program_wire (L : MsgLayout) (hL : L.Ordered) (localtime : Int → Bool) (host : Host)
    (hh : host.Succeeds) (alloc : Alloc) (ha : Succeeds alloc) (net : SocketHost)
    (hnet : net.Succeeds) (sends : List (Nat × Sending)) (hmulti : net.Multicasts sends)
    (hgroups : ∀ s ∈ sends, 1 ≤ s.1) (argv : List CStr) (g : Nat) (hargv : Selects argv g)
    (hc : ∀ m ∈ sentMsgs (sentToGroup g sends), Complete L localtime m.payload)
    (hfit : (table [] (wireFrames L (sentToGroup g sends))).length ≤ 10) :
    ∃ st l, program L localtime host alloc net argv (sentMsgs (sentToGroup g sends)).length
        = .ok st
      ∧ Sound st.mem l
      ∧ addrs (l.map Prod.snd) = (table [] (wireFrames L (sentToGroup g sends))).map etherNtoa
      ∧ names (l.map Prod.snd) = (List.range l.length).map tapName
      ∧ List.Forall₂ (fun d w => w.1 = fdAt (l.map Prod.snd) d.1 ∧ SentFor d.2 w.2)
          (deliveries [] (wireFrames L (sentToGroup g sends))) (writes st.mem.trace)
      ∧ ∃ m, program L localtime host alloc net argv ((sentMsgs (sentToGroup g sends)).length + 1)
          = .error (.loop (.receive .blocked m)) ∧ m.trace = st.mem.trace := by
  obtain ⟨saLocal, hopen, hdeliver⟩ := deliver_openSocket hnet hmulti hgroups hargv
  -- the hub on the list, and then the list in memory
  obtain ⟨s, hturns, haddrs, hnames, hwrites, hblocked⟩ :=
    main_wire L hL localtime host hh (sentToGroup g sends) hc hfit
  rw [← hdeliver] at hturns
  obtain ⟨st, hst, ⟨l, hsound, htable, -, htrace⟩, m, hm, -, -, -, -, htrace'⟩ :=
    mainTurns_of_blocked ha hturns hblocked
  rw [← htable] at haddrs hnames hwrites
  rw [List.length_map] at hnames
  rw [← htrace] at hwrites
  refine ⟨st, l, ?_, hsound, haddrs, hnames, hwrites, m, ?_, htrace'.trans htrace.symm⟩
  · rw [program_of_openSocket hopen, hst]
    rfl
  · rw [program_of_openSocket hopen, hm]
    rfl

/-- The message of a guest's frame that came in through the interface. -/
def guestPayload : List UInt8 := payload64 interfaceDev [] guestFrame

theorem guestPayload_complete : Complete layout64 localtime64 guestPayload :=
  ⟨by decide +kernel, by decide +kernel, by decide +kernel⟩

/-- A datagram with this message, behind an interruption. -/
def guestSending : Sending :=
  ⟨1, [⟨111, 0, 0, 0, guestPayload⟩], .last (by decide), by decide +kernel⟩

/-- The guest's message is sent to group 5, between two datagrams for group 6. -/
def guestSends : List (Nat × Sending) := [(6, guestSending), (5, guestSending), (6, guestSending)]

def guestNet : SocketHost where
  getpid := 4711
  socket := 3
  bind _ _ := 0
  deliver addr := inboxOfSendings ((guestSends.filter fun s => addr.member s.1).map Prod.snd)
  shift := shift86

theorem guestNet_succeeds : guestNet.Succeeds := ⟨by decide, fun _ => show (0 : Int) ≠ -1 by decide⟩

theorem program_wire_guest :
    ∃ st l, program layout64 localtime64 freshHost firstFree guestNet
          ["write_to_tap".toList, "5".toList] 1 = .ok st
      ∧ Sound st.mem l ∧ addrs (l.map Prod.snd) = ["0:a0:de:aa:5b:89".toList]
      ∧ (∃ fd bytes, writes st.mem.trace = [(fd, bytes)] ∧ bytes.take 34 = guestFrame)
      ∧ ∃ m, program layout64 localtime64 freshHost firstFree guestNet
          ["write_to_tap".toList, "5".toList] 2 = .error (.loop (.receive .blocked m)) := by
  have hgroup : sentToGroup 5 guestSends = [guestSending] := by simp [sentToGroup, guestSends]
  have hlength : (sentMsgs [guestSending]).length = 1 := by decide
  have hfive : Selects ["write_to_tap".toList, "5".toList] 5 := by
    rw [show "5".toList = decimal 5 by decide]
    exact selects_decimal _ (by decide) (by decide)
  obtain ⟨st, l, hturns, hsound, haddrs, -, hwrites, m, hblocked, -⟩ := program_wire layout64
    layout64_ordered localtime64 freshHost freshHost_succeeds firstFree firstFree_succeeds guestNet
    guestNet_succeeds guestSends (fun _ => rfl) (by decide)
    ["write_to_tap".toList, "5".toList] 5 hfive
    (by rw [hgroup]; exact List.forall_mem_singleton.mpr guestPayload_complete)
    (by rw [hgroup]; decide +kernel)
  rw [hgroup, hlength] at hturns hblocked
  rw [hgroup] at haddrs hwrites
  refine ⟨st, l, hturns, hsound, haddrs.trans (by decide +kernel), ?_, m, hblocked⟩
  -- the hub sends one frame, that of the payload
  have hsent : (deliveries [] (wireFrames layout64 [guestSending])).map
      (fun d => (d.2.dataLen, (sentBytes d.2).take 34)) = [(34, guestFrame)] := by decide +kernel
  obtain ⟨d, hd, hmsg⟩ := List.map_eq_singleton_iff.mp hsent
  simp only [Prod.mk.injEq] at hmsg
  rw [hd] at hwrites
  obtain ⟨⟨fd, bytes⟩, rest, ⟨-, -, htake⟩, hrest, heq⟩ := List.forall₂_cons_left_iff.mp hwrites
  rw [List.forall₂_nil_left_iff.mp hrest] at heq
  refine ⟨fd, bytes, heq, ?_⟩
  rwa [hmsg.1, hmsg.2] at htake

end TapProject.Pointers
