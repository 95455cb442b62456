import TapProject.Dispatch.Pointers
import TapProject.Main.Loop

set_option autoImplicit false

/-! # The loop of `main` on the table in memory

The program of `Main/Loop.lean` once more, with the body of the loop on the table as it lies in
memory. Both are run side by side, from `mac_list_init` on, on whatever arrives (`main_refines`). -/

namespace TapProject.Pointers

open Cells Netlink Runs

structure MainState where
  ulog : Ulog
  mem : Mem

/-- How the loop ends: `ulog_get_packet` does not return, the message it returns is outside the
buffer, or the body ends the program. -/
inductive MainEnd
  | receive (why : Ended) (mem : Mem)
  | outside (mem : Mem)
  | halt (h : Halt)

/-- The state in front of the loop: `mac_list_init` was called. -/
def mainStart (inbox : List Recv) : Except Halt MainState := do
  .ok ⟨Ulog.boot inbox, ← macListInit Mem.boot⟩

/-- The state after the body of the loop. -/
def resume (u : Ulog) : Except Halt Mem → Except MainEnd MainState
  | .ok m => .ok ⟨u, m⟩
  | .error h => .error (.halt h)

variable (L : MsgLayout) (localtime : Int → Bool) (host : Host) (alloc : Alloc)

/-- A turn of `while (1)`. -/
def mainTurn (st : MainState) : Except MainEnd MainState :=
  match ulogGetPacket st.ulog with
  | .error e => .error (.receive e st.mem)
  | .ok (none, u) => .ok ⟨u, st.mem⟩
  | .ok (some msg, u) =>
      if Readable L msg then
        resume u (mainBody localtime host alloc (readMsg L u.buf msg) st.mem)
      else .error (.outside st.mem)

/-- The first `n` turns of the program. -/
def mainTurns (n : Nat) (inbox : List Recv) : Except MainEnd MainState :=
  match mainStart inbox with
  | .error h => .error (.halt h)
  | .ok st => run (fun _ => mainTurn L localtime host alloc) (List.replicate n ()) st

/-! ## Side by side -/

/-- What holds between two turns: following the links from `list_top` leads through all allocated
nodes, each once and with its fields written, to `NULL`; these nodes hold the table of the other
state, and the same was done and printed. -/
def SameTable (m : Mem) (s : Sys) : Prop :=
  ∃ l, Sound m l ∧ l.map Prod.snd = s.listTop ∧ m.cmdStr = s.cmdStr ∧ m.trace = s.trace

/-- The receivers are the same, and the tables are related by `R`. -/
def SameReceiver (R : Mem → Sys → Prop) (st : MainState) (st' : TapProject.MainState) : Prop :=
  st.ulog = st'.ulog ∧ R st.mem st'.sys

/-- Both loops ended alike. -/
def SameEnd (R : Mem → Sys → Prop) : MainEnd → TapProject.MainEnd → Prop
  | .receive why m, .receive why' s => why = why' ∧ R m s
  | .outside m, .outside s => R m s
  | .halt h, .halt h' => SameExit h h'
  | _, _ => False

variable {L localtime host alloc}

theorem InStep.sameTable {m : Mem} {s : Sys} (h : InStep m s) : SameTable m s := by
  obtain ⟨l, h⟩ := h
  exact ⟨l, h.shape.sound, h.table, h.cmdStr, h.trace⟩

theorem resume_agree {r : Except Halt Mem} {r' : Except TapProject.Halt Sys}
    (h : Agree InStep SameExit r r') (u : Ulog) :
    Agree (SameReceiver InStep) (SameEnd InStep) (resume u r) (TapProject.resume u r') := by
  rcases r with e | m <;> rcases r' with e' | s
  case ok.ok => exact ⟨rfl, h⟩
  all_goals exact h

/-- A turn of both loops, whatever `ulog_get_packet` returned. -/
theorem mainTurn_agree (ha : Succeeds alloc) {st : MainState} {st' : TapProject.MainState}
    (h : SameReceiver InStep st st') :
    Agree (SameReceiver InStep) (SameEnd InStep) (mainTurn L localtime host alloc st)
      (TapProject.mainTurn L localtime host st') := by
  obtain ⟨hulog, l, hl⟩ := h
  unfold mainTurn TapProject.mainTurn
  rw [hulog]
  rcases ulogGetPacket st'.ulog with e | ⟨msg | msg, u⟩
  · exact ⟨rfl, l, hl⟩
  · exact ⟨rfl, l, hl⟩
  · dsimp only
    apply Agree.ite
    case hthen => exact resume_agree (hl.mainBody host ha localtime _) u
    case helse => exact ⟨l, hl⟩

/-- Any number of turns of both. -/
theorem mainTurns_agree (ha : Succeeds alloc) (inbox : List Recv) (n : Nat) :
    Agree (SameReceiver InStep) (SameEnd InStep) (mainTurns L localtime host alloc n inbox)
      (TapProject.mainTurns L localtime host n (TapProject.mainStart inbox)) := by
  obtain ⟨m₀, hinit, h₀, -, -⟩ := Refines.boot.macListInit
  have hstart : mainStart inbox = .ok ⟨Ulog.boot inbox, m₀⟩ := by
    simp only [mainStart, hinit]
    rfl
  simp only [mainTurns, hstart, TapProject.mainTurns]
  exact run_agree (fun _ _ _ h => mainTurn_agree ha h) _ ⟨rfl, [], h₀⟩

theorem SameEnd.mono {R R' : Mem → Sys → Prop} (hR : ∀ m s, R m s → R' m s) {e : MainEnd}
    {e' : TapProject.MainEnd} (h : SameEnd R e e') : SameEnd R' e e' := by
  rcases e with ⟨why, m⟩ | m | e <;> rcases e' with ⟨why', s⟩ | s | e'
  case receive.receive => exact ⟨h.1, hR m s h.2⟩
  case outside.outside => exact hR m s h
  all_goals exact h

/-- **The program in memory is the program on the list.** Whatever arrives and whatever the system
answers, as long as `malloc` hands out memory: after any number of turns both run, with the same
table and having done and printed the same, or both have ended, for the same reason. So as long as
the program reads its messages inside the buffer and the names of its devices fit, it follows no
pointer of the table that does not lead to a node, reads no field that was not written, and every
loop over the table ends. -/
theorem main_refines (L : MsgLayout) (localtime : Int → Bool) (host : Host) (alloc : Alloc)
    (ha : Succeeds alloc) (inbox : List Recv) (n : Nat) :
    Agree (SameReceiver SameTable) (SameEnd SameTable) (mainTurns L localtime host alloc n inbox)
      (TapProject.mainTurns L localtime host n (TapProject.mainStart inbox)) :=
  (mainTurns_agree ha inbox n).mono (fun _ _ h => ⟨h.1, h.2.sameTable⟩)
    fun _ _ => SameEnd.mono fun _ _ => InStep.sameTable

/-- Two guests on a system that opens one device: both programs exit at the second node. -/
theorem main_refines_refused :
    ∃ h h', mainTurns layout64 localtime64 oneDevice firstFree 2 twoGuests = .error (.halt h)
      ∧ TapProject.mainTurns layout64 localtime64 oneDevice 2 (TapProject.mainStart twoGuests)
        = .error (.halt h')
      ∧ h.why = .program (.exit 1) ∧ h.mem.heap.keys.card = 2 ∧ h.mem.trace = h'.sys.trace := by
  obtain ⟨h', hrun', hwhy, htable, -⟩ := halted_twoGuests
  -- Lean would run the turns if it saw how many there are
  generalize hn : 2 = n at hrun' ⊢
  have hagree :=
    main_refines layout64 localtime64 oneDevice firstFree firstFree_succeeds twoGuests n
  rw [hrun'] at hagree
  obtain ⟨e, hrun, hend⟩ := hagree.of_error
  rcases e with ⟨why, m⟩ | m | h
  case halt =>
    refine ⟨h, h', hrun, hrun', ?_, ?_, hend.trace⟩
    · rw [hend.why, hwhy]
    · rw [hend.card, htable]
      exact hn
  all_goals exact hend.elim

end TapProject.Pointers
