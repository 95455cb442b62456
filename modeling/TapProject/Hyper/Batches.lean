import TapProject.Basic.System
import TapProject.Lib.Runs
import TapProject.Lib.Slices

set_option autoImplicit false

/-! # The hypercall loop of `write_tap_v5_hyper.c`

`main` asks the hypervisor for a batch of packets, which lie one after the other in `data` with
their lengths in `sizes`, and writes each of them to the TAP device. What `xc_get_packets` leaves
behind is the input: the value `n` it returns and the contents of both arrays (`Batch`). The
cursor `msg` is an offset into `data`.

The first `i` rounds of the loop over a batch move the cursor to the sum of the first `i` sizes
(`rounds_msg`), which makes the writes of a batch its slices (`batch_ok`). -/

namespace TapProject.Hyper

open Runs Slices

def MAX_PKT : Nat := 200
def MAX_SIZE : Nat := 12000

/-! ## The loop -/

/-- What the loop does to the outside, and what it reads of `data` itself: `load off` is a read of
the byte at `data + off`, `write fd off bytes` the call `write(fd, data + off, n)` that hands the
`n` bytes `bytes` to the kernel. -/
inductive Output
  | write (fd : Int) (off : Nat) (bytes : List UInt8)
  | load (off : Nat)
  | print (text : CStr)
  deriving DecidableEq, Repr

/-- What a call of `xc_get_packets` returns, and what it leaves in `sizes` and `data`. -/
structure Batch where
  n : Int
  sizes : Nat → UInt32
  data : Nat → UInt8

def Batch.size (b : Batch) (i : Nat) : Nat := (b.sizes i).toNat

structure State where
  msg : Nat
  trace : List Output
  deriving DecidableEq, Repr

def State.emit (s : State) (os : List Output) : State := { s with trace := s.trace ++ os }

/-- A run that ended early, with the state it ended in. -/
structure Halt where
  why : Stop
  state : State
  deriving DecidableEq, Repr

def newline : Char := Char.ofNat 10

/-- `%02x ` of a byte. -/
def hex02 (b : UInt8) : CStr :=
  (if b.toNat < 16 then '0' :: hex b.toNat else hex b.toNat) ++ [' ']

/-- `for( j=0;j <= 14;j++){ printf("%02x ",msg[j]); }` -/
def dump (data : Nat → UInt8) (msg : Nat) : List Output :=
  (List.range 15).flatMap fun j => [.load (msg + j), .print (hex02 (data (msg + j)))]

section

-- what `write` returns, and the descriptor of the TAP device
variable (wrote : List Output → Int) (tapFdNum : Int)

/-- The body of the loop over the packets of a batch. -/
def packet (b : Batch) (i : Nat) (s : State) : State :=
  let s := s.emit [.write tapFdNum s.msg (slice b.data s.msg (b.size i))]
  -- `%lu` prints the returned value as an unsigned number
  let s := s.emit [.print ("write:".toList ++ decimal (wrote s.trace % 2 ^ 64).toNat ++ [newline])]
  let s := s.emit (dump b.data s.msg)
  let s := s.emit [.print [newline]]
  { s with msg := s.msg + b.size i }

/-- The first `i` rounds of `for(i = 0; i < n; i++)`. -/
def rounds (b : Batch) : Nat → State → State
  | 0, s => s
  | i + 1, s => packet wrote tapFdNum b i (rounds b i s)

/-- One round of `while (1)`: what is done with the batch `b`. -/
def batch (b : Batch) (s : State) : Except Halt State :=
  if b.n < 0 then .error ⟨.exit 1, s⟩
  else .ok (rounds wrote tapFdNum b b.n.toNat { s with msg := 0 })

end

/-! ## Writes -/

/-- The calls of `write`, in order, each with the place in `data` it starts from. -/
def writes : List Output → List (Int × Nat × List UInt8)
  | [] => []
  | .write fd off bytes :: os => (fd, off, bytes) :: writes os
  | _ :: os => writes os

theorem writes_append (os ps : List Output) : writes (os ++ ps) = writes os ++ writes ps := by
  induction os with
  | nil => rfl
  | cons o os ih => cases o <;> simp [writes, ih]

theorem writes_dump (data : Nat → UInt8) (msg : Nat) : writes (dump data msg) = [] := by
  unfold dump
  induction List.range 15 with
  | nil => rfl
  | cons j js ih => simpa [writes] using ih

/-- The slices of a batch, as they are to be written. -/
def Batch.slices (b : Batch) (tapFdNum : Int) : List (Int × Nat × List UInt8) :=
  (List.range b.n.toNat).map fun i =>
    (tapFdNum, offset b.size i, slice b.data (offset b.size i) (b.size i))

variable {wrote : List Output → Int} {tapFdNum : Int}

theorem packet_msg (b : Batch) (i : Nat) (s : State) :
    (packet wrote tapFdNum b i s).msg = s.msg + b.size i := rfl

theorem writes_packet (b : Batch) (i : Nat) (s : State) :
    writes (packet wrote tapFdNum b i s).trace
      = writes s.trace ++ [(tapFdNum, s.msg, slice b.data s.msg (b.size i))] := by
  simp [packet, State.emit, writes_append, writes_dump, writes]

theorem rounds_msg (b : Batch) (i : Nat) (s : State) :
    (rounds wrote tapFdNum b i s).msg = s.msg + offset b.size i := by
  induction i with
  | zero => rfl
  | succ i ih => rw [rounds, packet_msg, ih, offset, Nat.add_assoc]

theorem writes_rounds (b : Batch) (i : Nat) (trace : List Output) :
    writes (rounds wrote tapFdNum b i ⟨0, trace⟩).trace
      = writes trace ++ (List.range i).map fun i =>
          (tapFdNum, offset b.size i, slice b.data (offset b.size i) (b.size i)) := by
  induction i with
  | zero => simp [rounds]
  | succ i ih =>
      -- the cursor stands where the next slice starts
      have hmsg : (rounds wrote tapFdNum b i ⟨0, trace⟩).msg = offset b.size i := by
        rw [rounds_msg, Nat.zero_add]
      rw [rounds, writes_packet, hmsg, ih, List.range_succ, List.map_append, List.append_assoc]
      rfl

theorem batch_ok (wrote : List Output → Int) (tapFdNum : Int) {b : Batch} (h : 0 ≤ b.n)
    (s : State) :
    ∃ t, batch wrote tapFdNum b s = .ok t
      ∧ writes t.trace = writes s.trace ++ b.slices tapFdNum := by
  refine ⟨_, by rw [batch, if_neg (by omega)], ?_⟩
  rw [writes_rounds]
  rfl

/-! ## Runs over batches -/

/-- What the hypercall library promises of a batch that is no failure. -/
structure Batch.Fits (b : Batch) : Prop where
  nonneg : 0 ≤ b.n
  packets : b.n ≤ MAX_PKT
  size : offset b.size b.n.toNat ≤ MAX_SIZE

/-- The run of the loop over the batches `bs`. -/
def runBatches (wrote : List Output → Int) (tapFdNum : Int) (bs : List Batch) (s : State) :
    Except Halt State :=
  run (batch wrote tapFdNum) bs s

theorem runBatches_ok (wrote : List Output → Int) (tapFdNum : Int) {bs : List Batch}
    (h : ∀ b ∈ bs, 0 ≤ b.n) (s : State) :
    ∃ t, runBatches wrote tapFdNum bs s = .ok t
      ∧ writes t.trace = writes s.trace ++ bs.flatMap (Batch.slices · tapFdNum) := by
  unfold runBatches
  induction bs generalizing s with
  | nil => exact ⟨s, rfl, by simp⟩
  | cons b bs ih =>
      obtain ⟨hb, hbs⟩ := List.forall_mem_cons.mp h
      obtain ⟨t, ht, hwrites⟩ := batch_ok wrote tapFdNum hb s
      obtain ⟨u, hu, hwrites'⟩ := ih hbs t
      refine ⟨u, by rw [run_cons_ok ht, hu], ?_⟩
      rw [hwrites', hwrites, List.append_assoc, List.flatMap_cons]

/-- **Batch splitting loses and duplicates nothing.** Whatever state the loop is in, the writes of
a run over batches that fit are, batch by batch, the slices of `data`; a batch's slices join up to
the first `sizes[0] + ... + sizes[n-1]` bytes, and each lies inside the buffer. A call that fails
stops the program without another write. -/
theorem batches_split (wrote : List Output → Int) (tapFdNum : Int) (bs : List Batch)
    (h : ∀ b ∈ bs, b.Fits) (s : State) :
    ∃ t, runBatches wrote tapFdNum bs s = .ok t
      ∧ writes t.trace = writes s.trace ++ bs.flatMap (fun b => (List.range b.n.toNat).map fun i =>
          (tapFdNum, offset b.size i, slice b.data (offset b.size i) (b.size i)))
      ∧ (∀ b ∈ bs, ((List.range b.n.toNat).flatMap fun i =>
            slice b.data (offset b.size i) (b.size i)) = slice b.data 0 (offset b.size b.n.toNat)
          ∧ ∀ i, i < b.n.toNat → offset b.size i + b.size i ≤ MAX_SIZE)
      ∧ ∀ b rest, b.n < 0 →
          runBatches wrote tapFdNum (bs ++ b :: rest) s = .error ⟨.exit 1, t⟩ := by
  obtain ⟨t, ht, hwrites⟩ := runBatches_ok wrote tapFdNum (fun b hb => (h b hb).nonneg) s
  refine ⟨t, ht, hwrites, ?_, ?_⟩
  · intro b hb
    refine ⟨flatMap_slice b.data b.size b.n.toNat, ?_⟩
    intro i hi
    calc offset b.size i + b.size i
        ≤ offset b.size b.n.toNat := offset_add_size_le b.size hi
      _ ≤ MAX_SIZE := (h b hb).size
  · -- the run up to the failed call, and then its exit
    intro b rest hb
    unfold runBatches at ht ⊢
    rw [run_append_ok ht, run_cons_error (e := ⟨.exit 1, t⟩)]
    rw [batch, if_pos hb]

/-- A batch with a packet for each length in `lens`, over `data` counting up. -/
def Batch.ofLens (lens : List UInt32) : Batch :=
  ⟨lens.length, fun i => lens.getD i 0, fun i => UInt8.ofNat i⟩

/-- A batch with zero-sized packets, an empty one and one that fills the buffer. -/
def threeBatches : List Batch := [.ofLens [2, 0, 3], .ofLens [], .ofLens [12000]]

theorem batches_split_three :
    ∃ t, runBatches (fun _ => 0) 4 threeBatches ⟨77, []⟩ = .ok t
      ∧ (writes t.trace).map (fun w => (w.2.1, w.2.2.length)) = [(0, 2), (2, 0), (2, 3), (0, 12000)]
      ∧ runBatches (fun _ => 0) 4 (threeBatches ++ [⟨-1, fun _ => 0, fun _ => 0⟩]) ⟨77, []⟩
        = .error ⟨.exit 1, t⟩ := by
  have hfits : ∀ b ∈ threeBatches, b.Fits := by
    simp only [threeBatches, List.forall_mem_cons, List.not_mem_nil, false_implies, implies_true,
      and_true]
    exact ⟨⟨by decide, by decide, by decide⟩, ⟨by decide, by decide, by decide⟩,
      by decide, by decide, by decide⟩
  obtain ⟨t, ht, hwrites, -, hstop⟩ := batches_split (fun _ => 0) 4 threeBatches hfits ⟨77, []⟩
  refine ⟨t, ht, ?_, hstop _ [] (by decide)⟩
  rw [hwrites]
  simp [threeBatches, writes, Batch.ofLens, Batch.size, offset, List.range_succ]

end TapProject.Hyper
