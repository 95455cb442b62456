import TapProject.Hyper.Batches

set_option autoImplicit false

/-! # What the packet dump reads

After the write of a packet the loop prints its first fifteen bytes, without a look at its length.
The cursor stands at the packet's slice, so the bytes read are the fifteen from the start of the
slice on (`load_mem_packet`), and they are the packet's own exactly when it has as many
(`dumpInside_iff`). -/

namespace TapProject.Hyper

open Slices

theorem load_mem_dump (data : Nat → UInt8) (msg off : Nat) :
    .load off ∈ dump data msg ↔ msg ≤ off ∧ off < msg + 15 := by
  simp only [dump, List.mem_flatMap, List.mem_range, List.mem_cons, Output.load.injEq,
    List.not_mem_nil, or_false, reduceCtorEq]
  constructor
  · rintro ⟨j, hj, rfl⟩
    omega
  · rintro ⟨hlo, hhi⟩
    exact ⟨off - msg, by omega, by omega⟩

/-- The round for a packet reads the fifteen bytes from the cursor on. -/
theorem load_mem_packet (wrote : List Output → Int) (tapFdNum : Int) (b : Batch) (i : Nat)
    (s : State) :
    ∃ os, (packet wrote tapFdNum b i s).trace = s.trace ++ os
      ∧ ∀ off, .load off ∈ os ↔ s.msg ≤ off ∧ off < s.msg + 15 := by
  obtain ⟨text, htext⟩ : ∃ text, (packet wrote tapFdNum b i s).trace = s.trace
      ++ ([.write tapFdNum s.msg (slice b.data s.msg (b.size i))]
        ++ ([.print text] ++ (dump b.data s.msg ++ [.print [newline]]))) :=
    ⟨_, by simp only [packet, State.emit, List.append_assoc]; rfl⟩
  refine ⟨_, htext, ?_⟩
  intro off
  rw [← load_mem_dump b.data]
  simp

/-- Every byte that the inner loop reads for packet `i` lies in the slice that was written for
it, and so in the buffer. -/
def DumpInside (b : Batch) : Prop :=
  ∀ (wrote : List Output → Int) (tapFdNum : Int) (s : State) (i : Nat), i < b.n.toNat →
    ∃ os, (rounds wrote tapFdNum b (i + 1) { s with msg := 0 }).trace
        = (rounds wrote tapFdNum b i { s with msg := 0 }).trace ++ os
      ∧ ∀ off, .load off ∈ os →
          offset b.size i ≤ off ∧ off < offset b.size i + b.size i ∧ off < MAX_SIZE

/-- **The dump reads the packet's own bytes only exactly on the batches in which every packet has
fifteen bytes.** -/
theorem dumpInside_iff {b : Batch} (hb : b.Fits) :
    DumpInside b ↔ ∀ i, i < b.n.toNat → 15 ≤ b.size i := by
  constructor
  · -- the last of the fifteen bytes is read
    intro h i hi
    obtain ⟨os, hos, hin⟩ := h (fun _ => 0) 0 ⟨0, []⟩ i hi
    obtain ⟨os', hos', hload⟩ := load_mem_packet (fun _ => 0) 0 b i
      (rounds (fun _ => 0) 0 b i ⟨0, []⟩)
    have heq : os' = os := List.append_cancel_left (hos'.symm.trans hos)
    rw [rounds_msg, Nat.zero_add, heq] at hload
    have hlast := hin (offset b.size i + 14) ((hload _).mpr (by omega))
    omega
  · intro h wrote tapFdNum s i hi
    obtain ⟨os, hos, hload⟩ := load_mem_packet wrote tapFdNum b i
      (rounds wrote tapFdNum b i { s with msg := 0 })
    refine ⟨os, hos, ?_⟩
    intro off hoff
    rw [hload, rounds_msg, Nat.zero_add] at hoff
    have hlen := h i hi
    have hend : offset b.size i + b.size i ≤ MAX_SIZE :=
      Nat.le_trans (offset_add_size_le b.size hi) hb.size
    omega

theorem dumpInside_two : DumpInside (.ofLens [15, 60]) :=
  (dumpInside_iff ⟨by decide, by decide, by decide⟩).mpr (by decide)

/-- A batch that fills the buffer and ends in a packet of 14 bytes: the dump of that packet reads
the byte behind the buffer. -/
theorem not_dumpInside_short :
    (Batch.ofLens [11986, 14]).Fits
      ∧ .load MAX_SIZE ∈ (rounds (fun _ => 0) 4 (.ofLens [11986, 14]) 2 ⟨0, []⟩).trace
      ∧ ¬ DumpInside (.ofLens [11986, 14]) := by
  have hfits : (Batch.ofLens [11986, 14]).Fits := ⟨by decide, by decide, by decide⟩
  obtain ⟨os, hos, hload⟩ := load_mem_packet (fun _ => 0) 4 (.ofLens [11986, 14]) 1
    (rounds (fun _ => 0) 4 (.ofLens [11986, 14]) 1 ⟨0, []⟩)
  have hmem : .load MAX_SIZE ∈ os := (hload MAX_SIZE).mpr (by rw [rounds_msg]; decide)
  refine ⟨hfits, ?_, ?_⟩
  · show _ ∈ (packet (fun _ => 0) 4 _ 1 _).trace
    rw [hos]
    exact List.mem_append_right _ hmem
  · intro h
    obtain ⟨os', hos', hin⟩ := h (fun _ => 0) 4 ⟨0, []⟩ 1 (by decide)
    have heq : os = os' := List.append_cancel_left (hos.symm.trans hos')
    have hlt := (hin MAX_SIZE (heq ▸ hmem)).2.2
    exact absurd hlt (by decide)

end TapProject.Hyper
