import TapProject.Dispatch.TableLaw

set_option autoImplicit false

/-! # Where a frame is delivered

The descriptors a message is written to, in any state a run can reach: a group frame goes once
to every node of the table, in table order, and any other frame once to the port of each
address it is forwarded for (`delivery`). -/

namespace TapProject

open EbtUlogPacketMsg Runs

/-- The descriptors written, in order. -/
def writtenFds (es : List Event) : List Int := (writes es).map Prod.fst

/-- A state the dispatcher reaches from the empty table. -/
def Reachable (host : Host) (s : Sys) : Prop := ∃ ms, runDispatch host ms = .ok s

theorem Reachable.inv {host : Host} (hh : host.Succeeds) {s : Sys} (h : Reachable host s) :
    TableInv s := by
  obtain ⟨ms, hms⟩ := h
  obtain ⟨s', hok, hinv, -, -⟩ := run_distributePacket hh ms TableInv.boot
  have hs : s' = s := by
    rw [← runDispatch, hms, Except.ok.injEq] at hok
    exact hok.symm
  exact hs ▸ hinv

theorem fst_unicastWrites (m : EbtUlogPacketMsg) (l : List MacList) :
    (unicastWrites m (unicastOffs m) l).map Prod.fst
      = (if m.physoutdev = interfaceDev then portsOf (etherNtoa m.hDest) l else [])
        ++ (if m.physindev = interfaceDev then portsOf (etherNtoa m.hSource) l else []) := by
  unfold unicastOffs
  by_cases hout : m.physoutdev = interfaceDev <;> by_cases hin : m.physindev = interfaceDev <;>
    simp [unicastWrites, hout, hin, hDest, hSource, List.map_map, Function.comp_def]

/-- **Delivery.** A message in a reachable state is processed without a fault. For a group frame
the writes go to the nodes of the table, one each, and the table stays. For any other frame they
go to the one port of the destination if the frame leaves through the interface, then to the one
port of the source if it came in through it, as the ports are after the frame was learned. -/
theorem delivery (host : Host) (hh : host.Succeeds) (s : Sys) (hs : Reachable host s)
    (m : EbtUlogPacketMsg) :
    ∃ s' out, distributePacket host m s = .ok s'
      ∧ writtenFds s'.trace = writtenFds s.trace ++ out
      ∧ (groupFrame m → out = s.listTop.map (·.tapFdNum) ∧ s'.listTop = s.listTop)
      ∧ (¬ groupFrame m →
          out = (if m.physoutdev = interfaceDev then portsOf (etherNtoa m.hDest) s'.listTop else [])
            ++ (if m.physindev = interfaceDev then portsOf (etherNtoa m.hSource) s'.listTop else [])
          ∧ (m.physoutdev = interfaceDev → (portsOf (etherNtoa m.hDest) s'.listTop).length = 1)
          ∧ (m.physindev = interfaceDev → (portsOf (etherNtoa m.hSource) s'.listTop).length = 1)
          ∧ (m.physoutdev ≠ interfaceDev → m.physindev ≠ interfaceDev →
              s'.listTop = s.listTop)) := by
  have hinv := hs.inv hh
  by_cases hg : groupFrame m
  · obtain ⟨s', off, hok, htop, hwritten, -⟩ := distributePacket_group host hg s
    refine ⟨s', s.listTop.map (·.tapFdNum), hok, ?_, fun _ => ⟨rfl, htop⟩, fun hn => absurd hg hn⟩
    rw [writtenFds, hwritten, List.map_append, List.map_map]
    rfl
  · obtain ⟨s', hok, hf⟩ := distributePacket_unicast hh hg hinv
    refine ⟨s', _, hok, ?_, fun h => absurd h hg, fun _ => ⟨rfl, ?_, ?_, ?_⟩⟩
    · rw [writtenFds, hf.written, List.map_append, fst_unicastWrites]
      rfl
    · intro hout
      exact hf.onePort hDestOff (by simp [unicastOffs, hout])
    · intro hin
      exact hf.onePort hSourceOff (by simp [unicastOffs, hin])
    · intro hout hin
      have hlen : s'.listTop.length = s.listTop.length := by
        have := congrArg List.length hf.learned
        simpa [addrs, unicastOffs, hout, hin] using this
      exact (hf.table.eq_of_length hlen.symm).symm

theorem delivery_guest :
    ∃ s' out, distributePacket freshHost (.ofBytes interfaceDev [] guestFrame) Sys.boot = .ok s'
      ∧ writtenFds s'.trace = out ∧ out = portsOf "0:a0:de:aa:5b:89".toList s'.listTop
      ∧ out.length = 1 := by
  have hg : ¬ groupFrame (.ofBytes interfaceDev [] guestFrame) := by decide +kernel
  obtain ⟨s', out, hok, hout, -, huni⟩ := delivery freshHost freshHost_succeeds Sys.boot
    ⟨[], rfl⟩ (.ofBytes interfaceDev [] guestFrame)
  obtain ⟨heq, -, hone, -⟩ := huni hg
  have hsrc : etherNtoa (EbtUlogPacketMsg.ofBytes interfaceDev [] guestFrame).hSource
      = "0:a0:de:aa:5b:89".toList := by decide
  have hout' : out = portsOf "0:a0:de:aa:5b:89".toList s'.listTop := by
    rw [heq, hsrc]; rfl
  exact ⟨s', out, hok, hout, hout', by rw [hout', ← hsrc]; exact hone rfl⟩

end TapProject
