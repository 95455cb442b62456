import TapProject.Dispatch.HubLaws

set_option autoImplicit false

/-! # What a guest gets to see

The devices of the dispatcher, each by itself. What is written to the device of an address over a
run is the view that the hub's port has of the frames (`device_view`): from the first frame that is
forwarded for the address on, the flooded ones and its own. So a guest cannot tell runs apart that
differ in the frames of others only, whatever descriptors the system hands out (`guests_unseen`).
The bytes that are sent of a frame may go beyond what was captured, and what lies there is not held
apart. -/

namespace TapProject

open EbtUlogPacketMsg Hub Insertion Runs

/-- What was written to a descriptor. -/
def writtenTo (fd : Int) (es : List Event) : List (List UInt8) :=
  ((writes es).filter fun w => w.1 = fd).map Prod.snd

/-- What was written to the device of an address, if there is one. -/
def deviceLog (a : EtherAddr) (s : Sys) : Option (List (List UInt8)) :=
  (macListCheck (etherNtoa a) s.listTop).map fun p => writtenTo p.tapFdNum s.trace

variable {known : List EtherAddr} {sent : List (Nat × List UInt8)} {s : Sys}

/-- What was written to the descriptor at a place of the table is what the hub sent to this port. -/
theorem HubState.writtenTo (h : HubState known sent s) {k : Nat} (hk : k < s.listTop.length) :
    writtenTo (fdAt s.listTop k) s.trace = sentTo k sent := by
  have hfilter : (sent.map fun d => (fdAt s.listTop d.1, d.2)).filter
        (fun w => w.1 = fdAt s.listTop k)
      = (sent.filter fun d => d.1 = k).map fun d => (fdAt s.listTop d.1, d.2) := by
    rw [List.filter_map]
    congr 1
    apply List.filter_congr
    intro d hd
    exact decide_eq_decide.mpr (fdAt_inj h.inv.fds_nodup (h.sent_lt d hd) hk)
  rw [TapProject.writtenTo, h.writes_eq, hfilter, List.map_map, sentTo]
  rfl

theorem HubState.deviceLog_of_mem (h : HubState known sent s) {a : EtherAddr} (ha : a ∈ known) :
    deviceLog a s = some (sentTo (port known a) sent) := by
  have hmem : etherNtoa a ∈ addrs s.listTop := h.addrs_eq ▸ List.mem_map_of_mem ha
  obtain ⟨p, hp⟩ := macListCheck_of_mem hmem
  -- the node that is found is the one at the address's place
  have hfd : [p.tapFdNum] = [fdAt s.listTop (port known a)] := by
    rw [← portsOf_of_check h.inv.addrs_nodup hp, portsOf_eq_fdAt h.inv.addrs_nodup h.addrs_eq ha]
  rw [List.singleton_inj] at hfd
  rw [deviceLog, hp, Option.map_some, hfd, h.writtenTo (h.length_eq ▸ port_lt ha)]

theorem HubState.deviceLog_of_not_mem (h : HubState known sent s) {a : EtherAddr}
    (ha : a ∉ known) : deviceLog a s = none := by
  have hmem : etherNtoa a ∉ addrs s.listTop := by
    rw [h.addrs_eq, List.mem_map_of_injective etherNtoa_injective]
    exact ha
  rw [deviceLog, macListCheck_eq_none.mpr hmem, Option.map_none]

/-- The devices of a hub that started with an empty table. -/
theorem HubState.deviceLog_eq {frames : List (Action EtherAddr × List UInt8)}
    (h : HubState (table [] frames) (deliveries [] frames) s) (a : EtherAddr) :
    deviceLog a s = if a ∈ table [] frames then some (view a false frames) else none := by
  split
  next ha => rw [h.deviceLog_of_mem ha, sentTo_port ha, decide_eq_false List.not_mem_nil]
  next ha => exact h.deviceLog_of_not_mem ha

/-- **What a guest gets.** In any run an address has a device exactly if it was learned, and what
was written to the device, in order, is the view that the address has of the frames: from the first
one that is forwarded for it on, the flooded frames and those forwarded for it. -/
theorem device_view (host : Host) (hh : host.Succeeds) (ms : List EbtUlogPacketMsg)
    (a : EtherAddr) :
    ∃ s, runDispatch host ms = .ok s
      ∧ deviceLog a s = if a ∈ ms.flatMap learnedFrom then some (view a false (ms.map frame))
        else none := by
  obtain ⟨s, hok, -, h⟩ := HubState.boot.run hh ms
  refine ⟨s, hok, (h.deviceLog_eq a).trans ?_⟩
  congr 1
  rw [table_frames, mem_insertAll]
  exact propext (or_iff_right List.not_mem_nil)

/-- The guest does not get the frame that was flooded before it was known. -/
theorem device_view_guest :
    ∃ s, runDispatch freshHost [.ofBytes [] [] broadcastFrame,
          .ofBytes interfaceDev [] guestFrame, .ofBytes [] [] broadcastFrame] = .ok s
      ∧ (deviceLog ⟨0x00, 0xa0, 0xde, 0xaa, 0x5b, 0x89⟩ s).map List.length = some 2 := by
  obtain ⟨s, hok, hlog⟩ := device_view freshHost freshHost_succeeds [.ofBytes [] [] broadcastFrame,
    .ofBytes interfaceDev [] guestFrame, .ofBytes [] [] broadcastFrame]
    ⟨0x00, 0xa0, 0xde, 0xaa, 0x5b, 0x89⟩
  exact ⟨s, hok, by rw [hlog]; decide +kernel⟩

/-- **Frames for other addresses do not change what a guest gets.** Take two runs, on any two
systems whose calls succeed, with the same frames up to those that are forwarded for other addresses
only; two frames are the same if the same is done with them and the bytes that are sent of them
agree. Then the address has a device after both or after none, and the same bytes were written to it
in the same order. -/
theorem guests_unseen (host host' : Host) (hh : host.Succeeds) (hh' : host'.Succeeds)
    (ms ms' : List EbtUlogPacketMsg) (a : EtherAddr)
    (h : (ms.map frame).filter (fun f => f.1.concerns a)
      = (ms'.map frame).filter fun f => f.1.concerns a) :
    ∃ s s', runDispatch host ms = .ok s ∧ runDispatch host' ms' = .ok s'
      ∧ deviceLog a s = deviceLog a s' := by
  obtain ⟨s, hok, -, hs⟩ := HubState.boot.run hh ms
  obtain ⟨s', hok', -, hs'⟩ := HubState.boot.run hh' ms'
  refine ⟨s, s', hok, hok', ?_⟩
  have hlearned : a ∈ table [] (ms.map frame) ↔ a ∈ table [] (ms'.map frame) := by
    rw [← mem_table_filter, h, mem_table_filter]
  have hview : view a false (ms.map frame) = view a false (ms'.map frame) := by
    rw [← view_filter, h, view_filter]
  calc deviceLog a s
      = if a ∈ table [] (ms.map frame) then some (view a false (ms.map frame)) else none :=
        hs.deviceLog_eq a
    _ = if a ∈ table [] (ms'.map frame) then some (view a false (ms'.map frame)) else none := by
        rw [hview, if_congr hlearned rfl rfl]
    _ = deviceLog a s' := (hs'.deviceLog_eq a).symm

/-- The frame of the one guest does not matter to the other. -/
theorem guests_unseen_two :
    ∃ s s', runDispatch freshHost
          [.ofBytes [] interfaceDev guestFrame, .ofBytes interfaceDev [] guestFrame] = .ok s
      ∧ runDispatch freshHost [.ofBytes interfaceDev [] guestFrame] = .ok s'
      ∧ deviceLog ⟨0x00, 0xa0, 0xde, 0xaa, 0x5b, 0x89⟩ s
        = deviceLog ⟨0x00, 0xa0, 0xde, 0xaa, 0x5b, 0x89⟩ s'
      ∧ (deviceLog ⟨0x00, 0xa0, 0xde, 0xaa, 0x5b, 0x89⟩ s').map List.length = some 1 := by
  obtain ⟨s, s', hok, hok', hlog⟩ := guests_unseen freshHost freshHost freshHost_succeeds
    freshHost_succeeds [.ofBytes [] interfaceDev guestFrame, .ofBytes interfaceDev [] guestFrame]
    [.ofBytes interfaceDev [] guestFrame] ⟨0x00, 0xa0, 0xde, 0xaa, 0x5b, 0x89⟩
    (by rw [List.map_cons, List.filter_cons_of_neg (by decide +kernel)])
  obtain rfl : lastSys (runDispatch freshHost [.ofBytes interfaceDev [] guestFrame]) = s' := by
    rw [hok']
    rfl
  exact ⟨s, _, hok, hok', hlog, by decide +kernel⟩

end TapProject
