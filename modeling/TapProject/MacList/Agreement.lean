import TapProject.MacList.NameBuffers
import TapProject.MacList.Standalone

set_option autoImplicit false

/-! # The list of `mac_list.c` and the table of `write_tap_v5.c` agree

In `mac_list.c` the search for a duplicate is in `mac_list_check` and `mac_list_add` appends
without looking; in `write_tap_v5.c` `mac_list_add` searches by itself, in two places. On the
addresses both are `Insertion.insertNew`, so `SameAddrs`, which relates a state of the one to a
state of the other, is kept by a step of both (`SameAddrs.step`). Main result: `lists_agree`. -/

namespace TapProject

open Insertion Runs

/-! ## Runs of the older list -/

/-- The state in which `mac_list.c` starts: `list_top` is `NULL`. -/
def Standalone.State.boot : Standalone.State := ⟨[], []⟩

/-- The calls `mac_list_check(item)` of `mac_list.c` for the strings `items`, in order. -/
def Standalone.checkAll (items : List CStr) (s : Standalone.State) : Standalone.State :=
  items.foldl (fun s item => (Standalone.macListCheck item s).2) s

theorem Standalone.checkAll_concat (items : List CStr) (item : CStr) (s : Standalone.State) :
    Standalone.checkAll (items ++ [item]) s
      = (Standalone.macListCheck item (Standalone.checkAll items s)).2 :=
  List.foldl_concat ..

/-- Whatever `mac_list_check` returns, on the addresses it is an append-if-absent. -/
theorem Standalone.addrs_macListCheck (item : CStr) (s : Standalone.State) :
    Standalone.addrs (Standalone.macListCheck item s).2.listTop
      = insertNew (Standalone.addrs s.listTop) item := by
  by_cases hmem : item ∈ Standalone.addrs s.listTop
  · rw [Standalone.macListCheck_of_mem hmem, insertNew_of_mem hmem]
  · rw [insertNew_of_not_mem hmem]
    by_cases hnil : s.listTop = []
    · rw [Standalone.macListCheck_of_nil hnil, hnil]
      rfl
    · rw [Standalone.macListCheck_of_not_mem hnil hmem]
      exact List.map_append

/-! ## The simulation -/

/-- The table of `s` and the list of `t` hold the same addresses in the same order. -/
structure SameAddrs (s : Sys) (t : Standalone.State) : Prop where
  inv : TableInv s
  addrs_eq : addrs s.listTop = Standalone.addrs t.listTop

theorem SameAddrs.boot : SameAddrs Sys.boot Standalone.State.boot := ⟨TableInv.boot, rfl⟩

/-- A call of `mac_list_add` and one of the older `mac_list_check` keep the lists the same. -/
theorem SameAddrs.step {host : Host} (hh : host.Succeeds) {s : Sys} {t : Standalone.State}
    (h : SameAddrs s t) (item : CStr) :
    ∃ s', macListAdd host item s = .ok s' ∧ SameAddrs s' (Standalone.macListCheck item t).2
      ∧ addrs s'.listTop = insertNew (addrs s.listTop) item := by
  obtain ⟨s', hok, hinv, haddrs, -⟩ := h.inv.macListAdd hh item
  refine ⟨s', hok, ⟨hinv, ?_⟩, haddrs⟩
  calc addrs s'.listTop
      = insertNew (addrs s.listTop) item := haddrs
    _ = insertNew (Standalone.addrs t.listTop) item := by rw [h.addrs_eq]
    _ = Standalone.addrs (Standalone.macListCheck item t).2.listTop :=
        (Standalone.addrs_macListCheck item t).symm

/-- The lists have the same number of nodes. -/
theorem SameAddrs.length_eq {s : Sys} {t : Standalone.State} (h : SameAddrs s t) :
    s.listTop.length = t.listTop.length := by
  have hlen := congrArg List.length h.addrs_eq
  rwa [addrs, Standalone.addrs, List.length_map, List.length_map] at hlen

/-- Runs of both end in related states, and the table holds the strings that were added. -/
theorem run_sameAddrs {host : Host} (hh : host.Succeeds) (items : List CStr) :
    ∃ s, run (fun item s => macListAdd host item s) items Sys.boot = .ok s
      ∧ SameAddrs s (Standalone.checkAll items .boot)
      ∧ ∀ a, a ∈ addrs s.listTop ↔ a ∈ items := by
  apply run_ok (I := fun items s => SameAddrs s (Standalone.checkAll items .boot)
    ∧ ∀ a, a ∈ addrs s.listTop ↔ a ∈ items)
  · exact ⟨SameAddrs.boot, by simp [Sys.boot]⟩
  · rintro items item s ⟨hsame, hmem⟩
    obtain ⟨s', hok, hsame', haddrs⟩ := hsame.step hh item
    refine ⟨s', hok, ?_, ?_⟩
    · rw [Standalone.checkAll_concat]
      exact hsame'
    · intro a
      rw [haddrs, mem_insertNew, hmem, List.mem_append, List.mem_singleton]

/-- **The two lists agree.** From the empty list, checking every string with `mac_list_check` of
`mac_list.c` and adding every string with `mac_list_add` of `write_tap_v5.c` end with the same
addresses in the same order, none of them twice, and both counts are the number of distinct
strings. -/
theorem lists_agree (host : Host) (hh : host.Succeeds) (items : List CStr) :
    ∃ s, run (fun item s => macListAdd host item s) items Sys.boot = .ok s
      ∧ addrs s.listTop = Standalone.addrs (Standalone.checkAll items .boot).listTop
      ∧ (addrs s.listTop).Nodup
      ∧ macListCount s.listTop = items.toFinset.card
      ∧ Standalone.macListCount (Standalone.checkAll items .boot).listTop
          = items.toFinset.card := by
  obtain ⟨s, hok, hsame, hmem⟩ := run_sameAddrs hh items
  have hlen : s.listTop.length = items.toFinset.card := hsame.inv.length_eq hmem
  refine ⟨s, hok, hsame.addrs_eq, hsame.inv.addrs_nodup, ?_, ?_⟩
  · rw [macListCount_eq, hlen]
  · rw [Standalone.macListCount_eq, ← hsame.length_eq, hlen]

/-- A sequence in which the second address comes back at once and the first one at the end. -/
theorem lists_agree_guests :
    ∃ s, run (fun item s => macListAdd freshHost item s)
        ["0:16:3e:d:58:c1".toList, "0:16:3e:d:58:0".toList, "0:16:3e:d:58:0".toList,
          "0:16:3e:d:58:c1".toList] Sys.boot = .ok s
      ∧ addrs s.listTop = ["0:16:3e:d:58:c1".toList, "0:16:3e:d:58:0".toList]
      ∧ macListCount s.listTop = 2 := by
  obtain ⟨s, hok, haddrs, -, hcount, -⟩ := lists_agree freshHost freshHost_succeeds
    ["0:16:3e:d:58:c1".toList, "0:16:3e:d:58:0".toList, "0:16:3e:d:58:0".toList,
      "0:16:3e:d:58:c1".toList]
  refine ⟨s, hok, ?_, ?_⟩
  · rw [haddrs]
    decide
  · rw [hcount]
    decide

end TapProject
