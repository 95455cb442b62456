import Mathlib.Data.Finset.Card
import TapProject.Lib.Runs
import TapProject.MacList.Invariant

set_option autoImplicit false

/-! # The buffers of the device names

`mac_list_add` formats the name of the next device into `char tap_name[5]` and copies it from
there to the node's `tap_name[10]`; `tun_alloc` copies the interface name back into the former.
Five characters hold the names up to `tap9`: `names_fit_iff` says for every run of `mac_list_add`
from the empty table that the next name fits exactly as long as the run added at most nine
different addresses, `run_names_fit_iff` that all names of a run fit as long as it added ten. -/

namespace TapProject

open Insertion Runs

/-- `char tap_name[5]` of `mac_list_add`. -/
def LOCAL_NAME : Nat := 5

/-- `char tap_name[10]` of `struct mac_list`. -/
def NODE_NAME : Nat := 10

/-- The name of the device `tap<n>` fits both arrays. -/
def NameFits (n : Nat) : Prop := Fits LOCAL_NAME (tapName n) ∧ Fits NODE_NAME (tapName n)

instance (n : Nat) : Decidable (NameFits n) := inferInstanceAs (Decidable (_ ∧ _))

/-- An array with room for three letters, `k` digits and the NUL holds the first `10 ^ k` names. -/
theorem fits_tapName_iff {k : Nat} (hk : 0 < k) (n : Nat) :
    Fits (k + 4) (tapName n) ↔ n < 10 ^ k := by
  have htext : tapText.length = 3 := by decide
  rw [Fits, tapName, List.length_append, htext, ← Nat.length_toDigits_le_iff (by decide) hk]
  show 3 + (Nat.toDigits 10 n).length + 1 ≤ k + 4 ↔ _
  omega

theorem nameFits_iff (n : Nat) : NameFits n ↔ n ≤ 9 := by
  have hlocal : Fits LOCAL_NAME (tapName n) ↔ n < 10 ^ 1 := fits_tapName_iff (by decide) n
  have hnode : Fits NODE_NAME (tapName n) ↔ n < 10 ^ 6 := fits_tapName_iff (by decide) n
  rw [NameFits, hlocal, hnode]
  omega

/-- The names of the first `made` devices fit the arrays. -/
def NamesFit (made : Nat) : Prop := ∀ n < made, NameFits n

instance (made : Nat) : Decidable (NamesFit made) := inferInstanceAs (Decidable (∀ n < made, _))

theorem namesFit_iff (made : Nat) : NamesFit made ↔ made ≤ 10 := by
  simp only [NamesFit, nameFits_iff]
  constructor
  · intro h
    by_contra hmade
    have := h 10 (by omega)
    omega
  · intro h n hn
    omega

/-- The table after a run of `mac_list_add` holds the addresses that were added. -/
theorem run_macListAdd {host : Host} (hh : host.Succeeds) (items : List CStr) :
    ∃ s, run (fun item s => macListAdd host item s) items Sys.boot = .ok s ∧ TableInv s
      ∧ ∀ a, a ∈ addrs s.listTop ↔ a ∈ items := by
  apply run_ok (I := fun items s => TableInv s ∧ ∀ a, a ∈ addrs s.listTop ↔ a ∈ items)
  · exact ⟨TableInv.boot, by simp [Sys.boot]⟩
  · rintro items item s ⟨hinv, hmem⟩
    obtain ⟨s', hok, hinv', haddrs, -⟩ := hinv.macListAdd hh item
    refine ⟨s', hok, hinv', ?_⟩
    intro a
    rw [haddrs, mem_insertNew, hmem, List.mem_append, List.mem_singleton]

/-- It has one node for each of them. -/
theorem TableInv.length_eq {s : Sys} (h : TableInv s) {items : List CStr}
    (hmem : ∀ a, a ∈ addrs s.listTop ↔ a ∈ items) : s.listTop.length = items.toFinset.card := by
  have hset : (addrs s.listTop).toFinset = items.toFinset := by
    ext a
    rw [List.mem_toFinset, List.mem_toFinset, hmem]
  calc s.listTop.length
      = (addrs s.listTop).length := by rw [addrs, List.length_map]
    _ = (addrs s.listTop).toFinset.card := (List.toFinset_card_of_nodup h.addrs_nodup).symm
    _ = items.toFinset.card := by rw [hset]

/-- **The name of the next device fits its buffers exactly when at most nine different addresses
were added before**, after every run of `mac_list_add` from the empty table and for every address
that is new to it. -/
theorem names_fit_iff (host : Host) (hh : host.Succeeds) (items : List CStr) :
    ∃ s, run (fun item s => macListAdd host item s) items Sys.boot = .ok s
      ∧ ∀ item, item ∉ items →
          (∃ s' fd, macListAdd host item s = .ok s'
            ∧ s'.listTop = s.listTop ++ [⟨item, tapName (macListCount s.listTop), fd⟩])
          ∧ (NameFits (macListCount s.listTop) ↔ items.toFinset.card ≤ 9) := by
  obtain ⟨s, hok, hinv, hmem⟩ := run_macListAdd hh items
  refine ⟨s, hok, ?_⟩
  intro item hnew
  have hitem : item ∉ addrs s.listTop := fun h => hnew ((hmem item).mp h)
  constructor
  · refine ⟨_, newFd host s, macListAdd_of_not_mem hh hitem, ?_⟩
    rw [macListCount_eq]
    rfl
  · rw [nameFits_iff, macListCount_eq, hinv.length_eq hmem]

/-- The names that a whole run has formatted fit exactly when it added at most ten addresses. -/
theorem run_names_fit_iff {host : Host} (hh : host.Succeeds) (items : List CStr) :
    ∃ s, run (fun item s => macListAdd host item s) items Sys.boot = .ok s
      ∧ ((∀ name ∈ names s.listTop, Fits LOCAL_NAME name ∧ Fits NODE_NAME name)
        ↔ items.toFinset.card ≤ 10) := by
  obtain ⟨s, hok, hinv, hmem⟩ := run_macListAdd hh items
  refine ⟨s, hok, ?_⟩
  calc (∀ name ∈ names s.listTop, Fits LOCAL_NAME name ∧ Fits NODE_NAME name)
      ↔ NamesFit s.listTop.length := by
        rw [hinv.names_eq, List.forall_mem_map]
        simp only [List.mem_range, NamesFit, NameFits]
    _ ↔ items.toFinset.card ≤ 10 := by rw [namesFit_iff, hinv.length_eq hmem]

/-- The addresses `0:16:3e:d:58:0` to `0:16:3e:d:58:9`. -/
def tenGuests : List CStr :=
  (List.range 10).map fun n => "0:16:3e:d:58:".toList ++ decimal n

theorem names_fit_iff_nine :
    ∃ s, run (fun item s => macListAdd freshHost item s) (tenGuests.take 9) Sys.boot = .ok s
      ∧ NameFits (macListCount s.listTop) := by
  obtain ⟨s, hok, hfit⟩ := names_fit_iff freshHost freshHost_succeeds (tenGuests.take 9)
  exact ⟨s, hok, (hfit "0:16:3e:d:58:9".toList (by decide +kernel)).2.mpr (by decide +kernel)⟩

/-- The eleventh address is given the name `tap10`, which is formatted into five characters. -/
theorem name_not_fits_ten :
    ∃ s s' fd, run (fun item s => macListAdd freshHost item s) tenGuests Sys.boot = .ok s
      ∧ "0:16:3e:d:58:c1".toList ∉ tenGuests
      ∧ macListAdd freshHost "0:16:3e:d:58:c1".toList s = .ok s'
      ∧ s'.listTop = s.listTop ++ [⟨"0:16:3e:d:58:c1".toList, "tap10".toList, fd⟩]
      ∧ macListCount s.listTop = 10 ∧ ¬ Fits LOCAL_NAME (tapName (macListCount s.listTop)) := by
  obtain ⟨s, hok, hinv, hmem⟩ := run_macListAdd freshHost_succeeds tenGuests
  have hnew : "0:16:3e:d:58:c1".toList ∉ tenGuests := by decide +kernel
  have hlen : s.listTop.length = 10 := by
    rw [hinv.length_eq hmem]
    decide +kernel
  have hitem : "0:16:3e:d:58:c1".toList ∉ addrs s.listTop := fun h => hnew ((hmem _).mp h)
  refine ⟨s, _, newFd freshHost s, hok, hnew, macListAdd_of_not_mem freshHost_succeeds hitem, ?_,
    by rw [macListCount_eq, hlen], by rw [macListCount_eq, hlen]; decide⟩
  have hname : tapName s.listTop.length = "tap10".toList := by rw [hlen]; decide
  show s.listTop ++ [_] = _
  rw [hname]

end TapProject
