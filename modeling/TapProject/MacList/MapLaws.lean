import TapProject.MacList.Invariant

set_option autoImplicit false

/-! # The MAC table as a map

On any table, whatever it holds, `mac_list_add` and `mac_list_check` are insertion and lookup:
`mac_list_check` is the search for the first node with the address (`macListCheck_eq_find?`), and
adding an address makes it found, changes no other lookup and grows the table by at most one
(`map_laws`). So the lookup of the dispatcher after each `mac_list_add` finds a node. -/

namespace TapProject

theorem macListCheck_eq_find? (item : CStr) (l : List MacList) :
    macListCheck item l = l.find? fun p => p.macAdd = item := by
  induction l with
  | nil => rfl
  | cons p next ih =>
      by_cases h : p.macAdd = item
      · simp [macListCheck, h]
      · simp [macListCheck, h, ih]

theorem macListCheck_macAdd {item : CStr} {l : List MacList} {p : MacList}
    (h : macListCheck item l = some p) : p.macAdd = item := by
  rw [macListCheck_eq_find?] at h
  simpa using List.find?_some h

/-- A node at the end is found when no node before it has the address. -/
theorem macListCheck_concat (item : CStr) (l : List MacList) (p : MacList) :
    macListCheck item (l ++ [p])
      = (macListCheck item l).or (if p.macAdd = item then some p else none) := by
  simp only [macListCheck_eq_find?, List.find?_append, List.find?_singleton, decide_eq_true_eq]

/-- The table after a new address was added. -/
theorem macListAdd_new {host : Host} (hh : host.Succeeds) {a : CStr} {s : Sys}
    (h : a ∉ addrs s.listTop) :
    ∃ s' p, macListAdd host a s = .ok s' ∧ s'.listTop = s.listTop ++ [p] ∧ p.macAdd = a :=
  ⟨_, ⟨a, tapName s.listTop.length, newFd host s⟩, macListAdd_of_not_mem hh h, rfl, rfl⟩

/-- **The laws of a map**, for every table and every two different addresses. After
`mac_list_add(a)` the address `a` is found, at the node where it was found before if it was there;
the lookup of `b` is what it was; the count grows by one if `a` was absent. If it was present
nothing at all has happened, so adding twice is adding once. -/
theorem map_laws (host : Host) (hh : host.Succeeds) (s : Sys) (a b : CStr) (hab : b ≠ a) :
    ∃ s', macListAdd host a s = .ok s'
      ∧ (∃ p, macListCheck a s'.listTop = some p ∧ p.macAdd = a
          ∧ ∀ q, macListCheck a s.listTop = some q → p = q)
      ∧ macListCheck b s'.listTop = macListCheck b s.listTop
      ∧ macListCount s'.listTop
          = (if a ∈ addrs s.listTop then macListCount s.listTop else macListCount s.listTop + 1)
      ∧ (a ∈ addrs s.listTop → s' = s)
      ∧ macListAdd host a s' = .ok s' := by
  by_cases hmem : a ∈ addrs s.listTop
  · -- nothing happens
    obtain ⟨p, hp⟩ := macListCheck_of_mem hmem
    refine ⟨s, macListAdd_of_mem host hmem, ⟨p, hp, macListCheck_macAdd hp, ?_⟩, rfl,
      by rw [if_pos hmem], fun _ => rfl, macListAdd_of_mem host hmem⟩
    intro q hq
    rwa [hp, Option.some.injEq] at hq
  · -- one node is appended
    obtain ⟨s', p, hadd, htop, hp⟩ := macListAdd_new hh hmem
    have hnone : macListCheck a s.listTop = none := macListCheck_eq_none.mpr hmem
    have hmem' : a ∈ addrs s'.listTop := by
      rw [htop, addrs_append]
      exact List.mem_append_right _ (by simp [hp])
    refine ⟨s', hadd, ⟨p, ?_, hp, ?_⟩, ?_, ?_, fun h => absurd h hmem, macListAdd_of_mem host hmem'⟩
    · rw [htop, macListCheck_concat, hnone, if_pos hp, Option.none_or]
    · intro q hq
      rw [hnone] at hq
      exact absurd hq (by simp)
    · rw [htop, macListCheck_concat, if_neg (by rw [hp]; exact hab.symm), Option.or_none]
    · rw [if_neg hmem, macListCount_eq, macListCount_eq, htop, List.length_append,
        List.length_singleton]

/-- A table with an address in it twice and a new address. -/
theorem map_laws_repeated :
    ∃ s', macListAdd freshHost "c".toList
        ⟨[⟨"a".toList, "tap0".toList, 4⟩, ⟨"b".toList, "tap1".toList, 5⟩,
          ⟨"a".toList, "tap2".toList, 6⟩], [], []⟩ = .ok s'
      ∧ macListCheck "a".toList s'.listTop = some ⟨"a".toList, "tap0".toList, 4⟩
      ∧ macListCount s'.listTop = 4 := by
  obtain ⟨s', hadd, -, hother, hcount, -⟩ := map_laws freshHost freshHost_succeeds
    ⟨[⟨"a".toList, "tap0".toList, 4⟩, ⟨"b".toList, "tap1".toList, 5⟩,
      ⟨"a".toList, "tap2".toList, 6⟩], [], []⟩ "c".toList "a".toList (by decide)
  exact ⟨s', hadd, hother.trans (by decide), hcount.trans (by decide)⟩

end TapProject
