import Mathlib.Data.List.Forall2
import TapProject.Lib.Insertion

set_option autoImplicit false

/-! # Hubs that learn addresses

A hub has ports, numbered from zero in the order in which the addresses behind them became known.
A frame is flooded to every port there is, or it is forwarded: the hub learns some addresses from it
and sends it to the port of each. `deliveries` is what a hub sends over a run, each frame with the
port it is sent to, and `table` the addresses it knows after the run.

The port of an address is its place among the addresses in the order they were learned. It never
changes (`port_grows`), and different addresses have different ports (`port_inj`). A hub that has
learned all it is going to see treats every frame by itself (`deliveries_trained`). What gets to the
port of an address over a run is its `view` of the frames, which looks at the flooded ones and at
its own (`sentTo_port`, `view_filter`). -/

namespace Hub

open Insertion

variable {α β : Type*} [DecidableEq α]

/-- What a hub does with a frame. -/
inductive Action (α : Type*)
  | flood
  | forward (as : List α)
  deriving DecidableEq, Repr

/-- The addresses a hub learns from a frame. -/
def Action.learned : Action α → List α
  | .flood => []
  | .forward as => as

/-- The port of an address, for a hub that knows the addresses `known`. -/
def port (known : List α) (a : α) : Nat := known.idxOf a

/-- The ports a frame is sent to. -/
def ports (known : List α) : Action α → List Nat
  | .flood => List.range known.length
  | .forward as => as.map (port (insertAll known as))

/-- The addresses known after the frames, each given with what is sent of it. -/
def table (known : List α) (frames : List (Action α × β)) : List α :=
  insertAll known (frames.flatMap fun f => f.1.learned)

/-- What is sent for the frames, in order. -/
def deliveries (known : List α) : List (Action α × β) → List (Nat × β)
  | [] => []
  | (x, b) :: frames =>
      (ports known x).map (·, b) ++ deliveries (insertAll known x.learned) frames

variable {known known' : List α} {x : Action α} {frames : List (Action α × β)}

/-! ## Ports -/

/-- A hub keeps the ports of the addresses it knows. -/
theorem port_grows (h : known <+: known') {a : α} (ha : a ∈ known) :
    port known' a = port known a := by
  obtain ⟨later, rfl⟩ := h
  exact List.idxOf_append_of_mem ha

/-- **Two addresses have the same port only if they are the same.** -/
theorem port_inj {a b : α} (ha : a ∈ known) : port known a = port known b ↔ a = b :=
  List.idxOf_inj ha

theorem port_lt {a : α} (ha : a ∈ known) : port known a < known.length :=
  List.idxOf_lt_length_of_mem ha

/-- A frame is sent to ports that exist once its addresses are learned. -/
theorem ports_lt {k : Nat} (hk : k ∈ ports known x) :
    k < (insertAll known x.learned).length := by
  cases x with
  | flood => exact List.mem_range.mp hk
  | forward as =>
      obtain ⟨a, ha, rfl⟩ := List.mem_map.mp hk
      exact port_lt (mem_insertAll.mpr (Or.inr ha))

/-! ## Runs -/

@[simp] theorem table_nil : table known ([] : List (Action α × β)) = known := rfl

theorem table_cons (f : Action α × β) (frames : List (Action α × β)) :
    table known (f :: frames) = table (insertAll known f.1.learned) frames := by
  rw [table, List.flatMap_cons, insertAll_append, table]

theorem table_append (xs ys : List (Action α × β)) :
    table known (xs ++ ys) = table (table known xs) ys := by
  rw [table, List.flatMap_append, insertAll_append, table, table]

theorem table_concat (frames : List (Action α × β)) (f : Action α × β) :
    table known (frames ++ [f]) = insertAll (table known frames) f.1.learned := by
  rw [table_append, table, List.flatMap_singleton]

theorem deliveries_append (known : List α) (xs ys : List (Action α × β)) :
    deliveries known (xs ++ ys) = deliveries known xs ++ deliveries (table known xs) ys := by
  induction xs generalizing known with
  | nil => rfl
  | cons f xs ih =>
      rw [List.cons_append, deliveries, deliveries, ih, table_cons, List.append_assoc]

theorem deliveries_concat (frames : List (Action α × β)) (f : Action α × β) :
    deliveries known (frames ++ [f])
      = deliveries known frames ++ (ports (table known frames) f.1).map (·, f.2) := by
  rw [deliveries_append, deliveries, deliveries, List.append_nil]

/-- **A trained hub.** When every address of the frames is known, the table stays as it is and what
is sent for a frame does not depend on the frames before it. -/
theorem deliveries_trained (h : ∀ f ∈ frames, ∀ a ∈ f.1.learned, a ∈ known) :
    table known frames = known
      ∧ deliveries known frames = frames.flatMap fun f => (ports known f.1).map (·, f.2) := by
  induction frames with
  | nil => exact ⟨rfl, rfl⟩
  | cons f frames ih =>
      obtain ⟨hf, hframes⟩ := List.forall_mem_cons.mp h
      obtain ⟨htable, hsent⟩ := ih hframes
      have hsame : insertAll known f.1.learned = known := insertAll_of_subset hf
      constructor
      · rw [table_cons, hsame, htable]
      · rw [deliveries, hsame, hsent, List.flatMap_cons]

/-- **Hubs treat frames by their actions.** Frames with the same actions give the same table and go
to the same ports, each with what is sent of it. -/
theorem deliveries_rel {γ : Type*} {R : β → γ → Prop} {frames' : List (Action α × γ)}
    (h : List.Forall₂ (fun f f' => f'.1 = f.1 ∧ R f.2 f'.2) frames frames') (known : List α) :
    table known frames' = table known frames
      ∧ List.Forall₂ (fun d d' => d'.1 = d.1 ∧ R d.2 d'.2) (deliveries known frames)
          (deliveries known frames') := by
  induction h generalizing known with
  | nil => exact ⟨rfl, .nil⟩
  | @cons f f' frames frames' hf _ ih =>
      obtain ⟨x, b⟩ := f
      obtain ⟨x', b'⟩ := f'
      obtain ⟨hx, hb⟩ : x' = x ∧ R b b' := hf
      subst hx
      obtain ⟨htable, hsent⟩ := ih (insertAll known x'.learned)
      constructor
      · rw [table_cons, table_cons, htable]
      · refine List.rel_append ?_ hsent
        rw [List.forall₂_map_left_iff, List.forall₂_map_right_iff, List.forall₂_same]
        exact fun _ _ => ⟨rfl, hb⟩

/-! ## What is seen behind a port -/

/-- What is sent to the port of `a`: nothing until a frame is forwarded for `a`; from then on, and
from the start if `seen`, every flooded frame and every frame forwarded for `a`. -/
def view (a : α) (seen : Bool) : List (Action α × β) → List β
  | [] => []
  | (.flood, b) :: frames => (if seen then [b] else []) ++ view a seen frames
  | (.forward as, b) :: frames =>
      List.replicate (as.count a) b ++ view a (seen || decide (a ∈ as)) frames

/-- A frame that may be sent to the port of `a`. -/
def Action.concerns (a : α) : Action α → Bool
  | .flood => true
  | .forward as => decide (a ∈ as)

/-- **Frames for others are not seen.** -/
theorem view_filter (a : α) (seen : Bool) (frames : List (Action α × β)) :
    view a seen (frames.filter fun f => f.1.concerns a) = view a seen frames := by
  induction frames generalizing seen with
  | nil => rfl
  | cons f frames ih =>
      obtain ⟨x, b⟩ := f
      cases x with
      | flood =>
          rw [List.filter_cons_of_pos (by rfl), view, view, ih]
      | forward as =>
          by_cases ha : a ∈ as
          · rw [List.filter_cons_of_pos (by simpa [Action.concerns] using ha), view, view, ih]
          · rw [List.filter_cons_of_neg (by simpa [Action.concerns] using ha), view, ih,
              List.count_eq_zero_of_not_mem ha, decide_eq_false ha, Bool.or_false]
            rfl

/-- Whether an address is learned is decided by the frames that concern it. -/
theorem mem_table_filter {a : α} :
    a ∈ table known (frames.filter fun f => f.1.concerns a) ↔ a ∈ table known frames := by
  have hconcerns : ∀ f ∈ frames, a ∈ f.1.learned → f.1.concerns a = true := by
    rintro ⟨x, b⟩ - ha
    cases x with
    | flood => rfl
    | forward as => exact decide_eq_true ha
  simp only [table, mem_insertAll, List.mem_flatMap, List.mem_filter]
  apply or_congr_right
  constructor
  · rintro ⟨f, ⟨hf, -⟩, ha⟩
    exact ⟨f, hf, ha⟩
  · rintro ⟨f, hf, ha⟩
    exact ⟨f, ⟨hf, hconcerns f hf ha⟩, ha⟩

/-- What was sent to a port. -/
def sentTo (k : Nat) (ds : List (Nat × β)) : List β :=
  (ds.filter fun d => d.1 = k).map Prod.snd

theorem sentTo_append (k : Nat) (ds es : List (Nat × β)) :
    sentTo k (ds ++ es) = sentTo k ds ++ sentTo k es := by
  rw [sentTo, List.filter_append, List.map_append, sentTo, sentTo]

/-- A frame is sent to a port as often as the port occurs. -/
theorem sentTo_frame (k : Nat) (ks : List Nat) (b : β) :
    sentTo k (ks.map (·, b)) = List.replicate (ks.count k) b := by
  induction ks with
  | nil => rfl
  | cons j ks ih =>
      rw [List.map_cons, ← List.singleton_append, sentTo_append, ih, List.count_cons]
      by_cases hj : j = k
      · subst hj
        rw [if_pos (by simp), List.replicate_succ]
        simp [sentTo]
      · rw [if_neg (by simpa using hj)]
        simp [sentTo, hj]

/-- How often the port of `a` occurs among the ports of a frame, for a later table `known'`. -/
theorem count_port {a : α} (h : insertAll known x.learned <+: known') (ha : a ∈ known') :
    (ports known x).count (port known' a) = match x with
      | .flood => if a ∈ known then 1 else 0
      | .forward as => as.count a := by
  cases x with
  | flood =>
      -- the port of an address that is learned later does not exist yet
      have hmem : port known' a ∈ List.range known.length ↔ a ∈ known := by
        have hpre : known <+: known' := h
        rw [List.mem_range]
        constructor
        · intro hlt
          obtain ⟨later, rfl⟩ := hpre
          by_contra hn
          rw [port, List.idxOf_append_of_notMem hn] at hlt
          omega
        · intro hk
          rw [port_grows hpre hk]
          exact port_lt hk
      show (List.range known.length).count (port known' a) = if a ∈ known then 1 else 0
      split
      next hk => exact List.count_eq_one_of_mem List.nodup_range (hmem.mpr hk)
      next hk => exact List.count_eq_zero_of_not_mem (mt hmem.mp hk)
  | forward as =>
      have hpre : insertAll known as <+: known' := h
      show (as.map (port (insertAll known as))).count (port known' a) = as.count a
      rw [List.count, List.count, List.countP_map]
      apply List.countP_congr
      intro c hc
      have hknown : c ∈ insertAll known as := mem_insertAll.mpr (Or.inr hc)
      simp only [Function.comp_apply, beq_iff_eq]
      rw [← port_grows hpre hknown, port_inj (hpre.subset hknown)]

theorem table_grows (known : List α) (frames : List (Action α × β)) :
    known <+: table known frames :=
  prefix_insertAll known _

/-- **What is sent to the port of an address is its view of the frames.** -/
theorem sentTo_port {a : α} (ha : a ∈ table known frames) :
    sentTo (port (table known frames) a) (deliveries known frames)
      = view a (decide (a ∈ known)) frames := by
  induction frames generalizing known with
  | nil => rfl
  | cons f frames ih =>
      obtain ⟨x, b⟩ := f
      rw [table_cons] at ha ⊢
      have hcount := count_port (table_grows (insertAll known x.learned) frames) ha
      rw [deliveries, sentTo_append, sentTo_frame, hcount, ih ha]
      cases x with
      | flood =>
          show List.replicate (if a ∈ known then 1 else 0) b ++ view a (decide (a ∈ known)) frames
            = (if decide (a ∈ known) = true then [b] else []) ++ view a (decide (a ∈ known)) frames
          by_cases hk : a ∈ known <;> simp [hk]
      | forward as =>
          have hseen : decide (a ∈ insertAll known as)
              = (decide (a ∈ known) || decide (a ∈ as)) := by
            rw [← Bool.decide_or]
            exact decide_eq_decide.mpr mem_insertAll
          show _ ++ view a (decide (a ∈ insertAll known as)) frames = _
          rw [hseen, view]

/-- The addresses known do not depend on the order of the frames. -/
theorem table_perm (hnd : known.Nodup) {frames' : List (Action α × β)} (h : frames.Perm frames') :
    (table known frames).Perm (table known frames') :=
  insertAll_perm hnd (h.flatMap_right _)

end Hub
