import ClusterBroker.Proofs.GangControl.Neat

/-!
# Who is drawn

A round draws gangs until they have enough resources together, and no gang beyond that. It draws
from the submitted ones, each at most once, so it ends for want of gangs or because it has enough.
Those that are drawn are marked and do not count as submitted any more; nothing else is touched.
-/
namespace ClusterBroker

theorem Dice.draw_lt {n : Nat} (h : 0 < n) (d : Dice) : (d.draw n).1 < n := by
  unfold draw
  split
  · exact h
  · exact Nat.mod_lt _ h

namespace GangControl

variable {c c' : GangControl} {leaving : List ReservationId}

/-! ### Weights -/

/-- The number of resources of a reservation, if it is known. -/
def weight (c : GangControl) (id : ReservationId) : Nat :=
  ((c.known.get? id).map fun r => r.resources.length).getD 0

/-- The number of resources of several reservations. -/
def weigh (c : GangControl) : List ReservationId → Nat
  | [] => 0
  | id :: ids => c.weight id + c.weigh ids

@[simp] theorem weigh_nil (c : GangControl) : c.weigh [] = 0 := rfl

@[simp] theorem weigh_cons (c : GangControl) (id : ReservationId) (ids : List ReservationId) :
    c.weigh (id :: ids) = c.weight id + c.weigh ids := rfl

theorem weigh_perm {ids ids' : List ReservationId} (h : ids.Perm ids') :
    c.weigh ids = c.weigh ids' := by
  induction h with
  | nil => rfl
  | cons id _ ih => rw [weigh_cons, weigh_cons, ih]
  | swap id id' ids => exact Nat.add_left_comm ..
  | trans _ _ ih ih' => exact ih.trans ih'

theorem weigh_congr (h : ∀ id, c'.weight id = c.weight id) (ids : List ReservationId) :
    c'.weigh ids = c.weigh ids := by
  induction ids with
  | nil => rfl
  | cons id ids ih => rw [weigh_cons, weigh_cons, h, ih]

theorem weight_eq {id : ReservationId} {r : Reservation} (h : c.known.get? id = some r) :
    c.weight id = r.resources.length := by
  unfold weight
  rw [h]
  rfl

theorem submittedResources_eq (c : GangControl) :
    c.submittedResources = c.weigh c.submitted.keys := by
  have hsum : ∀ (ids : List ReservationId) (n : Nat),
      (ids.filterMap c.known.get?).foldl (fun n r => n + r.resources.length) n =
        n + c.weigh ids := by
    intro ids
    induction ids with
    | nil => exact fun _ => rfl
    | cons id ids ih =>
      intro n
      rw [weigh_cons]
      cases hr : c.known.get? id with
      | none =>
        rw [List.filterMap_cons_none hr, ih]
        simp [weight, hr]
      | some r =>
        rw [List.filterMap_cons_some hr, List.foldl_cons, ih, weight_eq hr, Nat.add_assoc]
  unfold submittedResources
  rw [hsum, Nat.zero_add]

/-! ### Drawing -/

/-- Drawn from `c` so that `wanted` resources are freed: who, and what becomes of the books. -/
structure Drawn (wanted : Nat) (c : GangControl) (vs : List (ReservationId × HandleId))
    (c' : GangControl) : Prop where
  chosen : ∀ v ∈ vs, (c.submitted.get? v.1).isSome = true ∧
    ∃ r, c.known.get? v.1 = some r ∧ r.handle = v.2
  distinct : (vs.map Prod.fst).Nodup
  enough : min wanted (c.weigh c.submitted.keys) ≤ c.weigh (vs.map Prod.fst)
  spare : ∀ first last, vs = first ++ [last] → c.weigh (first.map Prod.fst) < wanted
  known : ∀ k, c'.known.get? k = if k ∈ vs.map Prod.fst
    then (c.known.get? k).map fun r => { r with status := .backedOff } else c.known.get? k
  submitted : ∀ k, c'.submitted.get? k =
    if k ∈ vs.map Prod.fst then none else c.submitted.get? k

/-- Nobody is drawn if nothing is wanted or nobody is there. -/
theorem Drawn.nil {wanted : Nat} (h : wanted = 0 ∨ c.submitted.keys = []) :
    Drawn wanted c [] c := by
  refine ⟨List.forall_mem_nil _, List.nodup_nil, ?_, fun first last he => ?_, fun _ => rfl,
    fun _ => rfl⟩
  · rcases h with h | h
    · simp [h]
    · simp [h]
  · simp at he

/-- One is drawn, and then the others, from those who are left. -/
theorem Drawn.cons {wanted : Nat} {id : ReservationId} {r : Reservation}
    {vs : List (ReservationId × HandleId)} {d : Dice} (hs : (c.submitted.get? id).isSome = true)
    (hr : c.known.get? id = some r) (hw : 0 < wanted)
    (h : Drawn (wanted - r.resources.length) { c with
      dice := d, submitted := c.submitted.remove id,
      known := c.known.insert id { r with status := .backedOff } } vs c') :
    Drawn wanted c ((id, r.handle) :: vs) c' := by
  have hknown : ∀ k, (c.known.insert id { r with status := .backedOff }).get? k =
      if id = k then some { r with status := .backedOff } else c.known.get? k :=
    fun k => Table.get?_insert ..
  have hsub : ∀ k, (c.submitted.remove id).get? k = if id = k then none else c.submitted.get? k :=
    fun k => Table.get?_erase ..
  -- to be marked makes no difference to what a gang weighs
  have hweigh : ∀ ids, weigh { c with
      dice := d, submitted := c.submitted.remove id,
      known := c.known.insert id { r with status := .backedOff } } ids = c.weigh ids := by
    refine weigh_congr fun k => ?_
    unfold weight
    rw [hknown]
    split
    next he =>
      rw [← he, hr]
      rfl
    next => rfl
  have hone : c.weight id = r.resources.length := weight_eq hr
  have hall : c.weigh c.submitted.keys = c.weight id + c.weigh (c.submitted.remove id).keys := by
    rw [weigh_perm (Table.keys_erase_perm hs), weigh_cons]
    rfl
  have hnot : id ∉ vs.map Prod.fst := by
    intro hm
    obtain ⟨v, hv, rfl⟩ := List.mem_map.1 hm
    have hv' := (h.chosen v hv).1
    simp only [hsub, if_pos] at hv'
    simp at hv'
  have hmem : ∀ k, k ∈ ((id, r.handle) :: vs).map Prod.fst ↔ k = id ∨ k ∈ vs.map Prod.fst :=
    fun k => by rw [List.map_cons, List.mem_cons]
  refine ⟨fun v hv => ?_, List.nodup_cons.2 ⟨hnot, h.distinct⟩, ?_, fun first last he => ?_,
    fun k => ?_, fun k => ?_⟩
  · rcases List.mem_cons.1 hv with rfl | hv
    · exact ⟨hs, r, hr, rfl⟩
    · obtain ⟨hv', t, ht, hh⟩ := h.chosen v hv
      have hne : id ≠ v.1 := fun he => hnot (he ▸ List.mem_map_of_mem hv)
      simp only [hsub, if_neg hne] at hv'
      simp only [hknown, if_neg hne] at ht
      exact ⟨hv', t, ht, hh⟩
  · have he := h.enough
    simp only [hweigh] at he
    rw [List.map_cons, weigh_cons, hall]
    dsimp only at he ⊢
    omega
  · cases first with
    | nil => exact hw
    | cons v first =>
      obtain ⟨rfl, hvs⟩ := List.cons.inj he
      have hsp := h.spare first last hvs
      rw [hweigh] at hsp
      rw [List.map_cons, weigh_cons]
      dsimp only
      omega
  · simp only [h.known, hknown, hmem]
    by_cases he : id = k
    · subst he
      simp [hnot, hr]
    · simp only [he, Ne.symm he, false_or, if_false]
  · simp only [h.submitted, hsub, hmem]
    by_cases he : id = k
    · simp [he]
    · simp only [he, Ne.symm he, false_or, if_false]

theorem Neat.pick_drawn (h : Neat c leaving) (wanted : Nat) {n : Nat} (hn : c.submitted.size ≤ n) :
    Drawn wanted c (c.pick wanted n).1 (c.pick wanted n).2 := by
  have hlen : c.submitted.keys.length = c.submitted.size := List.length_map _
  induction n generalizing c wanted leaving with
  | zero => exact .nil (.inr (List.length_eq_zero_iff.1 (hlen.trans (Nat.le_zero.1 hn))))
  | succ n ih =>
    unfold GangControl.pick
    split
    next hw => exact .nil (.inl hw)
    next hw =>
      dsimp only
      split
      next hnone =>
        -- the draw is wasted only if there is nobody left
        refine .nil (.inr (List.length_eq_zero_iff.1 ?_))
        rw [List.getElem?_eq_none_iff, hlen] at hnone
        by_contra hpos
        have hlt := Dice.draw_lt (Nat.pos_of_ne_zero (hlen ▸ hpos)) c.dice
        omega
      next id hid =>
        have hs := Table.mem_keys.1 (List.mem_of_getElem? hid)
        obtain ⟨r, hr, -⟩ := h.submitted_known hs
        simp only [hr]
        have hsize : (c.submitted.remove id).size + 1 = c.submitted.size := Table.size_erase hs
        exact .cons hs hr (Nat.pos_of_ne_zero hw) (ih (h.draw hs hr _) _
          (Nat.le_of_lt_succ (by dsimp only; omega)) (List.length_map _))

theorem Neat.pickVictims_drawn (h : Neat c []) :
    Drawn c.target c c.pickVictims.1 c.pickVictims.2 := h.pick_drawn c.target (Nat.le_refl _)

/-- A round draws nobody exactly if there is nothing to free. -/
theorem Neat.pickVictims_eq_nil (h : Neat c []) : c.pickVictims.1 = [] ↔ c.target = 0 := by
  have hd := h.pickVictims_drawn
  constructor
  · intro hv
    have he := hd.enough
    rw [hv, List.map_nil, weigh_nil, ← submittedResources_eq] at he
    rcases Nat.min_eq_zero_iff.1 (Nat.le_zero.1 he) with ht | hz
    · exact ht
    · unfold target
      rw [hz]
      simp
  · intro ht
    rcases List.eq_nil_or_concat c.pickVictims.1 with hv | ⟨first, last, hv⟩
    · exact hv
    · have hsp := hd.spare first last (by rw [hv, List.concat_eq_append])
      omega

theorem Neat.pickVictims_ne_nil (h : Neat c []) : c.pickVictims.1 ≠ [] ↔ 0 < c.target := by
  rw [Nat.pos_iff_ne_zero, ne_eq, h.pickVictims_eq_nil]

end GangControl

end ClusterBroker
