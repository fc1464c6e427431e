import Mathlib.Data.List.Perm.Lattice
import ClusterBroker.Proofs.Custody.Moves
import ClusterBroker.Proofs.Ledger.Batch
import ClusterBroker.Proofs.Ledger.Removal

/-!
# The resources of a ledger

All resources of all tracked reservations, up to order, through everything that happens to a
ledger. In the middle of a batch those that will be given back count too; then a change that the
manager reports allocates one resource or takes one away, and it is the one that it speaks of.
-/
namespace ClusterBroker

open Stock (Shift)

namespace Ledger

variable {l l' : Ledger} {r s : Reservation}

def resources (l : Ledger) : List Resource := l.reservations.values.flatMap Reservation.resources

theorem mem_resources {x : Resource} :
    x ∈ l.resources ↔ ∃ id r, l.get? id = some r ∧ x ∈ r.resources := by
  unfold resources
  rw [List.mem_flatMap]
  constructor
  · rintro ⟨r, hr, hx⟩
    obtain ⟨id, hid⟩ := Table.mem_values.1 hr
    exact ⟨id, r, hid, hx⟩
  · rintro ⟨id, r, hr, hx⟩
    exact ⟨r, Table.mem_values.2 ⟨id, hr⟩, hx⟩

theorem resources_add (h : l.get? r.id = none) :
    (l.add r).resources.Perm (r.resources ++ l.resources) :=
  (Table.values_insert_perm r h).flatMap_right _

theorem resources_drop (h : l.get? r.id = some r) :
    l.resources.Perm (r.resources ++ (l.drop r).resources) :=
  (Table.values_erase_perm h).flatMap_right _

theorem resources_update (hid : s.id = r.id) :
    (l.update s).resources.Perm (s.resources ++ (l.drop r).resources) := by
  have hs : (l.update s).get? s.id = some s := by simp
  have hp := resources_drop hs
  have he : ((l.update s).drop s).resources = (l.drop r).resources := by
    unfold resources drop update
    dsimp only
    rw [Table.erase_insert_self, hid]
  rw [he] at hp
  exact hp

theorem Sound.indexed (h : l.Sound) {x : Resource} (hx : x ∈ l.resources) :
    l.index.get? x.id ≠ none := by
  obtain ⟨id, r, hr, hxr⟩ := mem_resources.1 hx
  rw [h.index_iff.2 ⟨r, hr, List.mem_map_of_mem hxr⟩]
  simp

theorem Sound.resources_nodup (h : l.Sound) : (l.resources.map Resource.id).Nodup := by
  unfold resources
  rw [List.map_flatMap, List.nodup_flatMap]
  constructor
  · intro r hr
    obtain ⟨id, hid⟩ := Table.mem_values.1 hr
    exact (h.sound hid).nodup
  · unfold Table.values
    rw [List.pairwise_map]
    refine l.reservations.ascending.imp_of_mem fun {a b} ha hb hlt => ?_
    have hra : l.get? a.1 = some a.2 := Table.mem_entries.1 ha
    have hrb : l.get? b.1 = some b.2 := Table.mem_entries.1 hb
    intro x hx hx'
    exact Key.ne_of_lt hlt (h.unshared hra hrb hx hx')

/-- A resource is the only one of its id. -/
theorem Sound.resource_eq (h : l.Sound) {x y : Resource} (hx : x ∈ l.resources)
    (hy : y ∈ l.resources) (he : x.id = y.id) : x = y :=
  List.inj_on_of_nodup_map h.resources_nodup hx hy he

theorem Sound.mem_resources_settled (h : l.Sound) {x : Resource} (hx : x ∈ l.resources) :
    x.Settled := by
  obtain ⟨id, r, hr, hxr⟩ := mem_resources.1 hx
  exact (h.sound hr).settled x hxr

/-! ### Through a change -/

theorem split_resource (hs : r.Sound) {x : Resource} (hx : x ∈ r.resources) :
    ∃ rest, r.resources.Perm (x :: rest) ∧ ∀ y ∈ rest, y.id ≠ x.id := by
  obtain ⟨rest, hp⟩ := Stock.perm_cons_of_mem hx
  have hn := (hp.map Resource.id).nodup_iff.1 hs.nodup
  rw [List.map_cons, List.nodup_cons] at hn
  exact ⟨rest, hp, fun y hy he => hn.1 (he ▸ List.mem_map_of_mem hy)⟩

theorem resources_grant (h : l.Sound) (hr : l.get? r.id = some r) (now : Time) (a : Allocation)
    {x : Resource} (hx : x ∈ r.resources) :
    ∃ rest, l.resources.Perm (x :: rest) ∧
      (l.update (r.grant now x.id a)).resources.Perm (x.allocate a :: rest) := by
  have hs := h.sound hr
  obtain ⟨rest, hp, hne⟩ := split_resource hs hx
  refine ⟨rest ++ (l.drop r).resources, ?_, ?_⟩
  · exact (resources_drop hr).trans (hp.append_right _)
  · have hm := hp.map fun y => if y.id = x.id then y.allocate a else y
    rw [List.map_cons, if_pos rfl] at hm
    have hrest : rest.map (fun y => if y.id = x.id then y.allocate a else y) = rest := by
      rw [List.map_congr_left fun y hy => if_neg (hne y hy), List.map_id']
    rw [hrest, ← Reservation.grant_resources hs] at hm
    exact (resources_update (Reservation.grant_id hs now x.id a)).trans (hm.append_right _)

def givenUp (e : Option Effect) : List Resource := (e.map Effect.toRelease).getD []

theorem Applied.shift {now : Time} {c : Change} {e : Option Effect} (h : l.Sound)
    (ha : Applied now l c l' e) (rel : List Resource) :
    Shift c (l.resources ++ rel) (l'.resources ++ (rel ++ givenUp e)) := by
  cases ha with
  | unknown => exact .same (by simp [givenUp])
  | repeated => exact .same (by simp [givenUp])
  | illegal => exact .same (by simp [givenUp])
  | reported => exact .same (by simp [givenUp])
  | @granted id a r x hr hx hn =>
    obtain ⟨hxr, rfl⟩ := Reservation.mem_of_resource? hx
    obtain ⟨rest, hp, hp'⟩ := resources_grant h hr now a hxr
    refine .granted (hp.append_right rel) ?_ rfl
    simpa [givenUp] using hp'.append_right rel
  | @tornDown c r b hr hc =>
    obtain ⟨x, hx, hid⟩ := List.mem_map.1 hc
    obtain ⟨rest, hp, hne⟩ := split_resource (h.sound hr) hx
    have hback : (r.resources.filter fun y => y.id ≠ c.resource).Perm rest := by
      have hf := hp.filter fun y => y.id ≠ c.resource
      have hall : ∀ y ∈ rest, decide (y.id ≠ c.resource) = true := by
        intro y hy
        rw [← hid]
        exact decide_eq_true (hne y hy)
      rw [List.filter_cons_of_neg (by simp [hid]), List.filter_eq_self.2 hall] at hf
      exact hf
    have hall : (l.resources ++ rel).Perm (x :: (rest ++ (l.drop r).resources ++ rel)) :=
      ((resources_drop hr).trans (hp.append_right _)).append_right rel
    have hleft :
        ((l.drop r).resources ++ (rel ++ r.resources.filter fun y => y.id ≠ c.resource)).Perm
          (rest ++ (l.drop r).resources ++ rel) := by
      rw [← List.append_assoc, List.append_assoc rest]
      exact List.perm_append_comm.trans (hback.append_right _)
    exact .dropped hall hleft hid

/-! ### Through a batch -/

/-- The resources in the middle of a batch. -/
def Batch.resources (b : Batch) : List Resource := b.ledger.resources ++ b.toRelease

theorem Batch.step_toRelease (now : Time) (b : Batch) (c : Change) :
    (b.step now c).toRelease = b.toRelease ++ givenUp (b.ledger.apply now c).2 := by
  unfold step note
  split
  next he => simp [givenUp, he]
  next e he => simp [givenUp, he]

theorem Batch.step_shift {b : Batch} (h : b.ledger.Sound) (now : Time) (c : Change) :
    Shift c b.resources (b.step now c).resources := by
  unfold resources
  rw [step_ledger, step_toRelease]
  exact (apply_applied h now c).shift h b.toRelease

/-- An allocation is ignored, or goes to the resource that waits for it. -/
theorem Batch.step_allocated {b : Batch} (h : b.ledger.Sound) (now : Time) (id : ResourceId)
    (a : Allocation) : (b.step now (.allocated id a)).toRelease = b.toRelease ∧
      ((∀ x ∈ b.ledger.resources, x.id = id → x.allocation ≠ none) ∧
          (b.step now (.allocated id a)).ledger = b.ledger ∨
        ∃ x rest, b.ledger.resources.Perm (x :: rest) ∧ x.allocation = none ∧ x.id = id ∧
          (b.step now (.allocated id a)).ledger.resources.Perm (x.allocate a :: rest)) := by
  rw [step_ledger, step_toRelease]
  have ha := apply_applied h now (.allocated id a)
  generalize b.ledger.apply now (.allocated id a) = o at ha ⊢
  obtain ⟨l', e⟩ := o
  cases ha with
  | unknown hi =>
    refine ⟨by simp [givenUp], .inl ⟨fun x hx hid => ?_, rfl⟩⟩
    exact absurd (hid ▸ hi) (h.indexed hx)
  | @repeated _ _ r x hr hx hxa =>
    obtain ⟨hxr, rfl⟩ := Reservation.mem_of_resource? hx
    have hmem : x ∈ b.ledger.resources := mem_resources.2 ⟨r.id, r, hr, hxr⟩
    refine ⟨by simp [givenUp], .inl ⟨fun y hy hid hn => ?_, rfl⟩⟩
    rw [h.resource_eq hy hmem hid, (h.mem_resources_settled hmem).allocation_eq_none] at hn
    rw [hn] at hxa
    simp at hxa
  | illegal _ _ hne => exact absurd rfl hne
  | @granted _ _ r x hr hx hn =>
    obtain ⟨hxr, rfl⟩ := Reservation.mem_of_resource? hx
    obtain ⟨rest, hp, hp'⟩ := resources_grant h hr now a hxr
    refine ⟨by simp [givenUp], .inr ⟨x, rest, hp, ?_, rfl, hp'⟩⟩
    exact ((h.sound hr).settled x hxr).allocation_eq_none.2 hn
  | reported _ _ hv => simp [Verdict.of, Change.status] at hv
  | tornDown _ _ hv => simp [Verdict.of, Change.status] at hv

/-- Bad news allocate nothing. -/
theorem Batch.foldl_resources (now : Time) {cs : List Change}
    (hcs : ∀ c ∈ cs, c.status ≠ .allocated)
    {b : Batch} (h : b.ledger.Sound) :
    ∃ gone, b.resources.Perm ((cs.foldl (Batch.step now) b).resources ++ gone) := by
  induction cs generalizing b with
  | nil => exact ⟨[], by rw [List.append_nil]; rfl⟩
  | cons c cs ih =>
    have hb : (b.step now c).ledger.Sound := by
      rw [step_ledger]
      exact (apply_applied h now c).sound h
    obtain ⟨gone, hg⟩ := ih (fun x hx => hcs x (List.mem_cons_of_mem _ hx)) hb
    rw [List.foldl_cons]
    cases step_shift h now c with
    | same hp => exact ⟨gone, hp.trans hg⟩
    | granted _ _ hc => exact absurd (by rw [hc]; rfl) (hcs c (List.mem_cons_self ..))
    | @dropped x rest hp hp' hid =>
      refine ⟨x :: gone, hp.trans ?_⟩
      exact ((hp'.symm.trans hg).cons x).trans List.perm_middle.symm

/-! ### Through removals -/

theorem resources_removeAll (h : l.Sound) (ids : List ReservationId) :
    l.resources.Perm ((l.removeAll ids).1.flatMap Reservation.resources ++
      (l.removeAll ids).2.resources) := by
  induction ids generalizing l with
  | nil => exact .refl _
  | cons id ids ih =>
    have hone : l.resources.Perm ((l.remove id).1.toList.flatMap Reservation.resources ++
        (l.remove id).2.resources) := by
      unfold remove
      cases hr : l.get? id with
      | none => exact .refl _
      | some r =>
        have hid := h.id_eq hr
        subst hid
        simpa using resources_drop hr
    have hrest := ih (remove_ledger h id).1
    unfold removeAll
    rw [List.flatMap_append, List.append_assoc]
    exact hone.trans (hrest.append_left _)

theorem resources_removeWhere (h : l.Sound) (p : Reservation → Bool) :
    l.resources.Perm ((l.removeWhere p).1.flatMap Reservation.resources ++
      (l.removeWhere p).2.resources) := resources_removeAll h _

end Ledger

end ClusterBroker
