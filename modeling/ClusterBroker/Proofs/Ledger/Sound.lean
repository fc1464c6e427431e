import ClusterBroker.Ledger
import ClusterBroker.Proofs.Table
import ClusterBroker.Proofs.Reservation

/-!
# Sound ledgers

The index of a ledger repeats which reservation has which resource. A ledger is sound if every
reservation is sound and stands under its own id, and the index leads from every resource of a
reservation to that reservation and has no other entries. Adding a reservation that nothing
conflicts with, taking one out and storing a new version of one keep a ledger sound.
-/
namespace ClusterBroker.Ledger

/-! ### Look-ups after each operation -/

@[simp] theorem get?_add (l : Ledger) (r : Reservation) (id : ReservationId) :
    (l.add r).get? id = if r.id = id then some r else l.get? id :=
  Table.get?_insert l.reservations r.id id r

@[simp] theorem get?_drop (l : Ledger) (r : Reservation) (id : ReservationId) :
    (l.drop r).get? id = if r.id = id then none else l.get? id :=
  Table.get?_erase l.reservations r.id id

@[simp] theorem get?_update (l : Ledger) (r : Reservation) (id : ReservationId) :
    (l.update r).get? id = if r.id = id then some r else l.get? id :=
  Table.get?_insert l.reservations r.id id r

@[simp] theorem index_add (l : Ledger) (r : Reservation) (x : ResourceId) :
    (l.add r).index.get? x = if x ∈ r.resourceIds then some r.id else l.index.get? x :=
  Table.get?_foldl_insert r.id r.resourceIds l.index x

@[simp] theorem index_drop (l : Ledger) (r : Reservation) (x : ResourceId) :
    (l.drop r).index.get? x = if x ∈ r.resourceIds then none else l.index.get? x :=
  Table.get?_foldl_erase r.resourceIds l.index x

@[simp] theorem index_update (l : Ledger) (r : Reservation) : (l.update r).index = l.index := rfl

theorem conflict?_eq_none_iff {l : Ledger} {r : Reservation} :
    l.conflict? r = none ↔ l.get? r.id = none ∧ ∀ x ∈ r.resourceIds, l.index.get? x = none := by
  unfold conflict?
  split
  next h =>
    obtain ⟨s, hs⟩ := Table.contains_iff.1 h
    have hne : l.get? r.id ≠ none := by
      rw [show l.get? r.id = some s from hs]
      simp
    simp [hne]
  next h =>
    have hn : l.get? r.id = none := Table.contains_eq_false.1 (by simpa using h)
    simp [hn, Option.map_eq_none_iff, List.find?_eq_none, Table.contains_eq_false]

/-! ### Soundness -/

structure Sound (l : Ledger) : Prop where
  id_eq : ∀ {id r}, l.get? id = some r → r.id = id
  sound : ∀ {id r}, l.get? id = some r → r.Sound
  index_iff : ∀ {x id}, l.index.get? x = some id ↔ ∃ r, l.get? id = some r ∧ x ∈ r.resourceIds

theorem sound_empty : ({} : Ledger).Sound := by
  refine ⟨fun h => ?_, fun h => ?_, fun {x id} => ?_⟩
  · simp [get?] at h
  · simp [get?] at h
  · simp [get?]

/-- Where nothing is tracked nothing is indexed. -/
theorem Sound.eq_empty {l : Ledger} (h : l.Sound) (he : ∀ id, l.get? id = none) : l = {} := by
  obtain ⟨reservations, index⟩ := l
  have hindex : index = ∅ := by
    refine Table.ext_get? fun x => Option.eq_none_iff_forall_ne_some.2 fun id hid => ?_
    obtain ⟨r, hr, -⟩ := h.index_iff.1 hid
    rw [he] at hr
    simp at hr
  have hreservations : reservations = ∅ := Table.ext_get? he
  rw [hindex, hreservations]

/-- A resource has one reservation at most. -/
theorem Sound.unshared {l : Ledger} (h : l.Sound) {id id' : ReservationId} {r r' : Reservation}
    {x : ResourceId} (hr : l.get? id = some r) (hr' : l.get? id' = some r')
    (hx : x ∈ r.resourceIds) (hx' : x ∈ r'.resourceIds) : id = id' := by
  have h₁ := h.index_iff.2 ⟨r, hr, hx⟩
  have h₂ := h.index_iff.2 ⟨r', hr', hx'⟩
  exact Option.some.inj (h₁.symm.trans h₂)

theorem Sound.eq_of_shared {l : Ledger} (h : l.Sound) {s t : Reservation} {x : ResourceId}
    {id id' : ReservationId} (hs : l.get? id = some s) (ht : l.get? id' = some t)
    (hx : x ∈ s.resourceIds) (hx' : x ∈ t.resourceIds) : s = t := by
  have hid := h.unshared hs ht hx hx'
  subst hid
  rw [hs] at ht
  exact Option.some.inj ht

theorem Sound.add {l : Ledger} (h : l.Sound) {r : Reservation} (hr : r.Sound)
    (hc : l.conflict? r = none) : (l.add r).Sound := by
  obtain ⟨hid, hfree⟩ := conflict?_eq_none_iff.1 hc
  refine ⟨fun {id s} hs => ?_, fun {id s} hs => ?_, fun {x id} => ?_⟩
  · rw [get?_add] at hs
    split at hs
    next he => rw [← Option.some.inj hs, he]
    next => exact h.id_eq hs
  · rw [get?_add] at hs
    split at hs
    next => rw [← Option.some.inj hs]; exact hr
    next => exact h.sound hs
  · rw [index_add, get?_add]
    constructor
    · intro hx
      split at hx
      next hm =>
        rw [← Option.some.inj hx, if_pos rfl]
        exact ⟨r, rfl, hm⟩
      next hm =>
        obtain ⟨s, hs, hxs⟩ := h.index_iff.1 hx
        have hne : r.id ≠ id := by
          rintro rfl
          rw [hid] at hs
          simp at hs
        rw [if_neg hne]
        exact ⟨s, hs, hxs⟩
    · rintro ⟨s, hs, hxs⟩
      split at hs
      next he => rw [← Option.some.inj hs] at hxs; rw [if_pos hxs, he]
      next he =>
        have hx := h.index_iff.2 ⟨s, hs, hxs⟩
        rw [if_neg, hx]
        intro hm
        rw [hfree x hm] at hx
        simp at hx

theorem Sound.drop {l : Ledger} (h : l.Sound) {r : Reservation} (hr : l.get? r.id = some r) :
    (l.drop r).Sound := by
  refine ⟨fun {id s} hs => ?_, fun {id s} hs => ?_, fun {x id} => ?_⟩
  · rw [get?_drop] at hs
    split at hs
    next => simp at hs
    next => exact h.id_eq hs
  · rw [get?_drop] at hs
    split at hs
    next => simp at hs
    next => exact h.sound hs
  · rw [index_drop, get?_drop]
    constructor
    · intro hx
      split at hx
      next => simp at hx
      next hm =>
        obtain ⟨s, hs, hxs⟩ := h.index_iff.1 hx
        have hne : r.id ≠ id := by
          rintro rfl
          rw [hr] at hs
          exact hm (Option.some.inj hs ▸ hxs)
        rw [if_neg hne]
        exact ⟨s, hs, hxs⟩
    · rintro ⟨s, hs, hxs⟩
      split at hs
      next => simp at hs
      next hne =>
        rw [if_neg, h.index_iff.2 ⟨s, hs, hxs⟩]
        exact fun hm => hne (h.unshared hr hs hm hxs)

/-- A new version of a tracked reservation that has the same resources. -/
theorem Sound.update {l : Ledger} (h : l.Sound) {r s : Reservation} (hr : l.get? r.id = some r)
    (hs : s.Sound) (hc : s.claim = r.claim) : (l.update s).Sound := by
  have hid : s.id = r.id := (Reservation.claim_eq_iff.1 hc).1
  have hres := Reservation.resourceIds_of_claim hc
  refine ⟨fun {id t} ht => ?_, fun {id t} ht => ?_, fun {x id} => ?_⟩
  · rw [get?_update] at ht
    split at ht
    next he => rw [← Option.some.inj ht, he]
    next => exact h.id_eq ht
  · rw [get?_update] at ht
    split at ht
    next => rw [← Option.some.inj ht]; exact hs
    next => exact h.sound ht
  · rw [index_update, get?_update, h.index_iff, hid]
    by_cases he : r.id = id
    · subst he
      simp [hr, hres]
    · simp [he]

/-- An indexed resource has a tracked reservation, and that has the resource. -/
theorem Sound.lookup {l : Ledger} (h : l.Sound) {x : ResourceId} {id : ReservationId}
    (hx : l.index.get? x = some id) :
    ∃ r y, l.get? id = some r ∧ r.id = id ∧ r.resource? x = some y := by
  obtain ⟨r, hr, hxr⟩ := h.index_iff.1 hx
  obtain ⟨y, hy⟩ := Reservation.exists_resource? hxr
  exact ⟨r, y, hr, h.id_eq hr, hy⟩

end ClusterBroker.Ledger
