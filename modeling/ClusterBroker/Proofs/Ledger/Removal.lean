import ClusterBroker.Proofs.Ledger.Sound

/-!
# Removal

Taking reservations out by their ids, or all that satisfy a condition: what is left, and what is
handed back.
-/
namespace ClusterBroker.Ledger

variable {l : Ledger}

theorem remove_ledger (h : l.Sound) (id : ReservationId) :
    (l.remove id).2.Sound ∧
      ∀ k, (l.remove id).2.get? k = if id = k then none else l.get? k := by
  unfold remove
  cases hr : l.get? id with
  | none =>
    refine ⟨h, fun k => ?_⟩
    by_cases hk : id = k
    · subst hk
      simp [hr]
    · simp [hk]
  | some r =>
    have hid := h.id_eq hr
    subst hid
    exact ⟨h.drop hr, fun k => get?_drop l r k⟩

theorem removeAll_ledger (h : l.Sound) (ids : List ReservationId) :
    (l.removeAll ids).2.Sound ∧
      ∀ k, (l.removeAll ids).2.get? k = if k ∈ ids then none else l.get? k := by
  induction ids generalizing l with
  | nil => exact ⟨h, fun k => rfl⟩
  | cons id ids ih =>
    obtain ⟨h₁, hg₁⟩ := remove_ledger h id
    obtain ⟨h₂, hg₂⟩ := ih h₁
    refine ⟨h₂, fun k => ?_⟩
    unfold removeAll
    rw [hg₂, hg₁]
    by_cases hk : k ∈ ids
    · simp [hk]
    · by_cases he : id = k
      · simp [he]
      · simp [hk, he, Ne.symm he]

theorem remove_removed (l : Ledger) (id : ReservationId) :
    (l.remove id).1 = (l.get? id).map Reservation.ended := by
  unfold remove
  cases l.get? id <;> rfl

/-- What is handed back: the reservations that were there, now ended. -/
theorem removeAll_removed (h : l.Sound) {ids : List ReservationId} (hn : ids.Nodup) :
    (l.removeAll ids).1 = (ids.filterMap l.get?).map Reservation.ended := by
  induction ids generalizing l with
  | nil => rfl
  | cons id ids ih =>
    rw [List.nodup_cons] at hn
    obtain ⟨h₁, hg₁⟩ := remove_ledger h id
    have hrest : ids.filterMap (l.remove id).2.get? = ids.filterMap l.get? := by
      apply List.filterMap_congr
      intro k hk
      rw [hg₁, if_neg]
      rintro rfl
      exact hn.1 hk
    unfold removeAll
    simp only [remove_removed, ih h₁ hn.2, hrest]
    cases hr : l.get? id <;> simp [hr]

theorem mem_ids_where (h : l.Sound) {p : Reservation → Bool} {id : ReservationId} :
    id ∈ (l.reservations.values.filter p).map Reservation.id ↔ (l.get? id).any p = true :=
  Table.mem_keys_where fun _ _ => h.id_eq

theorem removeWhere_ledger (h : l.Sound) (p : Reservation → Bool) :
    (l.removeWhere p).2.Sound ∧
      ∀ k, (l.removeWhere p).2.get? k = if (l.get? k).any p then none else l.get? k := by
  obtain ⟨h₁, hg⟩ := removeAll_ledger h ((l.reservations.values.filter p).map Reservation.id)
  refine ⟨h₁, fun k => ?_⟩
  unfold removeWhere
  rw [hg]
  by_cases hk : (l.get? k).any p = true
  · rw [if_pos ((mem_ids_where h).2 hk), if_pos hk]
  · rw [if_neg fun hm => hk ((mem_ids_where h).1 hm), if_neg hk]

theorem removeWhere_removed (h : l.Sound) (p : Reservation → Bool) :
    (l.removeWhere p).1 = (l.reservations.values.filter p).map Reservation.ended := by
  unfold removeWhere
  rw [removeAll_removed h (Table.keys_where_nodup (fun _ _ => h.id_eq) p)]
  exact congrArg (List.map Reservation.ended) (Table.filterMap_keys_where (fun _ _ => h.id_eq) p)

theorem mem_removeWhere (h : l.Sound) {p : Reservation → Bool} {t : Reservation} :
    t ∈ (l.removeWhere p).1 ↔ ∃ r, l.get? r.id = some r ∧ p r = true ∧ t = r.ended := by
  rw [removeWhere_removed h, List.mem_map]
  refine exists_congr fun r => ?_
  rw [← and_assoc, eq_comm]
  exact and_congr_left fun _ => Table.mem_values_where fun _ _ => h.id_eq

theorem removeWhere_ids (h : l.Sound) (p : Reservation → Bool) :
    (l.removeWhere p).1.map Reservation.id =
      (l.reservations.values.filter p).map Reservation.id := by
  rw [removeWhere_removed h, List.map_map]
  rfl

theorem mem_removeWhere_ids (h : l.Sound) {p : Reservation → Bool} {id : ReservationId} :
    id ∈ (l.removeWhere p).1.map Reservation.id ↔ (l.get? id).any p = true := by
  rw [removeWhere_ids h, mem_ids_where h]

theorem removeWhere_ids_nodup (h : l.Sound) (p : Reservation → Bool) :
    ((l.removeWhere p).1.map Reservation.id).Nodup := by
  rw [removeWhere_ids h]
  exact Table.keys_where_nodup (fun _ _ => h.id_eq) p

theorem removeWhere_resources (h : l.Sound) (p : Reservation → Bool) :
    (l.removeWhere p).1.flatMap Reservation.resources =
      (l.reservations.values.filter p).flatMap Reservation.resources := by
  rw [removeWhere_removed h, List.flatMap_map]
  rfl

end ClusterBroker.Ledger
