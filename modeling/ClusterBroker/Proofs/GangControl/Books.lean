import ClusterBroker.GangControl
import ClusterBroker.Proofs.DelayQueue
import ClusterBroker.Proofs.Ledger.Batch

/-!
# The books of the controller

What the controller knows, what it counts as submitted and what waits, after each of its
operations. Whatever strikes reservations out, for whatever reason, is described by `Struck`.
-/
namespace ClusterBroker.GangControl

variable {c c' c'' : GangControl}

def waiting (c : GangControl) : List ReservationId := c.backoff.payloads

/-- What waits is known, and marked as waiting. -/
def Tidy (c : GangControl) : Prop :=
  ∀ id ∈ c.waiting, ∃ r, c.known.get? id = some r ∧ r.status = .backedOff

/-- `c'` is `c` with these reservations struck out, wherever they were. -/
structure Struck (ids : List ReservationId) (c c' : GangControl) : Prop where
  known : ∀ k, c'.known.get? k = if k ∈ ids then none else c.known.get? k
  submitted : ∀ k, c'.submitted.get? k = if k ∈ ids then none else c.submitted.get? k
  waiting : c'.waiting = c.waiting.filter fun k => k ∉ ids

theorem Struck.refl (c : GangControl) : Struck [] c c :=
  ⟨fun _ => rfl, fun _ => rfl, by simp⟩

theorem Struck.of_known {ids : List ReservationId} (h : Struck ids c c') {k : ReservationId}
    {r : Reservation} (hr : c'.known.get? k = some r) : k ∉ ids ∧ c.known.get? k = some r := by
  rw [h.known] at hr
  split at hr
  next => simp at hr
  next hn => exact ⟨hn, hr⟩

theorem Struck.trans {ids ids' : List ReservationId} (h : Struck ids c c')
    (h' : Struck ids' c' c'') : Struck (ids ++ ids') c c'' := by
  refine ⟨fun k => ?_, fun k => ?_, ?_⟩
  · rw [h'.known, h.known]
    by_cases hk : k ∈ ids' <;> simp [hk]
  · rw [h'.submitted, h.submitted]
    by_cases hk : k ∈ ids' <;> simp [hk]
  · rw [h'.waiting, h.waiting, List.filter_filter]
    apply List.filter_congr
    intro k _
    simp [Bool.and_comm]

theorem Struck.tidy {ids : List ReservationId} (h : Struck ids c c') (ht : c.Tidy) :
    c'.Tidy := by
  intro id hid
  rw [h.waiting, List.mem_filter] at hid
  obtain ⟨hw, hn⟩ := hid
  rw [h.known, if_neg (by simpa using hn)]
  exact ht id hw

/-! ### Striking out -/

theorem forget_struck (h : c.Tidy) (id : ReservationId) : Struck [id] c (c.forget id).2 := by
  have hsub : ∀ k, (c.submitted.remove id).get? k =
      if k ∈ [id] then none else c.submitted.get? k := by
    intro k
    unfold KeySet.remove
    rw [Table.get?_erase]
    simp [eq_comm]
  have hstay : ∀ {p : ReservationId → Bool}, (∀ k ∈ c.waiting, p k = true) →
      c.waiting = c.waiting.filter p := fun hp => (List.filter_eq_self.2 hp).symm
  unfold forget
  dsimp only
  cases hr : c.known.get? id with
  | none =>
    refine ⟨fun k => ?_, hsub, hstay fun k hk => ?_⟩
    · by_cases hk : k = id
      · subst hk
        simpa using hr
      · simp [hk]
    · have hne : k ≠ id := by
        rintro rfl
        obtain ⟨r, hr', _⟩ := h k hk
        rw [hr] at hr'
        simp at hr'
      simpa using hne
  | some r =>
    have hknown : ∀ k, (c.known.erase id).get? k =
        if k ∈ [id] then none else c.known.get? k := by
      intro k
      rw [Table.get?_erase]
      simp [eq_comm]
    dsimp only
    split
    next =>
      refine ⟨hknown, hsub, ?_⟩
      unfold waiting noteWaiting
      rw [DelayQueue.payloads_filter]
      simp
    next hs =>
      refine ⟨hknown, hsub, hstay fun k hk => ?_⟩
      have hne : k ≠ id := by
        rintro rfl
        obtain ⟨s, hs', hb⟩ := h k hk
        rw [hr] at hs'
        exact hs (Option.some.inj hs' ▸ hb)
      simpa using hne

theorem forgetAll_struck (h : c.Tidy) (ids : List ReservationId) :
    Struck ids c (forgetAll ids c).2 := by
  induction ids generalizing c with
  | nil => exact .refl c
  | cons id ids ih =>
    have h₁ := forget_struck h id
    exact h₁.trans (ih (h₁.tidy h))

theorem forget_fst (id : ReservationId) (c : GangControl) : (c.forget id).1 = c.known.get? id := by
  unfold forget
  dsimp only
  split
  next h => exact h.symm
  next h =>
    split
    · exact h.symm
    · exact h.symm

/-- What is struck out is handed back as it was known. -/
theorem Tidy.forgetAll_fst (h : c.Tidy) {ids : List ReservationId} (hn : ids.Nodup) :
    (forgetAll ids c).1 = ids.filterMap c.known.get? := by
  induction ids generalizing c with
  | nil => rfl
  | cons id ids ih =>
    obtain ⟨hnot, hn⟩ := List.nodup_cons.1 hn
    have hs := forget_struck h id
    have hrest : ids.filterMap (c.forget id).2.known.get? = ids.filterMap c.known.get? := by
      apply List.filterMap_congr
      intro k hk
      have hne : k ∉ [id] := by
        intro he
        exact hnot (List.mem_singleton.1 he ▸ hk)
      rw [hs.known, if_neg hne]
    unfold forgetAll
    dsimp only
    rw [forget_fst, ih (hs.tidy h) hn, hrest]
    cases hr : c.known.get? id <;> simp [hr]

theorem mem_known_where (hid : ∀ {id r}, c.known.get? id = some r → r.id = id)
    {p : Reservation → Bool} {k : ReservationId} :
    k ∈ (c.known.values.filter p).map Reservation.id ↔ (c.known.get? k).any p = true :=
  Table.mem_keys_where fun _ _ => hid

theorem Tidy.forgetWhere_fst (h : c.Tidy) (hid : ∀ {id r}, c.known.get? id = some r → r.id = id)
    (p : Reservation → Bool) : (c.forgetWhere p).1 = c.known.values.filter p := by
  unfold forgetWhere
  rw [h.forgetAll_fst (Table.keys_where_nodup (fun _ _ => hid) p),
    Table.filterMap_keys_where fun _ _ => hid]

theorem Tidy.mem_forgetWhere (h : c.Tidy) (hid : ∀ {id r}, c.known.get? id = some r → r.id = id)
    {p : Reservation → Bool} {r : Reservation} :
    r ∈ (c.forgetWhere p).1 ↔ c.known.get? r.id = some r ∧ p r = true := by
  rw [h.forgetWhere_fst hid]
  exact Table.mem_values_where fun _ _ => hid

theorem Tidy.forgetWhere_ids_nodup (h : c.Tidy)
    (hid : ∀ {id r}, c.known.get? id = some r → r.id = id) (p : Reservation → Bool) :
    ((c.forgetWhere p).1.map Reservation.id).Nodup := by
  rw [h.forgetWhere_fst hid]
  exact Table.keys_where_nodup (fun _ _ => hid) p

theorem forgetWhere_struck (h : c.Tidy) (hid : ∀ {id r}, c.known.get? id = some r → r.id = id)
    (p : Reservation → Bool) : ∃ ids, Struck ids c (c.forgetWhere p).2 ∧
      ∀ k, k ∈ ids ↔ (c.known.get? k).any p = true :=
  ⟨_, forgetAll_struck h _, fun _ => mem_known_where hid⟩

theorem learn_struck (h : c.Tidy) (clock : Time) (e : Event) :
    Struck e.settled c (c.learn clock e) := by
  unfold learn
  dsimp only
  split
  · have hs := forgetAll_struck (c := { c with lastAllocation := clock }) h
      (e.allocatedReservations ++ e.rejectedReservations)
    exact ⟨hs.known, hs.submitted, hs.waiting⟩
  · exact forgetAll_struck h _

theorem foldl_learn_struck (h : c.Tidy) (clock : Time) (es : List Event) :
    Struck (settledIn es) c (es.foldl (fun c e => c.learn clock e) c) := by
  induction es generalizing c with
  | nil => exact .refl c
  | cons e es ih =>
    have h₁ := learn_struck h clock e
    exact h₁.trans (ih (h₁.tidy h))

/-! ### Putting into the queue -/

theorem drawDelay_eq (c : GangControl) : ∃ d, c.drawDelay.2 = { c with dice := d } := by
  unfold drawDelay
  dsimp only
  split
  · exact ⟨c.dice, rfl⟩
  · exact ⟨_, rfl⟩

theorem wait_books (now : Time) (r : Reservation) (c : GangControl) :
    (c.wait now r).known = c.known.insert r.id { r with status := .backedOff } ∧
      (c.wait now r).submitted = c.submitted ∧ (c.wait now r).waiting = r.id :: c.waiting := by
  obtain ⟨d, hd⟩ := drawDelay_eq c
  unfold wait
  dsimp only
  rw [hd]
  exact ⟨rfl, rfl, rfl⟩

theorem stepBack_eq_wait {id : ReservationId} {r : Reservation} (h : c.known.get? id = some r)
    (now : Time) : c.stepBack now id = c.wait now r.reset := by
  unfold stepBack
  rw [h]

/-! ### Taking out of the queue -/

/-- What becomes of ids that are drained: they are submitted again, as they were first placed. -/
theorem go_eq {ids : List ReservationId} (hn : ids.Nodup)
    (hk : ∀ id ∈ ids, ∃ r, c.known.get? id = some r ∧ r.id = id) :
    (wake.go ids c).1.map Reservation.id = ids ∧
      (∀ r ∈ (wake.go ids c).1, ∃ s, c.known.get? r.id = some s ∧ r = s.reset) ∧
      (∀ k, (wake.go ids c).2.known.get? k =
        if k ∈ ids then (c.known.get? k).map Reservation.reset else c.known.get? k) ∧
      (∀ k, (wake.go ids c).2.submitted.get? k =
        if k ∈ ids then some () else c.submitted.get? k) ∧
      (wake.go ids c).2.backoff = c.backoff := by
  induction ids generalizing c with
  | nil => simp [wake.go]
  | cons id ids ih =>
    rw [List.nodup_cons] at hn
    obtain ⟨r, hr, hrid⟩ := hk id (List.mem_cons_self ..)
    have hrid : r.reset.id = id := hrid
    have hrest : ∀ k ∈ ids, (c.submit r.reset).known.get? k = c.known.get? k := by
      intro k hkm
      unfold submit
      rw [Table.get?_insert, if_neg]
      rintro rfl
      exact hn.1 (hrid ▸ hkm)
    obtain ⟨hids, hmem, hknown, hsub, hback⟩ := ih (c := c.submit r.reset) hn.2 fun k hkm => by
      rw [hrest k hkm]
      exact hk k (List.mem_cons_of_mem id hkm)
    unfold wake.go
    simp only [hr]
    refine ⟨?_, fun s hs => ?_, fun k => ?_, fun k => ?_, hback⟩
    · rw [List.map_cons, hids, hrid]
    · rcases List.mem_cons.1 hs with rfl | hs
      · rw [hrid]
        exact ⟨r, hr, rfl⟩
      · have hin : s.id ∈ ids := hids ▸ List.mem_map_of_mem hs
        rw [← hrest s.id hin]
        exact hmem s hs
    · rw [hknown]
      by_cases hkm : k ∈ ids
      · rw [if_pos hkm, if_pos (List.mem_cons_of_mem id hkm), hrest k hkm]
      · rw [if_neg hkm]
        unfold submit
        rw [Table.get?_insert, hrid]
        by_cases he : id = k
        · subst he
          simp [hr]
        · rw [if_neg he, if_neg (by simp [hkm, Ne.symm he])]
    · rw [hsub]
      unfold submit KeySet.add
      rw [Table.get?_insert, hrid]
      by_cases hkm : k ∈ ids
      · simp [hkm]
      · by_cases he : id = k
        · simp [he]
        · simp [hkm, he, Ne.symm he]

end ClusterBroker.GangControl
