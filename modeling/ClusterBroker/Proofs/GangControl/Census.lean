import ClusterBroker.Proofs.GangControl.Neat

/-!
# The census of reservations

A reservation is live while the controller knows it or the ledger still waits for its
allocations. `Goes` says of a stretch of a run that every reservation that stopped being live was
named once as allocated or rejected, that nothing else was named, and that whatever is there
under an id afterwards has the claim of what was there before. The ids for which this is said are
given by a condition, since a client's own calls begin and end reservations without notice.
-/
namespace ClusterBroker.GangControl

variable {c c' c'' : GangControl} {l l' l'' : Ledger}

def live (c : GangControl) (l : Ledger) (id : ReservationId) : Bool :=
  (c.known.get? id).isSome || l.isOpen id

/-- The controller or the ledger has this under the id. -/
def Has (c : GangControl) (l : Ledger) (id : ReservationId) (r : Reservation) : Prop :=
  c.known.get? id = some r ∨ l.get? id = some r

structure Goes (p : ReservationId → Prop) (c : GangControl) (l : Ledger)
    (ids : List ReservationId) (c' : GangControl) (l' : Ledger) : Prop where
  census : ∀ {id}, p id → ids.count id + (live c' l' id).toNat = (live c l id).toNat
  origin : ∀ {id s}, p id → Has c' l' id s → ∃ r, Has c l id r ∧ s.claim = r.claim

theorem Goes.refl (p : ReservationId → Prop) (c : GangControl) (l : Ledger) :
    Goes p c l [] c l :=
  ⟨fun _ => by simp, fun {_ s} _ hs => ⟨s, hs, rfl⟩⟩

theorem Goes.trans {p : ReservationId → Prop} {ids ids' : List ReservationId}
    (h : Goes p c l ids c' l') (h' : Goes p c' l' ids' c'' l'') :
    Goes p c l (ids ++ ids') c'' l'' := by
  refine ⟨fun {id} hp => ?_, fun {id t} hp ht => ?_⟩
  · have h₁ := h.census hp
    have h₂ := h'.census hp
    rw [List.count_append]
    omega
  · obtain ⟨s, hs, hts⟩ := h'.origin hp ht
    obtain ⟨r, hr, hsr⟩ := h.origin hp hs
    exact ⟨r, hr, hts.trans hsr⟩

theorem Goes.mono {p q : ReservationId → Prop} {ids : List ReservationId}
    (h : Goes p c l ids c' l') (hq : ∀ id, q id → p id) : Goes q c l ids c' l' :=
  ⟨fun hp => h.census (hq _ hp), fun hp hs => h.origin (hq _ hp) hs⟩

theorem live_of_known {id : ReservationId} {r : Reservation} (h : c.known.get? id = some r) :
    live c l id = true := by
  simp [live, h]

theorem live_of_unknown {id : ReservationId} (h : c.known.get? id = none) :
    live c l id = l.isOpen id := by
  simp [live, h]

/-! ### What is not noticed -/

/-- Two controllers that know the same, whatever they make of it. -/
def SameClaims (c c' : GangControl) : Prop :=
  ∀ k, (c'.known.get? k).map Reservation.claim = (c.known.get? k).map Reservation.claim

theorem SameClaims.isSome_eq (h : SameClaims c c') (k : ReservationId) :
    (c'.known.get? k).isSome = (c.known.get? k).isSome := by
  have hk := congrArg Option.isSome (h k)
  rw [Option.isSome_map, Option.isSome_map] at hk
  exact hk

theorem SameClaims.trans (h : SameClaims c c') (h' : SameClaims c' c'') : SameClaims c c'' :=
  fun k => (h' k).trans (h k)

/-- The ledger may lose what the controller goes on knowing. -/
theorem Goes.of_same (p : ReservationId → Prop) (h : SameClaims c c')
    (hl : ∀ k, l'.get? k = l.get? k ∨ l'.get? k = none ∧ (c.known.get? k).isSome = true) :
    Goes p c l [] c' l' := by
  refine ⟨fun {id} _ => ?_, fun {id s} _ hs => ?_⟩
  · rcases hl id with he | ⟨-, hk⟩
    · simp [live, h.isSome_eq, Ledger.isOpen, he]
    · simp [live, h.isSome_eq, hk]
  · rcases hs with hs | hs
    · have hm := h id
      rw [hs, Option.map_some] at hm
      obtain ⟨r, hr, hc⟩ := Option.map_eq_some_iff.1 hm.symm
      exact ⟨r, .inl hr, hc.symm⟩
    · rcases hl id with he | ⟨he, -⟩
      · exact ⟨s, .inr (he ▸ hs), rfl⟩
      · rw [he] at hs
        simp at hs

theorem draw_sameClaims {id : ReservationId} {r : Reservation} (hr : c.known.get? id = some r)
    (d : Dice) : SameClaims c { c with
      dice := d, submitted := c.submitted.remove id,
      known := c.known.insert id { r with status := .backedOff } } := by
  intro k
  rw [Table.get?_insert]
  split
  next he => rw [← he, hr]; rfl
  next => rfl

theorem pick_sameClaims (wanted n : Nat) (c : GangControl) : SameClaims c (c.pick wanted n).2 := by
  induction n generalizing c wanted with
  | zero => exact fun _ => rfl
  | succ n ih =>
    unfold pick
    split
    next => exact fun _ => rfl
    next =>
      dsimp only
      split
      next => exact fun _ => rfl
      next id _ =>
        split
        next =>
          exact ih wanted { c with dice := (c.dice.draw c.submitted.size).2
                                   submitted := c.submitted.remove id }
        next r hr =>
          exact (draw_sameClaims hr (c.dice.draw c.submitted.size).2).trans
            (ih (wanted - r.resources.length) _)

theorem stepBack_sameClaims {id : ReservationId} {r : Reservation}
    (hr : c.known.get? id = some r) (hid : r.id = id) (now : Time) :
    SameClaims c (c.stepBack now id) := by
  intro k
  rw [stepBack_eq_wait hr, (wait_books now r.reset c).1, Table.get?_insert]
  have hrid : r.reset.id = id := hid
  split
  next he =>
    rw [← he, Option.map_some, Reservation.status_claim, Reservation.reset_claim, hrid, hr,
      Option.map_some]
  next => rfl

theorem wake_sameClaims (h : Agrees c l [] []) (now : Time) : SameClaims c (c.wake now).2 := by
  intro k
  rw [(h.neat.wake_books now).2.1]
  split
  next =>
    cases hr : c.known.get? k with
    | none => rfl
    | some r => simp
  next => rfl

/-! ### What is noticed -/

theorem Goes.batch (p : ReservationId → Prop) {ids : List ReservationId} (hl : l.Succeeds ids l')
    (hc : Struck ids c c') : Goes p c l ids c' l' := by
  refine ⟨fun {id} _ => ?_, fun {id s} _ hs => ?_⟩
  · have hs := hl.settled id
    by_cases hid : id ∈ ids
    · obtain ⟨ho, ho'⟩ := hl.of_mem hid
      rw [ho, ho'] at hs
      simp only [live, hc.known, hid, if_true, Option.isSome_none, Bool.false_or, ho, ho',
        Bool.or_true]
      exact hs
    · rw [List.count_eq_zero.2 hid]
      simp [live, hc.known, hid, hl.isOpen_eq hid]
  · rcases hs with hs | hs
    · rw [hc.known] at hs
      split at hs
      next => simp at hs
      next => exact ⟨s, .inl hs, rfl⟩
    · obtain ⟨r, hr, hadv⟩ := hl.origin hs
      exact ⟨r, .inr hr, hadv.claim_eq⟩

/-- A gang that the controller knows is tracked from now on. -/
theorem Goes.add (p : ReservationId → Prop) {r : Reservation} (hk : c.known.get? r.id = some r) :
    Goes p c l [] c (l.add r) := by
  refine ⟨fun {id} _ => ?_, fun {id s} _ hs => ?_⟩
  · unfold live
    rw [Ledger.isOpen_add]
    split
    next he => simp [← he, hk]
    next => simp
  · rcases hs with hs | hs
    · exact ⟨s, .inl hs, rfl⟩
    · rw [Ledger.get?_add] at hs
      split at hs
      next he =>
        rw [← Option.some.inj hs, ← he]
        exact ⟨r, .inl hk, rfl⟩
      next => exact ⟨s, .inr hs, rfl⟩

/-- What happens to a single id is nothing to the others. -/
theorem Goes.other {id : ReservationId} (hk : ∀ k, k ≠ id → c'.known.get? k = c.known.get? k)
    (hl : ∀ k, k ≠ id → l'.get? k = l.get? k) : Goes (· ≠ id) c l [] c' l' := by
  refine ⟨fun {k} hne => ?_, fun {k s} hne hs => ?_⟩
  · simp [live, Ledger.isOpen, hk k hne, hl k hne]
  · refine ⟨s, ?_, rfl⟩
    rcases hs with hs | hs
    · exact .inl (hk k hne ▸ hs)
    · exact .inr (hl k hne ▸ hs)

/-- A live reservation is given up, and that is said. -/
theorem Goes.abandon (p : ReservationId → Prop) {id : ReservationId} (h : live c l id = true)
    (hc : Struck [id] c c') (hl : ∀ k, l'.get? k = if id = k then none else l.get? k) :
    Goes p c l [id] c' l' := by
  have hk : ∀ k, k ≠ id → c'.known.get? k = c.known.get? k := by
    intro k hne
    rw [hc.known, if_neg (by simpa using hne)]
  have hl' : ∀ k, k ≠ id → l'.get? k = l.get? k := by
    intro k hne
    rw [hl, if_neg (Ne.symm hne)]
  have hother : Goes (· ≠ id) c l [] c' l' := .other hk hl'
  have hgone : c'.known.get? id = none ∧ l'.get? id = none :=
    ⟨by rw [hc.known, if_pos (List.mem_singleton_self id)], by rw [hl, if_pos rfl]⟩
  refine ⟨fun {k} _ => ?_, fun {k s} _ hs => ?_⟩
  · by_cases hne : k = id
    · subst hne
      rw [h]
      simp [live, hgone.1, Ledger.isOpen_of_none hgone.2]
    · have hcen := hother.census hne
      rw [List.count_nil] at hcen
      rw [List.count_eq_zero.2 (by simpa using hne)]
      exact hcen
  · by_cases hne : k = id
    · subst hne
      rcases hs with hs | hs
      · rw [hgone.1] at hs
        simp at hs
      · rw [hgone.2] at hs
        simp at hs
    · exact hother.origin hne hs

/-- A release is no news about what it does not name. -/
theorem Goes.release {ids : List ReservationId} {q : Reservation → Bool} (hc : Struck ids c c')
    (hids : ∀ {k r}, c.known.get? k = some r → (k ∈ ids ↔ q r = true))
    (hl : ∀ k, l'.get? k = if (l.get? k).any q then none else l.get? k) :
    Goes (fun id => ∀ r, Has c l id r → q r = false) c l [] c' l' := by
  have hsame : ∀ id, (∀ r, Has c l id r → q r = false) →
      c'.known.get? id = c.known.get? id ∧ l'.get? id = l.get? id := by
    intro id hp
    constructor
    · rw [hc.known]
      split
      next hin =>
        cases hr : c.known.get? id with
        | none => rfl
        | some r =>
          have hq := (hids hr).1 hin
          rw [hp r (.inl hr)] at hq
          simp at hq
      next => rfl
    · rw [hl]
      cases hr : l.get? id with
      | none => rfl
      | some r => simp [hp r (.inr hr)]
  refine ⟨fun {id} hp => ?_, fun {id s} hp hs => ?_⟩
  · obtain ⟨hk, hg⟩ := hsame id hp
    simp [live, Ledger.isOpen, hk, hg]
  · obtain ⟨hk, hg⟩ := hsame id hp
    refine ⟨s, ?_, rfl⟩
    rcases hs with hs | hs
    · exact .inl (hk ▸ hs)
    · exact .inr (hg ▸ hs)

end ClusterBroker.GangControl
