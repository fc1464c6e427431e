import ClusterBroker.Proofs.Ledger.Change

/-!
# Batches of changes

A ledger succeeds another one if it came from it by changes alone: nothing is tracked that was
not tracked before, what is left has only advanced, and the reservations that stopped waiting
are those named as allocated or rejected, each once. One change does this, so a batch does, and
so do batches one after the other. Events that are merged for their handle, or dropped because
they say nothing, name the same reservations.
-/
namespace ClusterBroker

/-- The reservations that events report as allocated or rejected. -/
def settledIn (es : List Event) : List ReservationId := es.flatMap Event.settled

@[simp] theorem settledIn_nil : settledIn [] = [] := rfl

@[simp] theorem settledIn_cons (e : Event) (es : List Event) :
    settledIn (e :: es) = e.settled ++ settledIn es := rfl

@[simp] theorem settledIn_append (es fs : List Event) :
    settledIn (es ++ fs) = settledIn es ++ settledIn fs := List.flatMap_append

theorem Event.settled_eq_nil {e : Event} (h : e.isEmpty = true) : e.settled = [] := by
  unfold Event.isEmpty at h
  simp only [Bool.and_eq_true, List.isEmpty_iff] at h
  simp [settled, h]

theorem settledIn_filter (es : List Event) :
    settledIn (es.filter fun e => !e.isEmpty) = settledIn es := by
  induction es with
  | nil => rfl
  | cons e r ih =>
    cases he : e.isEmpty with
    | true => simp [he, ih, Event.settled_eq_nil he]
    | false => simp [he, ih]

theorem count_settledIn_addTo (f : Event) (es : List Event) (id : ReservationId) :
    (settledIn (f.addTo es)).count id = f.settled.count id + (settledIn es).count id := by
  induction es with
  | nil => simp [Event.addTo]
  | cons e r ih =>
    unfold Event.addTo
    split
    · simp only [settledIn_cons, List.count_append, Event.settled, Event.append]
      omega
    · simp only [settledIn_cons, List.count_append, ih]
      omega

namespace Ledger

structure Succeeds (l : Ledger) (ids : List ReservationId) (l' : Ledger) : Prop where
  sound : l'.Sound
  origin : ∀ {id s}, l'.get? id = some s → ∃ r, l.get? id = some r ∧ r.Advances s
  settled : ∀ id, ids.count id + (l'.isOpen id).toNat = (l.isOpen id).toNat

theorem Succeeds.refl {l : Ledger} (h : l.Sound) : l.Succeeds [] l :=
  ⟨h, fun {_ s} hs => ⟨s, hs, .refl s⟩, fun id => by simp⟩

theorem Succeeds.trans {l l' l'' : Ledger} {ids ids' : List ReservationId}
    (h : l.Succeeds ids l') (h' : l'.Succeeds ids' l'') : l.Succeeds (ids ++ ids') l'' := by
  refine ⟨h'.sound, fun {id t} ht => ?_, fun id => ?_⟩
  · obtain ⟨s, hs, hst⟩ := h'.origin ht
    obtain ⟨r, hr, hrs⟩ := h.origin hs
    exact ⟨r, hr, hrs.trans hst⟩
  · have h₁ := h.settled id
    have h₂ := h'.settled id
    rw [List.count_append]
    omega

/-- Only how often a reservation is named matters. -/
theorem Succeeds.of_count {l l' : Ledger} {ids ids' : List ReservationId} (h : l.Succeeds ids l')
    (hc : ∀ id, ids'.count id = ids.count id) : l.Succeeds ids' l' :=
  ⟨h.sound, h.origin, fun id => by rw [hc id]; exact h.settled id⟩

theorem Succeeds.of_mem {l l' : Ledger} {ids : List ReservationId} {id : ReservationId}
    (h : l.Succeeds ids l') (hid : id ∈ ids) :
    l.isOpen id = true ∧ l'.isOpen id = false := by
  have hc := h.settled id
  have hpos := List.count_pos_iff.2 hid
  cases ho : l.isOpen id <;> cases ho' : l'.isOpen id <;> simp_all

theorem Succeeds.isOpen_eq {l l' : Ledger} {ids : List ReservationId} {id : ReservationId}
    (h : l.Succeeds ids l') (hid : id ∉ ids) :
    l'.isOpen id = l.isOpen id := by
  have hc := h.settled id
  rw [List.count_eq_zero.2 hid] at hc
  cases ho : l.isOpen id <;> cases ho' : l'.isOpen id <;> simp_all

theorem Applied.succeeds {now : Time} {l l' : Ledger} {c : Change} {e : Option Effect}
    (h : l.Sound) (ha : Applied now l c l' e) : l.Succeeds (settledBy e) l' :=
  ⟨ha.sound h, ha.origin h, ha.settled h⟩

/-! ### Through a batch -/

@[simp] theorem Batch.step_ledger (now : Time) (b : Batch) (c : Change) :
    (b.step now c).ledger = (b.ledger.apply now c).1 := by
  unfold step note
  split <;> rfl

theorem Batch.count_step_events (now : Time) (b : Batch) (c : Change) (id : ReservationId) :
    (settledIn (b.step now c).events).count id =
      (settledBy (b.ledger.apply now c).2).count id + (settledIn b.events).count id := by
  unfold step note
  split
  next h => simp [settledBy, h]
  next e h =>
    cases he : e.event with
    | none => simp [settledBy, Effect.settled, h, he]
    | some ev => simp [settledBy, Effect.settled, h, he, count_settledIn_addTo]

/-- The outcome of a batch before events that say nothing are dropped. -/
def midway (now : Time) (cs : List Change) (l : Ledger) : Batch :=
  cs.foldl (Batch.step now) { ledger := l }

theorem reconcile_ledger (now : Time) (cs : List Change) (l : Ledger) :
    (l.reconcile now cs).ledger = (l.midway now cs).ledger := rfl

theorem Batch.foldl_succeeds (now : Time) (cs : List Change) {l : Ledger} {b : Batch}
    (h : l.Succeeds (settledIn b.events) b.ledger) :
    l.Succeeds (settledIn (cs.foldl (Batch.step now) b).events)
      (cs.foldl (Batch.step now) b).ledger := by
  induction cs generalizing b with
  | nil => exact h
  | cons c cs ih =>
    rw [List.foldl_cons]
    apply ih
    have hc := (apply_applied h.sound now c).succeeds h.sound
    rw [Batch.step_ledger]
    refine (h.trans hc).of_count fun id => ?_
    rw [count_step_events, List.count_append]
    omega

theorem midway_succeeds {l : Ledger} (h : l.Sound) (now : Time) (cs : List Change) :
    l.Succeeds (settledIn (l.midway now cs).events) (l.midway now cs).ledger :=
  Batch.foldl_succeeds now cs (b := { ledger := l }) (.refl h)

/-- A batch about other resources leaves a reservation as it is. -/
theorem reconcile_get?_of_not_mem {l : Ledger} (h : l.Sound) (now : Time) {cs : List Change}
    {r : Reservation} (hr : l.get? r.id = some r) (hn : ∀ c ∈ cs, c.resource ∉ r.resourceIds) :
    (l.reconcile now cs).ledger.get? r.id = some r := by
  have hfold : ∀ (cs : List Change) (b : Batch), b.ledger.Sound → b.ledger.get? r.id = some r →
      (∀ c ∈ cs, c.resource ∉ r.resourceIds) →
      (cs.foldl (Batch.step now) b).ledger.get? r.id = some r := by
    intro cs
    induction cs with
    | nil => exact fun b _ hb _ => hb
    | cons c cs ih =>
      intro b hs hb hn
      have ha := apply_applied hs now c
      rw [List.foldl_cons]
      apply ih
      · rw [Batch.step_ledger]
        exact ha.sound hs
      · rw [Batch.step_ledger]
        exact ha.get?_of_not_mem hs hb (hn c (List.mem_cons_self ..))
      · exact fun c' hc' => hn c' (List.mem_cons_of_mem c hc')
  rw [reconcile_ledger]
  exact hfold cs { ledger := l } h hr hn

theorem reconcile_succeeds {l : Ledger} (h : l.Sound) (now : Time) (cs : List Change) :
    l.Succeeds (settledIn (l.reconcile now cs).events) (l.reconcile now cs).ledger := by
  have hm := midway_succeeds h now cs
  have he : settledIn (l.reconcile now cs).events = settledIn (l.midway now cs).events :=
    settledIn_filter _
  rw [he]
  exact hm

end Ledger

end ClusterBroker
