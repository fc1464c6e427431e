import ClusterBroker.Proofs.Ledger.Intake

/-!
# Completed gangs

A batch completes a gang if the gang waits for allocations before it and has all of them after
it. The events of the batch tell which gangs these are: an event lists the resources of a gang
only together with the gang, and a reservation only together with a resource of it. Allocations
that leave a gang incomplete are not spoken of.
-/
namespace ClusterBroker

/-! ### Merged events -/

theorem forall_addTo {p : Event → Prop} (hp : ∀ {e f : Event}, p e → p f → p (e.append f))
    {f : Event} (hf : p f) {es : List Event} (h : ∀ e ∈ es, p e) : ∀ e ∈ f.addTo es, p e := by
  induction es with
  | nil =>
    intro e he
    rw [List.mem_singleton.1 he]
    exact hf
  | cons e es ih =>
    rw [List.forall_mem_cons] at h
    unfold Event.addTo
    split
    · rw [List.forall_mem_cons]
      exact ⟨hp h.1 hf, h.2⟩
    · rw [List.forall_mem_cons]
      exact ⟨h.1, ih h.2⟩

theorem mem_flatMap_addTo {α : Type} [DecidableEq α] (p : Event → List α)
    (hp : ∀ e f, p (Event.append e f) = p e ++ p f) {f : Event} {es : List Event} {a : α} :
    a ∈ (f.addTo es).flatMap p ↔ a ∈ es.flatMap p ∨ a ∈ p f := by
  rw [← List.count_pos_iff, count_flatMap_addTo p hp, List.count_pos_iff, List.flatMap_append,
    List.mem_append]
  simp

/-- An event that speaks of what this ledger tracks, and of its gangs as wholes. -/
structure Event.Fits (l : Ledger) (e : Event) : Prop where
  tracked : ∀ x ∈ e.allocated, l.get? x.reservation ≠ none
  listed : ∀ id ∈ e.allocatedReservations, ∃ x ∈ e.allocated, x.reservation = id
  whole : ∀ x ∈ e.allocated, ∀ r, l.get? x.reservation = some r → r.gang = true →
    x.reservation ∈ e.allocatedReservations

theorem Event.Fits.append {l : Ledger} {e f : Event} (he : e.Fits l) (hf : f.Fits l) :
    (e.append f).Fits l := by
  constructor
  · intro x hx
    rcases List.mem_append.1 hx with hx | hx
    · exact he.tracked x hx
    · exact hf.tracked x hx
  · intro id hid
    rcases List.mem_append.1 hid with hid | hid
    · obtain ⟨x, hx, hxid⟩ := he.listed id hid
      exact ⟨x, List.mem_append_left _ hx, hxid⟩
    · obtain ⟨x, hx, hxid⟩ := hf.listed id hid
      exact ⟨x, List.mem_append_right _ hx, hxid⟩
  · intro x hx r hr hg
    rcases List.mem_append.1 hx with hx | hx
    · exact List.mem_append_left _ (he.whole x hx r hr hg)
    · exact List.mem_append_right _ (hf.whole x hx r hr hg)

theorem Event.Fits.of_nothing {l : Ledger} {e : Event} (ha : e.allocated = [])
    (hr : e.allocatedReservations = []) : e.Fits l := by
  constructor
  · rw [ha]
    exact List.forall_mem_nil _
  · rw [hr]
    exact List.forall_mem_nil _
  · rw [ha]
    exact List.forall_mem_nil _

namespace Ledger

variable {now : Time} {l l' : Ledger} {c : Change} {e : Option Effect}

/-! ### One change -/

theorem Batch.step_events (now : Time) (b : Batch) (c : Change) :
    (b.step now c).events =
      (noticed (b.ledger.apply now c).2).foldl (fun es f => f.addTo es) b.events := by
  unfold step note noticed
  cases (b.ledger.apply now c).2 with
  | none => rfl
  | some e =>
    cases he : e.event with
    | none => simp [he]
    | some f => simp [he]

theorem Batch.forall_step {p : Event → Prop} (hp : ∀ {e f : Event}, p e → p f → p (e.append f))
    {b : Batch} (hold : ∀ e ∈ b.events, p e)
    (hnew : ∀ f ∈ noticed (b.ledger.apply now c).2, p f) : ∀ e ∈ (b.step now c).events, p e := by
  rw [step_events]
  revert hnew
  generalize noticed (b.ledger.apply now c).2 = fs
  intro hnew
  generalize b.events = es at hold
  induction fs generalizing es with
  | nil => exact hold
  | cons f fs ih =>
    rw [List.forall_mem_cons] at hnew
    exact ih hnew.2 _ (forall_addTo hp hnew.1 hold)

theorem Batch.mem_step {α : Type} [DecidableEq α] (p : Event → List α)
    (hp : ∀ e f, p (Event.append e f) = p e ++ p f) {b : Batch} {a : α} :
    a ∈ (b.step now c).events.flatMap p ↔
      a ∈ b.events.flatMap p ∨ a ∈ (noticed (b.ledger.apply now c).2).flatMap p := by
  rw [step_events]
  generalize noticed (b.ledger.apply now c).2 = fs
  generalize b.events = es
  induction fs generalizing es with
  | nil => simp
  | cons f fs ih =>
    rw [List.foldl_cons, ih, mem_flatMap_addTo p hp, List.flatMap_cons, List.mem_append, or_assoc]

theorem grantEvent_fits (now : Time) {r : Reservation} (hr : r.Sound) {x : Resource}
    (hx : x ∈ r.resources) (a : Allocation)
    {s : Reservation} (hs : l.get? r.id = some s) (hg : s.gang = r.gang) :
    ∀ f ∈ (r.grantEvent now x.id a x).toList, f.Fits l ∧ f.rejectedReservations = [] ∧
      ∀ id ∈ f.allocatedReservations, id = r.id ∧ (r.grant now x.id a).status = .allocated := by
  have hsound := hr.grant now a (List.mem_map_of_mem hx)
  have hown : ∀ y ∈ (r.grant now x.id a).resources, y.reservation = r.id := by
    intro y hy
    rw [(hsound.owned y hy).1, Reservation.grant_id hr]
  have hone : (x.allocate a).reservation = r.id := (hr.owned x hx).1
  have hfits : ∀ f : Event, (∀ y ∈ f.allocated, y.reservation = r.id) →
      (∀ id ∈ f.allocatedReservations, ∃ y ∈ f.allocated, y.reservation = id) →
      (r.gang = true → r.id ∈ f.allocatedReservations) → f.Fits l := by
    intro f hall hlisted hgang
    refine ⟨fun y hy => ?_, hlisted, fun y hy t ht htg => ?_⟩
    · rw [hall y hy, hs]
      simp
    · rw [hall y hy] at ht ⊢
      rw [hs] at ht
      rw [← Option.some.inj ht, hg] at htg
      exact hgang htg
  intro f hf
  unfold Reservation.grantEvent at hf
  split at hf
  next hst =>
    rw [Option.toList_some, List.mem_singleton] at hf
    subst hf
    refine ⟨hfits _ (fun y hy => ?_) (fun id hid => ?_) fun _ => List.mem_singleton_self _, rfl,
      fun id hid => ⟨List.mem_singleton.1 hid, hst⟩⟩
    · dsimp only at hy
      split at hy
      · exact hown y hy
      · rw [List.mem_singleton.1 hy]
        exact hone
    · rw [List.mem_singleton.1 hid]
      dsimp only
      split
      · exact ⟨_, Reservation.mem_grant hr now a hx, hone⟩
      · exact ⟨_, List.mem_singleton_self _, hone⟩
  next =>
    split at hf
    next => simp at hf
    next hng =>
      rw [Option.toList_some, List.mem_singleton] at hf
      subst hf
      refine ⟨hfits _ (fun y hy => ?_) (List.forall_mem_nil _) (absurd · hng), rfl,
        List.forall_mem_nil _⟩
      rw [List.mem_singleton.1 hy]
      exact hone

/-- What is learnt from one change: a reservation is called allocated if it is complete now, and
rejected if it is gone. -/
theorem Applied.fits (h : l.Sound) (ha : Applied now l c l' e) {m : Ledger}
    (hm : ∀ r, l.get? r.id = some r → ∃ s, m.get? r.id = some s ∧ s.gang = r.gang) :
    ∀ f ∈ noticed e, f.Fits m ∧
      (∀ id ∈ f.allocatedReservations, ∃ s, l'.get? id = some s ∧ s.status = .allocated) ∧
      ∀ id ∈ f.rejectedReservations, l'.get? id = none := by
  cases ha with
  | unknown => simp [noticed]
  | repeated => simp [noticed]
  | illegal => simp [noticed]
  | @reported c r hr =>
    intro f hf
    have hf : f = .ofStatus r.handle c.resource c.status := by simpa [noticed] using hf
    have hn : f.allocated = [] ∧ f.allocatedReservations = [] ∧ f.rejectedReservations = [] := by
      rw [hf]
      unfold Event.ofStatus
      split <;> exact ⟨rfl, rfl, rfl⟩
    refine ⟨.of_nothing hn.1 hn.2.1, ?_, ?_⟩
    · rw [hn.2.1]
      exact List.forall_mem_nil _
    · rw [hn.2.2]
      exact List.forall_mem_nil _
  | @granted id a r x hr hx _ =>
    obtain ⟨hxr, rfl⟩ := Reservation.mem_of_resource? hx
    have hsound := h.sound hr
    intro f hf
    obtain ⟨s, hs, hg⟩ := hm r hr
    obtain ⟨hfits, hrej, hall⟩ := grantEvent_fits now hsound hxr a hs hg f hf
    refine ⟨hfits, fun id hid => ?_, ?_⟩
    · obtain ⟨rfl, hst⟩ := hall id hid
      refine ⟨r.grant now x.id a, ?_, hst⟩
      rw [get?_update, if_pos (Reservation.grant_id hsound now x.id a)]
    · rw [hrej]
      exact List.forall_mem_nil _
  | @tornDown c r b hr =>
    intro f hf
    have hn : f.allocated = [] ∧ f.allocatedReservations = [] ∧
        f.rejectedReservations = [r.id] := by
      rw [show f = _ by simpa [noticed, Reservation.tearDown] using hf]
      cases b <;> exact ⟨rfl, rfl, rfl⟩
    refine ⟨.of_nothing hn.1 hn.2.1, ?_, fun id hid => ?_⟩
    · rw [hn.2.1]
      exact List.forall_mem_nil _
    · rw [hn.2.2, List.mem_singleton] at hid
      subst hid
      rw [get?_drop, if_pos rfl]

/-- A reservation that is called allocated, or is gone, stays so. -/
theorem Applied.final (h : l.Sound) (ha : Applied now l c l' e) (id : ReservationId) :
    ((∃ s, l.get? id = some s ∧ s.status = .allocated) →
      ∃ s, l'.get? id = some s ∧ s.status = .allocated) ∧
    (l.get? id = none → l'.get? id = none) := by
  constructor
  · rintro ⟨s, hs, hst⟩
    have hshut : l.isOpen id = false := by
      rw [isOpen_of_get? hs]
      simp [Reservation.isOpen, hst]
    cases ha with
    | unknown => exact ⟨s, hs, hst⟩
    | repeated => exact ⟨s, hs, hst⟩
    | illegal => exact ⟨s, hs, hst⟩
    | reported => exact ⟨s, hs, hst⟩
    | @granted _ a r x hr hx hn =>
      obtain ⟨hxr, rfl⟩ := Reservation.mem_of_resource? hx
      have hne : r.id ≠ id := by
        rintro rfl
        rw [hs] at hr
        rw [(h.sound hs).allocated_iff.1 hst x (Option.some.inj hr ▸ hxr)] at hn
        simp at hn
      rw [get?_update, Reservation.grant_id (h.sound hr), if_neg hne]
      exact ⟨s, hs, hst⟩
    | @tornDown _ r b hr hc hv =>
      have hne : r.id ≠ id := by
        rintro rfl
        rw [isOpen_of_get? hr, Verdict.isOpen_of_tearDown hv] at hshut
        simp at hshut
      rw [get?_drop, if_neg hne]
      exact ⟨s, hs, hst⟩
  · intro hn
    rw [Option.eq_none_iff_forall_ne_some]
    intro s hs
    obtain ⟨r, hr, -⟩ := ha.origin h hs
    rw [hn] at hr
    simp at hr

/-! ### A batch -/

/-- In the middle of a batch that began with `l`: what was said is so. -/
structure Batch.Reflects (l : Ledger) (b : Batch) : Prop where
  succeeds : l.Succeeds (settledIn b.events) b.ledger
  fits : ∀ e ∈ b.events, e.Fits l
  allocated : ∀ id ∈ allocatedIn b.events, ∃ s, b.ledger.get? id = some s ∧ s.status = .allocated
  rejected : ∀ id ∈ rejectedIn b.events, b.ledger.get? id = none

theorem Batch.Reflects.step {b : Batch} (h : b.Reflects l) (now : Time) (c : Change) :
    (b.step now c).Reflects l := by
  have ha := apply_applied h.succeeds.sound now c
  have hold := ha.final h.succeeds.sound
  have hnew := ha.fits h.succeeds.sound (m := l) fun r hr => by
    obtain ⟨s, hs, hadv⟩ := h.succeeds.origin hr
    exact ⟨s, hs, hadv.gang_eq.symm⟩
  rw [← step_ledger] at hold hnew
  refine ⟨Batch.foldl_succeeds now [c] h.succeeds,
    Batch.forall_step .append h.fits fun f hf => (hnew f hf).1, fun id hid => ?_, fun id hid => ?_⟩
  · rcases (Batch.mem_step Event.allocatedReservations fun _ _ => rfl).1 hid with hid | hid
    · exact (hold id).1 (h.allocated id hid)
    · obtain ⟨f, hf, hid⟩ := List.mem_flatMap.1 hid
      exact (hnew f hf).2.1 id hid
  · rcases (Batch.mem_step Event.rejectedReservations fun _ _ => rfl).1 hid with hid | hid
    · exact (hold id).2 (h.rejected id hid)
    · obtain ⟨f, hf, hid⟩ := List.mem_flatMap.1 hid
      exact (hnew f hf).2.2 id hid

theorem reconcile_reflects (h : l.Sound) (now : Time) (cs : List Change) :
    (l.reconcile now cs).Reflects l := by
  have hfold : ∀ (cs : List Change) (b : Batch), b.Reflects l →
      (cs.foldl (Batch.step now) b).Reflects l := by
    intro cs
    induction cs with
    | nil => exact fun _ h => h
    | cons c cs ih => exact fun b h => ih _ (h.step now c)
  have hm := hfold cs { ledger := l } ⟨.refl h, List.forall_mem_nil _, List.forall_mem_nil _,
    List.forall_mem_nil _⟩
  have hsub : ∀ {e}, e ∈ (l.reconcile now cs).events → e ∈ (l.midway now cs).events :=
    fun he => List.mem_of_mem_filter he
  refine ⟨reconcile_succeeds h now cs, fun e he => hm.fits e (hsub he), fun id hid => ?_,
    fun id hid => ?_⟩
  · obtain ⟨e, he, hid⟩ := List.mem_flatMap.1 hid
    exact hm.allocated id (List.mem_flatMap.2 ⟨e, hsub he, hid⟩)
  · obtain ⟨e, he, hid⟩ := List.mem_flatMap.1 hid
    exact hm.rejected id (List.mem_flatMap.2 ⟨e, hsub he, hid⟩)

/-- What stops waiting and is still there is allocated, and reported so. -/
theorem Batch.Reflects.mem_allocatedIn {b : Batch} (h : b.Reflects l) {id : ReservationId} :
    id ∈ allocatedIn b.events ↔
      l.isOpen id = true ∧ ∃ s, b.ledger.get? id = some s ∧ s.status = .allocated := by
  constructor
  · intro hid
    refine ⟨(h.succeeds.of_mem ?_).1, h.allocated id hid⟩
    obtain ⟨e, he, hid⟩ := List.mem_flatMap.1 hid
    exact List.mem_flatMap.2 ⟨e, he, List.mem_append_left _ hid⟩
  · rintro ⟨ho, s, hs, hst⟩
    have hset : id ∈ settledIn b.events := by
      by_contra hn
      have hsame := h.succeeds.isOpen_eq hn
      rw [ho, isOpen_of_get? hs] at hsame
      simp [Reservation.isOpen, hst] at hsame
    obtain ⟨e, he, hid⟩ := List.mem_flatMap.1 hset
    rcases List.mem_append.1 hid with hid | hid
    · exact List.mem_flatMap.2 ⟨e, he, hid⟩
    · have hn := h.rejected id (List.mem_flatMap.2 ⟨e, he, hid⟩)
      rw [hs] at hn
      simp at hn

end Ledger

/-! ### Completion -/

/-- A gang that waits for allocations has all of them afterwards. -/
def Intake.completes (x : Intake) : Bool :=
  x.ledger.reservations.values.any fun r =>
    r.gang && r.isOpen && (x.after.get? r.id).any fun s => s.status = .allocated

end ClusterBroker
