import ClusterBroker.Proofs.Ledger.Course

/-!
# How changes are cut into batches and interleaved

A change reads and writes one reservation only, the one whose resource it speaks of. So two changes
that speak of no common reservation can be applied in either order: the ledger is the same and each
has the effect that it has anyway. Therefore a sequence of changes leads to the same ledger and has
the same effects, up to order, as long as the changes about each reservation keep their order. Where
the sequence is cut into batches makes no difference either, since the outcome of a batch is read
off its effects.
-/
namespace ClusterBroker

/-- The change speaks of a resource of this reservation. -/
def Change.about (r : Reservation) (c : Change) : Bool := r.resourceIds.contains c.resource

theorem Change.about_iff {r : Reservation} {c : Change} :
    c.about r = true ↔ c.resource ∈ r.resourceIds := List.contains_iff_mem

theorem Change.about_eq_false {r : Reservation} {c : Change} :
    c.about r = false ↔ c.resource ∉ r.resourceIds := by
  rw [← Bool.not_eq_true, Change.about_iff]

namespace Ledger

variable {now : Time} {l l' m : Ledger} {c d : Change} {r : Reservation}

/-- The index of a sound ledger is determined by its reservations. -/
theorem Sound.ext (h : l.Sound) (h' : l'.Sound) (hr : ∀ id, l.get? id = l'.get? id) : l = l' := by
  obtain ⟨rs, ix⟩ := l
  obtain ⟨rs', ix'⟩ := l'
  obtain rfl : rs = rs' := Table.ext_get? hr
  obtain rfl : ix = ix' := Table.ext_get? fun x => Option.ext fun id => by
    rw [h.index_iff, h'.index_iff]
    rfl
  rfl

/-! ### One change -/

theorem applyAllocated_local (now : Time) (id : ResourceId) (a : Allocation)
    (hl : l.get? r.id = some r) (hm : m.get? r.id = some r) :
    (l.applyAllocated now id a r).2 = (m.applyAllocated now id a r).2 ∧
      (l.applyAllocated now id a r).1.get? r.id = (m.applyAllocated now id a r).1.get? r.id := by
  unfold applyAllocated
  split
  next => exact ⟨rfl, hl.trans hm.symm⟩
  next x _ =>
    by_cases hx : x.isAllocated = true
    · simp only [hx]
      exact ⟨rfl, hl.trans hm.symm⟩
    · simp only [hx]
      by_cases hall : (r.modifyResource id (Resource.allocate · a)).allAllocated = true
      · simp only [hall]
        exact ⟨rfl, by simp [Reservation.modifyResource]⟩
      · simp only [hall]
        exact ⟨rfl, by simp [Reservation.modifyResource]⟩

theorem applyNegative_local (id : ResourceId) (kind : Resource.Status)
    (hl : l.get? r.id = some r) (hm : m.get? r.id = some r) :
    (l.applyNegative id kind r).2 = (m.applyNegative id kind r).2 ∧
      (l.applyNegative id kind r).1.get? r.id = (m.applyNegative id kind r).1.get? r.id := by
  unfold applyNegative
  split
  next => exact ⟨rfl, hl.trans hm.symm⟩
  next => exact ⟨rfl, hl.trans hm.symm⟩
  next =>
    rw [applyTearDown_eq, applyTearDown_eq]
    exact ⟨rfl, by simp⟩

/-- What a change does depends on the reservation that it is about and on nothing else. -/
theorem apply_local (h : l.Sound) (h' : m.Sound) (now : Time) (hl : l.get? r.id = some r)
    (hm : m.get? r.id = some r) (hc : c.resource ∈ r.resourceIds) :
    (l.apply now c).2 = (m.apply now c).2 ∧
      (l.apply now c).1.get? r.id = (m.apply now c).1.get? r.id := by
  have hi : l.index.get? c.resource = some r.id := h.index_iff.2 ⟨r, hl, hc⟩
  have hj : m.index.get? c.resource = some r.id := h'.index_iff.2 ⟨r, hm, hc⟩
  unfold apply
  simp only [hi, hj, hl, hm]
  cases c with
  | allocated id a => exact applyAllocated_local now id a hl hm
  | rejected id => exact applyNegative_local id .rejected hl hm
  | preempted id => exact applyNegative_local id .preempted hl hm
  | lost id => exact applyNegative_local id .lost hl hm

theorem apply_of_unindexed (now : Time) (hn : l.index.get? c.resource = none) :
    l.apply now c = (l, none) := by
  unfold apply
  rw [hn]

/-- A change makes nothing known that was not known. -/
theorem apply_unindexed (h : l.Sound) (now : Time) (c : Change) {x : ResourceId}
    (hx : l.index.get? x = none) : (l.apply now c).1.index.get? x = none := by
  have ha := apply_applied h now c
  rw [Option.eq_none_iff_forall_ne_some]
  intro id hid
  obtain ⟨s, hs, hxs⟩ := (ha.sound h).index_iff.1 hid
  obtain ⟨r, hr, hadv⟩ := ha.origin h hs
  rw [Reservation.resourceIds_of_claim hadv.claim_eq] at hxs
  rw [h.index_iff.2 ⟨r, hr, hxs⟩] at hx
  simp at hx

/-- No reservation is spoken of by both changes. -/
def Apart (l : Ledger) (c d : Change) : Prop :=
  ∀ id r, l.get? id = some r → c.about r = true → d.about r = false

theorem Apart.symm (h : l.Apart c d) : l.Apart d c := by
  intro id r hr hd
  by_contra hc
  rw [h id r hr (by simpa using hc)] at hd
  simp at hd

theorem Apart.apply (h : l.Sound) (ha : l.Apart c d) (now : Time) (b : Change) :
    (l.apply now b).1.Apart c d := by
  intro id s hs hc
  obtain ⟨r, hr, hadv⟩ := (apply_applied h now b).origin h hs
  have hids := Reservation.resourceIds_of_claim hadv.claim_eq
  unfold Change.about at hc ⊢
  rw [hids] at hc ⊢
  exact ha id r hr hc

/-- A change has the same effect after a change that is apart from it. -/
theorem Apart.effect_eq (h : l.Sound) (ha : l.Apart c d) (now : Time) :
    ((l.apply now d).1.apply now c).2 = (l.apply now c).2 := by
  cases hi : l.index.get? c.resource with
  | none => rw [apply_of_unindexed now hi, apply_of_unindexed now (apply_unindexed h now d hi)]
  | some id =>
    obtain ⟨r, hr, hc⟩ := h.index_iff.1 hi
    obtain rfl := h.id_eq hr
    have hd := apply_applied h now d
    have hn : d.resource ∉ r.resourceIds :=
      Change.about_eq_false.1 (ha r.id r hr (Change.about_iff.2 hc))
    exact (apply_local (hd.sound h) h now (hd.get?_of_not_mem h hr hn) hr hc).1

/-- Whether a change about something else comes before or after, a reservation fares the same. -/
theorem get?_of_aside (h : l.Sound) (now : Time) (c : Change) (hr : l.get? r.id = some r)
    (hd : d.about r = false) :
    ((l.apply now d).1.apply now c).1.get? r.id = ((l.apply now c).1.apply now d).1.get? r.id := by
  have hcl := apply_applied h now c
  have hdl := apply_applied h now d
  have hn : d.resource ∉ r.resourceIds := Change.about_eq_false.1 hd
  have hkept : (l.apply now d).1.get? r.id = some r := hdl.get?_of_not_mem h hr hn
  have hafter : ((l.apply now c).1.apply now d).1.get? r.id = (l.apply now c).1.get? r.id := by
    refine ((apply_applied (hcl.sound h) now d).elsewhere (hcl.sound h) fun s hs => ?_).1
    obtain ⟨t, ht, hadv⟩ := hcl.origin h hs
    rw [hr] at ht
    rw [Reservation.resourceIds_of_claim hadv.claim_eq, ← Option.some.inj ht]
    exact hn
  rw [hafter]
  by_cases hc : c.resource ∈ r.resourceIds
  · exact (apply_local (hdl.sound h) h now hkept hr hc).2
  · rw [(apply_applied (hdl.sound h) now c).get?_of_not_mem (hdl.sound h) hkept hc,
      hcl.get?_of_not_mem h hr hc]

/-- Changes that are apart can be applied in either order. -/
theorem Apart.comm (h : l.Sound) (ha : l.Apart c d) (now : Time) :
    ((l.apply now d).1.apply now c).1 = ((l.apply now c).1.apply now d).1 := by
  have hc := apply_applied h now c
  have hd := apply_applied h now d
  have hdc := apply_applied (hd.sound h) now c
  have hcd := apply_applied (hc.sound h) now d
  refine (hdc.sound (hd.sound h)).ext (hcd.sound (hc.sound h)) fun id => ?_
  cases hr : l.get? id with
  | none =>
    rw [(hdc.final (hd.sound h) id).2 ((hd.final h id).2 hr),
      (hcd.final (hc.sound h) id).2 ((hc.final h id).2 hr)]
  | some r =>
    obtain rfl := h.id_eq hr
    cases hcr : c.about r with
    | true => exact get?_of_aside h now c hr (ha r.id r hr hcr)
    | false => exact (get?_of_aside h now d hr hcr).symm

/-! ### Sequences of changes -/

/-- A change can be brought before all changes that it is apart from. -/
theorem course_front (h : l.Sound) {before : List Change} (ha : ∀ d ∈ before, l.Apart c d)
    (now : Time) (rest : List Change) :
    (l.course now (before ++ c :: rest)).Perm (l.course now (c :: (before ++ rest))) ∧
      l.through now (before ++ c :: rest) = l.through now (c :: (before ++ rest)) := by
  induction before generalizing l with
  | nil => exact ⟨.refl _, rfl⟩
  | cons d before ih =>
    rw [List.forall_mem_cons] at ha
    obtain ⟨hd, hbefore⟩ := ha
    obtain ⟨hperm, hthrough⟩ := ih ((apply_applied h now d).sound h)
      fun b hb => (hbefore b hb).apply h now d
    simp only [List.cons_append, course_cons, through_cons] at hperm hthrough ⊢
    rw [hd.effect_eq h now, hd.comm h now] at hperm
    rw [hd.comm h now] at hthrough
    refine ⟨(hperm.cons _).trans ?_, hthrough⟩
    rw [hd.symm.effect_eq h now]
    exact .swap ..

/-- Where the changes about each reservation are the same, in the same order, a change that comes
first can be brought to the front. -/
theorem exists_front (h : l.Sound) {cs ds : List Change} (hp : (c :: cs).Perm ds)
    (hf : ∀ {id r}, l.get? id = some r →
      (c :: cs).filter (Change.about r) = ds.filter (Change.about r)) :
    ∃ before rest, ds = before ++ c :: rest ∧ ∀ d ∈ before, l.Apart c d := by
  cases hi : l.index.get? c.resource with
  | none =>
    obtain ⟨before, rest, rfl⟩ := List.append_of_mem (hp.subset (List.mem_cons_self ..))
    refine ⟨before, rest, rfl, fun d _ id r hr hc => ?_⟩
    rw [h.index_iff.2 ⟨r, hr, Change.about_iff.1 hc⟩] at hi
    simp at hi
  | some id =>
    obtain ⟨r, hr, hc⟩ := h.index_iff.1 hi
    have habout : c.about r = true := Change.about_iff.2 hc
    have hfilter := hf hr
    rw [List.filter_cons_of_pos habout, eq_comm, List.filter_eq_cons_iff] at hfilter
    obtain ⟨before, rest, rfl, hbefore, -⟩ := hfilter
    refine ⟨before, rest, rfl, fun d hd id' r' hr' hc' => ?_⟩
    rw [h.eq_of_shared hr' hr (Change.about_iff.1 hc') hc]
    simpa using hbefore d hd

/-- The changes about a reservation without a change that was brought to the front. -/
theorem filter_of_front {cs before rest : List Change} (hr : l.get? r.id = some r)
    (ha : ∀ d ∈ before, l.Apart c d)
    (hf : (c :: cs).filter (Change.about r) = (before ++ c :: rest).filter (Change.about r)) :
    cs.filter (Change.about r) = (before ++ rest).filter (Change.about r) := by
  rw [List.filter_append] at hf ⊢
  cases hc : c.about r with
  | true =>
    have hnone : before.filter (Change.about r) = [] := by
      rw [List.filter_eq_nil_iff]
      intro d hd
      simp [ha d hd r.id r hr hc]
    rw [hnone, List.nil_append, List.filter_cons_of_pos hc, List.filter_cons_of_pos hc] at hf
    rw [hnone, List.nil_append]
    exact (List.cons.inj hf).2
  | false =>
    rw [List.filter_cons_of_neg (by simp [hc]), List.filter_cons_of_neg (by simp [hc])] at hf
    exact hf

/-- The order between changes about different reservations makes no difference. -/
theorem course_perm (h : l.Sound) {cs ds : List Change} (hp : cs.Perm ds)
    (hf : ∀ {id r}, l.get? id = some r →
      cs.filter (Change.about r) = ds.filter (Change.about r)) (now : Time) :
    (l.course now cs).Perm (l.course now ds) ∧ l.through now cs = l.through now ds := by
  induction cs generalizing l ds with
  | nil =>
    rw [List.nil_perm.1 hp]
    exact ⟨.refl _, rfl⟩
  | cons c cs ih =>
    obtain ⟨before, rest, rfl, hapart⟩ := exists_front h hp hf
    have ha := apply_applied h now c
    obtain ⟨hperm, hthrough⟩ := course_front h hapart now rest
    have hp' : cs.Perm (before ++ rest) := (hp.trans List.perm_middle).cons_inv
    obtain ⟨hperm', hthrough'⟩ := ih (ha.sound h) hp' fun {id s} hs => by
      obtain ⟨r, hr, hadv⟩ := ha.origin h hs
      obtain rfl := h.id_eq hr
      have hids := Reservation.resourceIds_of_claim hadv.claim_eq
      have habout : Change.about s = Change.about r := by
        unfold Change.about
        rw [hids]
      rw [habout]
      exact filter_of_front hr hapart (hf hr)
    refine ⟨.trans ?_ hperm.symm, .trans ?_ hthrough.symm⟩
    · rw [course_cons, course_cons]
      exact hperm'.cons _
    · exact hthrough'

/-! ### Batches one after the other -/

/-- Two batches one after the other, their outcomes taken together. -/
def Batch.join (b b' : Batch) : Batch where
  ledger := b'.ledger
  events := b.events ++ b'.events
  toRelease := b.toRelease ++ b'.toRelease
  applied := b.applied + b'.applied
  ignored := b.ignored + b'.ignored
  tornDown := b.tornDown + b'.tornDown

/-- Batches one after the other, at one reading of the clock. -/
def inBatches (now : Time) : List (List Change) → Ledger → Batch
  | [], l => { ledger := l }
  | cs :: css, l => (l.reconcile now cs).join (inBatches now css (l.reconcile now cs).ledger)

/-- A handle learns the same from both, up to order. -/
structure SaysAlike (h : HandleId) (es fs : List Event) : Prop where
  allocated : (Event.saidTo h Event.allocated es).Perm (Event.saidTo h Event.allocated fs)
  allocatedReservations : (Event.saidTo h Event.allocatedReservations es).Perm
    (Event.saidTo h Event.allocatedReservations fs)
  rejectedReservations : (Event.saidTo h Event.rejectedReservations es).Perm
    (Event.saidTo h Event.rejectedReservations fs)
  rejected : (Event.saidTo h Event.rejected es).Perm (Event.saidTo h Event.rejected fs)
  preempted : (Event.saidTo h Event.preempted es).Perm (Event.saidTo h Event.preempted fs)
  lost : (Event.saidTo h Event.lost es).Perm (Event.saidTo h Event.lost fs)

/-- Two outcomes differ in the order of what they list at most, and in how it is divided into
events. -/
structure Batch.Alike (b b' : Batch) : Prop where
  ledger : b.ledger = b'.ledger
  toRelease : b.toRelease.Perm b'.toRelease
  applied : b.applied = b'.applied
  ignored : b.ignored = b'.ignored
  tornDown : b.tornDown = b'.tornDown
  told : ∀ h, SaysAlike h b.events b'.events

/-- The outcome is that of a course, however the events are merged. -/
structure Batch.Follows (m : Ledger) (es : List (Option Effect)) (b : Batch) : Prop where
  ledger : b.ledger = m
  toRelease : b.toRelease = es.flatMap givenUp
  applied : b.applied = es.countP Option.isSome
  ignored : b.ignored = es.countP Option.isNone
  tornDown : b.tornDown = es.countP tearsDown
  told : ∀ {α : Type} (p : Event → List α), (∀ e f, p (Event.append e f) = p e ++ p f) → ∀ h,
    Event.saidTo h p b.events = Event.saidTo h p (es.flatMap noticed)

theorem reconcile_follows (h : l.Sound) (now : Time) (cs : List Change) :
    (l.reconcile now cs).Follows (l.through now cs) (l.course now cs) := by
  rw [reconcile_eq h]
  exact ⟨rfl, rfl, rfl, rfl, rfl, fun p hp h => Event.saidTo_merged hp h _⟩

theorem Batch.Follows.join {m' : Ledger} {es es' : List (Option Effect)} {b b' : Batch}
    (h : b.Follows m es) (h' : b'.Follows m' es') : (b.join b').Follows m' (es ++ es') := by
  unfold Batch.join
  constructor
  · exact h'.ledger
  · rw [List.flatMap_append, ← h.toRelease, ← h'.toRelease]
  · rw [List.countP_append, ← h.applied, ← h'.applied]
  · rw [List.countP_append, ← h.ignored, ← h'.ignored]
  · rw [List.countP_append, ← h.tornDown, ← h'.tornDown]
  · intro α p hp k
    rw [List.flatMap_append, Event.saidTo_append, Event.saidTo_append, h.told p hp, h'.told p hp]

/-- Where a sequence is cut into batches makes no difference to what it leads to. -/
theorem inBatches_follows (h : l.Sound) (now : Time) (css : List (List Change)) :
    (l.inBatches now css).Follows (l.through now css.flatten) (l.course now css.flatten) := by
  induction css generalizing l with
  | nil => exact ⟨rfl, rfl, rfl, rfl, rfl, fun _ _ _ => rfl⟩
  | cons cs css ih =>
    unfold inBatches
    rw [reconcile_through, List.flatten_cons, through_append, course_append]
    exact (reconcile_follows h now cs).join (ih (through_sound h now cs))

theorem Batch.Follows.alike {es es' : List (Option Effect)} {b b' : Batch} (h : b.Follows m es)
    (h' : b'.Follows m es') (hp : es.Perm es') : b.Alike b' := by
  have htold : ∀ {α : Type} (p : Event → List α),
      (∀ e f, p (Event.append e f) = p e ++ p f) → ∀ k,
      (Event.saidTo k p b.events).Perm (Event.saidTo k p b'.events) := by
    intro α p happ k
    rw [h.told p happ, h'.told p happ]
    exact ((hp.flatMap_right noticed).filter _).flatMap_right p
  constructor
  · rw [h.ledger, h'.ledger]
  · rw [h.toRelease, h'.toRelease]
    exact hp.flatMap_right givenUp
  · rw [h.applied, h'.applied, hp.countP_eq]
  · rw [h.ignored, h'.ignored, hp.countP_eq]
  · rw [h.tornDown, h'.tornDown, hp.countP_eq]
  · intro k
    constructor
    · exact htold Event.allocated (fun _ _ => rfl) k
    · exact htold Event.allocatedReservations (fun _ _ => rfl) k
    · exact htold Event.rejectedReservations (fun _ _ => rfl) k
    · exact htold Event.rejected (fun _ _ => rfl) k
    · exact htold Event.preempted (fun _ _ => rfl) k
    · exact htold Event.lost (fun _ _ => rfl) k

/-- The outcome does not depend on the cuts, nor on the order between changes about different
reservations. -/
theorem inBatches_alike (h : l.Sound) (now : Time) {css dss : List (List Change)}
    (hp : css.flatten.Perm dss.flatten)
    (hf : ∀ {id r}, l.get? id = some r →
      css.flatten.filter (Change.about r) = dss.flatten.filter (Change.about r)) :
    (l.inBatches now css).Alike (l.inBatches now dss) := by
  obtain ⟨hcourse, hthrough⟩ := course_perm h hp hf now
  have hc := inBatches_follows h now css
  rw [hthrough] at hc
  exact hc.alike (inBatches_follows h now dss) hcourse

end Ledger

end ClusterBroker
