import ClusterBroker.Proofs.Ledger.Completion
import ClusterBroker.Proofs.Ledger.Removal

/-!
# A tenant's share of a ledger

A tenant is a handle with the reservation ids and the resource ids that it alone uses. Its share of
a ledger is a ledger too: the reservations under its ids, and the index entries of its resources.
As long as every reservation is the tenant's with all its resources or not at all, everything that
happens to a ledger happens to the share as if it were alone: a change about a resource of the
tenant has the same effect on both, and any other change does nothing to the share and is told to
somebody else.
-/
namespace ClusterBroker

structure Tenant where
  handle : HandleId
  owns : ReservationId → Bool
  uses : ResourceId → Bool

namespace Tenant

variable (T : Tenant)

def share (l : Ledger) : Ledger where
  reservations := l.reservations.filter fun id _ => T.owns id
  index := l.index.filter fun x _ => T.uses x

/-- The tenant's part of a batch. -/
def reports (cs : List Change) : List Change := cs.filter fun c => T.uses c.resource

/-- What the tenant is told. -/
def told (es : List Event) : List Event := es.filter fun e => e.handle = T.handle

/-- The reservation is the tenant's with all its resources, or not at all. -/
structure Separates (r : Reservation) : Prop where
  owns_iff : T.owns r.id = true ↔ r.handle = T.handle
  uses_eq : ∀ x ∈ r.resourceIds, T.uses x = T.owns r.id

structure Divides (l : Ledger) : Prop where
  sound : l.Sound
  separates : ∀ {id r}, l.get? id = some r → T.Separates r

variable {T} {l l' : Ledger} {r s : Reservation} {now : Time} {c : Change}

/-! ### Looking up -/

@[simp] theorem get?_share (l : Ledger) (id : ReservationId) :
    (T.share l).get? id = if T.owns id then l.get? id else none := by
  unfold share Ledger.get?
  rw [Table.get?_filter]
  cases l.reservations.get? id <;> cases T.owns id <;> simp

@[simp] theorem index_share (l : Ledger) (x : ResourceId) :
    (T.share l).index.get? x = if T.uses x then l.index.get? x else none := by
  unfold share
  rw [Table.get?_filter]
  cases l.index.get? x <;> cases T.uses x <;> simp

theorem ledger_ext (hr : ∀ id, l.get? id = l'.get? id)
    (hi : ∀ x, l.index.get? x = l'.index.get? x) : l = l' := by
  obtain ⟨rs, ix⟩ := l
  obtain ⟨rs', ix'⟩ := l'
  obtain rfl : rs = rs' := Table.ext_get? hr
  obtain rfl : ix = ix' := Table.ext_get? hi
  rfl

theorem share_empty : T.share {} = {} := by
  refine ledger_ext (fun id => ?_) fun x => ?_
  · rw [get?_share]
    exact ite_self _
  · rw [index_share]
    exact ite_self _

theorem Separates.congr (h : T.Separates r) (hc : s.claim = r.claim) : T.Separates s := by
  have hids := Reservation.resourceIds_of_claim hc
  obtain ⟨hid, hh, -⟩ := Reservation.claim_eq_iff.1 hc
  refine ⟨?_, ?_⟩
  · rw [hid, hh]
    exact h.owns_iff
  · rw [hids, hid]
    exact h.uses_eq

theorem Separates.owns_eq_false (h : T.Separates r) (hr : r.handle ≠ T.handle) :
    T.owns r.id = false := Bool.eq_false_iff.2 fun ho => hr (h.owns_iff.1 ho)

theorem Divides.empty : T.Divides {} := by
  refine ⟨Ledger.sound_empty, fun h => ?_⟩
  simp [Ledger.get?] at h

theorem Divides.succeeds {ids : List ReservationId} (h : T.Divides l) (hs : l.Succeeds ids l') :
    T.Divides l' := by
  refine ⟨hs.sound, fun {id s} hget => ?_⟩
  obtain ⟨r, hr, hadv⟩ := hs.origin hget
  exact (h.separates hr).congr hadv.claim_eq

theorem Divides.of_removal (h : T.Divides l) (hs : l'.Sound) (p : ReservationId → Prop)
    [DecidablePred p] (hg : ∀ k, l'.get? k = if p k then none else l.get? k) : T.Divides l' := by
  refine ⟨hs, fun {id s} hget => ?_⟩
  rw [hg] at hget
  split at hget
  next => simp at hget
  next => exact h.separates hget

theorem Divides.add (h : T.Divides l) (hr : r.Sound) (hc : l.conflict? r = none)
    (hsep : T.Separates r) : T.Divides (l.add r) := by
  refine ⟨h.sound.add hr hc, fun {id s} hget => ?_⟩
  rw [Ledger.get?_add] at hget
  split at hget
  next => exact Option.some.inj hget ▸ hsep
  next => exact h.separates hget

theorem Divides.drop (h : T.Divides l) (hr : l.get? r.id = some r) : T.Divides (l.drop r) :=
  h.of_removal (h.sound.drop hr) (fun k => r.id = k) (Ledger.get?_drop l r)

/-- Whose a reservation is can be read off its id and off any of its resources. -/
theorem Divides.owns_of_mem (h : T.Divides l) {id : ReservationId} {x : ResourceId}
    (hr : l.get? id = some r) (hx : x ∈ r.resourceIds) : T.owns r.id = T.uses x :=
  ((h.separates hr).uses_eq x hx).symm

/-! ### Entering, replacing and taking out -/

/-- `l'` is `l` with `v` under `k`, and with `w` as the index entry of each of these resources. -/
structure Writes (k : ReservationId) (v : Option Reservation) (xs : List ResourceId)
    (w : Option ReservationId) (l l' : Ledger) : Prop where
  get?_eq : ∀ id, l'.get? id = if k = id then v else l.get? id
  index_eq : ∀ x, l'.index.get? x = if x ∈ xs then w else l.index.get? x

theorem writes_add (l : Ledger) (r : Reservation) :
    Writes r.id (some r) r.resourceIds (some r.id) l (l.add r) :=
  ⟨Ledger.get?_add l r, Ledger.index_add l r⟩

theorem writes_drop (l : Ledger) (r : Reservation) :
    Writes r.id none r.resourceIds none l (l.drop r) :=
  ⟨Ledger.get?_drop l r, Ledger.index_drop l r⟩

theorem writes_update (l : Ledger) (r : Reservation) :
    Writes r.id (some r) [] none l (l.update r) :=
  ⟨Ledger.get?_update l r, fun x => by rw [Ledger.index_update, if_neg List.not_mem_nil]⟩

section

variable {m : Ledger} {k : ReservationId} {v : Option Reservation} {xs : List ResourceId}
  {w : Option ReservationId}

/-- What is written for the tenant is written to its share. -/
theorem Writes.share_own (h : Writes k v xs w l l') (hm : Writes k v xs w (T.share l) m)
    (hk : T.owns k = true) (hxs : ∀ x ∈ xs, T.uses x = true) : T.share l' = m := by
  refine ledger_ext (fun id => ?_) fun x => ?_
  · rw [get?_share, h.get?_eq, hm.get?_eq, get?_share]
    by_cases he : k = id
    · rw [← he, if_pos hk, if_pos rfl, if_pos rfl]
    · rw [if_neg he, if_neg he]
  · rw [index_share, h.index_eq, hm.index_eq, index_share]
    by_cases hx : x ∈ xs
    · rw [if_pos (hxs x hx), if_pos hx, if_pos hx]
    · rw [if_neg hx, if_neg hx]

/-- What is written for somebody else is not seen in the share. -/
theorem Writes.share_other (h : Writes k v xs w l l') (hk : T.owns k = false)
    (hxs : ∀ x ∈ xs, T.uses x = false) : T.share l' = T.share l := by
  refine ledger_ext (fun id => ?_) fun x => ?_
  · rw [get?_share, h.get?_eq, get?_share]
    by_cases he : k = id
    · rw [← he, hk]
      rfl
    · rw [if_neg he]
  · rw [index_share, h.index_eq, index_share]
    by_cases hx : x ∈ xs
    · rw [hxs x hx]
      rfl
    · rw [if_neg hx]

end

theorem share_update_own (l : Ledger) (hr : T.owns r.id = true) :
    T.share (l.update r) = (T.share l).update r :=
  (writes_update l r).share_own (writes_update _ r) hr (List.forall_mem_nil _)

theorem share_update_other (l : Ledger) (hr : T.owns r.id = false) :
    T.share (l.update r) = T.share l :=
  (writes_update l r).share_other hr (List.forall_mem_nil _)

theorem share_drop_own (l : Ledger) (hsep : T.Separates r) (hr : T.owns r.id = true) :
    T.share (l.drop r) = (T.share l).drop r :=
  (writes_drop l r).share_own (writes_drop _ r) hr fun x hx => (hsep.uses_eq x hx).trans hr

theorem share_drop_other (l : Ledger) (hsep : T.Separates r) (hr : T.owns r.id = false) :
    T.share (l.drop r) = T.share l :=
  (writes_drop l r).share_other hr fun x hx => (hsep.uses_eq x hx).trans hr

theorem share_add_own (l : Ledger) (hsep : T.Separates r) (hr : T.owns r.id = true) :
    T.share (l.add r) = (T.share l).add r :=
  (writes_add l r).share_own (writes_add _ r) hr fun x hx => (hsep.uses_eq x hx).trans hr

theorem share_add_other (l : Ledger) (hsep : T.Separates r) (hr : T.owns r.id = false) :
    T.share (l.add r) = T.share l :=
  (writes_add l r).share_other hr fun x hx => (hsep.uses_eq x hx).trans hr

/-- Nothing but the tenant's own can be in the way of a reservation of the tenant. -/
theorem conflict?_share (l : Ledger) (hsep : T.Separates r) (hr : T.owns r.id = true) :
    (T.share l).conflict? r = l.conflict? r := by
  have hid : (T.share l).reservations.contains r.id = l.reservations.contains r.id := by
    have hget : (T.share l).get? r.id = l.get? r.id := by rw [get?_share, if_pos hr]
    exact congrArg Option.isSome hget
  have hfind : r.resourceIds.find? (T.share l).index.contains =
      r.resourceIds.find? l.index.contains := by
    have hin : ∀ x ∈ r.resourceIds, (T.share l).index.contains x = l.index.contains x := by
      intro x hx
      unfold Table.contains
      rw [index_share, hsep.uses_eq x hx, hr, if_pos rfl]
    rw [← List.head?_filter, ← List.head?_filter, List.filter_congr hin]
  unfold Ledger.conflict?
  rw [hid, hfind]

theorem share_remove_own (h : T.Divides l) {id : ReservationId} (hid : T.owns id = true) :
    (T.share l).remove id = ((l.remove id).1, T.share (l.remove id).2) := by
  unfold Ledger.remove
  rw [get?_share, if_pos hid]
  cases hr : l.get? id with
  | none => rfl
  | some r =>
    have hr' : T.owns r.id = true := by rw [h.sound.id_eq hr, hid]
    dsimp only
    rw [share_drop_own l (h.separates hr) hr']

theorem share_remove_other (h : T.Divides l) {id : ReservationId} (hid : T.owns id = false) :
    T.share (l.remove id).2 = T.share l := by
  unfold Ledger.remove
  cases hr : l.get? id with
  | none => rfl
  | some r => exact share_drop_other l (h.separates hr) (by rw [h.sound.id_eq hr, hid])

/-! ### One change -/

theorem share_applyAllocated (l : Ledger) (hr : T.owns r.id = true) (id : ResourceId)
    (a : Allocation) : (T.share l).applyAllocated now id a r =
      (T.share (l.applyAllocated now id a r).1, (l.applyAllocated now id a r).2) := by
  unfold Ledger.applyAllocated
  cases r.resource? id with
  | none => rfl
  | some x =>
    dsimp only
    split
    next => rfl
    next =>
      split
      next =>
        dsimp only
        rw [share_update_own]
        exact hr
      next =>
        dsimp only
        rw [share_update_own]
        exact hr

theorem share_applyNegative (l : Ledger) (hsep : T.Separates r) (hr : T.owns r.id = true)
    (id : ResourceId) (kind : Resource.Status) : (T.share l).applyNegative id kind r =
      (T.share (l.applyNegative id kind r).1, (l.applyNegative id kind r).2) := by
  unfold Ledger.applyNegative
  cases Verdict.of kind r.status r.gang with
  | illegal => rfl
  | report => rfl
  | tearDown b =>
    dsimp only
    rw [Ledger.applyTearDown_eq, Ledger.applyTearDown_eq, share_drop_own l hsep hr]

/-- A change about a resource of the tenant has the same effect on its share. -/
theorem share_apply_own (now : Time) (h : T.Divides l) (hc : T.uses c.resource = true) :
    (T.share l).apply now c = (T.share (l.apply now c).1, (l.apply now c).2) := by
  unfold Ledger.apply
  rw [index_share, if_pos hc]
  cases hi : l.index.get? c.resource with
  | none => rfl
  | some rid =>
    obtain ⟨r, hr, hx⟩ := h.sound.index_iff.1 hi
    obtain rfl := h.sound.id_eq hr
    have hown : T.owns r.id = true := by rw [h.owns_of_mem hr hx, hc]
    dsimp only
    rw [get?_share, if_pos hown, hr]
    cases c with
    | allocated id a => exact share_applyAllocated l hown id a
    | rejected id => exact share_applyNegative l (h.separates hr) hown id .rejected
    | preempted id => exact share_applyNegative l (h.separates hr) hown id .preempted
    | lost id => exact share_applyNegative l (h.separates hr) hown id .lost

/-- Whoever is told of a change has the resource that it is about. -/
theorem told_of_applied {e : Option Effect} (ha : Ledger.Applied now l c l' e) :
    ∀ f ∈ Ledger.noticed e, ∃ r, l.get? r.id = some r ∧ c.resource ∈ r.resourceIds ∧
      f.handle = r.handle := by
  intro f hf
  cases ha with
  | unknown | repeated | illegal => simp [Ledger.noticed] at hf
  | reported hr hc =>
    rw [show f = _ by simpa [Ledger.noticed] using hf]
    refine ⟨_, hr, hc, ?_⟩
    unfold Event.ofStatus
    split <;> rfl
  | @granted id a r x hr hx =>
    obtain ⟨hxr, rfl⟩ := Reservation.mem_of_resource? hx
    have hf : r.grantEvent now x.id a x = some f := by simpa [Ledger.noticed] using hf
    refine ⟨r, hr, List.mem_map_of_mem hxr, ?_⟩
    unfold Reservation.grantEvent at hf
    split at hf
    · rw [← Option.some.inj hf]
    · split at hf
      · simp at hf
      · rw [← Option.some.inj hf]
  | @tornDown _ r b hr hc =>
    rw [show f = _ by simpa [Ledger.noticed, Reservation.tearDown] using hf]
    refine ⟨r, hr, hc, ?_⟩
    cases b <;> rfl

/-- A change about a resource of somebody else leaves the share alone, and is told to somebody
else. -/
theorem share_apply_other (now : Time) (h : T.Divides l) (hc : T.uses c.resource = false) :
    T.share (l.apply now c).1 = T.share l ∧
      ∀ f ∈ Ledger.noticed (l.apply now c).2, f.handle ≠ T.handle := by
  have ha := Ledger.apply_applied h.sound now c
  refine ⟨?_, fun f hf hh => ?_⟩
  · revert ha
    generalize (l.apply now c).1 = l', (l.apply now c).2 = e
    intro ha
    cases ha with
    | unknown | repeated | illegal | reported => rfl
    | @granted id a r x hr hx =>
      obtain ⟨hxr, rfl⟩ := Reservation.mem_of_resource? hx
      have hown := h.owns_of_mem hr (List.mem_map_of_mem hxr)
      exact share_update_other l
        (by rw [Reservation.grant_id (h.sound.sound hr), hown]; exact hc)
    | @tornDown c r b hr hx =>
      exact share_drop_other l (h.separates hr) (by rw [h.owns_of_mem hr hx, hc])
  · obtain ⟨r, hr, hx, hfr⟩ := told_of_applied ha f hf
    have hown := (h.separates hr).owns_iff.2 (hfr.symm.trans hh)
    rw [h.owns_of_mem hr hx, hc] at hown
    simp at hown

/-! ### A batch -/

theorem told_cons_own {e : Event} (he : e.handle = T.handle) (es : List Event) :
    T.told (e :: es) = e :: T.told es := List.filter_cons_of_pos (decide_eq_true he)

theorem told_cons_other {e : Event} (he : e.handle ≠ T.handle) (es : List Event) :
    T.told (e :: es) = T.told es := List.filter_cons_of_neg (by simpa using he)

theorem told_addTo_own {f : Event} (hf : f.handle = T.handle) (es : List Event) :
    T.told (f.addTo es) = f.addTo (T.told es) := by
  induction es with
  | nil => exact told_cons_own hf []
  | cons e es ih =>
    by_cases he : e.handle = f.handle
    · have hown : e.handle = T.handle := he.trans hf
      rw [Event.addTo, if_pos he, told_cons_own hown, Event.addTo, if_pos he]
      exact told_cons_own (e := e.append f) hown es
    · have hother : e.handle ≠ T.handle := fun h => he (h.trans hf.symm)
      rw [Event.addTo, if_neg he, told_cons_other hother, told_cons_other hother, ih]

theorem told_addTo_other {f : Event} (hf : f.handle ≠ T.handle) (es : List Event) :
    T.told (f.addTo es) = T.told es := by
  induction es with
  | nil => exact told_cons_other hf []
  | cons e es ih =>
    by_cases he : e.handle = f.handle
    · have hother : e.handle ≠ T.handle := fun h => hf (he.symm.trans h)
      rw [Event.addTo, if_pos he, told_cons_other hother]
      exact told_cons_other (e := e.append f) hother es
    · rw [Event.addTo, if_neg he]
      by_cases hown : e.handle = T.handle
      · rw [told_cons_own hown, told_cons_own hown, ih]
      · rw [told_cons_other hown, told_cons_other hown, ih]

theorem told_foldl_own {fs : List Event} (hf : ∀ f ∈ fs, f.handle = T.handle) (es : List Event) :
    T.told (fs.foldl (fun es f => f.addTo es) es) =
      fs.foldl (fun es f => f.addTo es) (T.told es) := by
  induction fs generalizing es with
  | nil => rfl
  | cons f fs ih =>
    rw [List.forall_mem_cons] at hf
    rw [List.foldl_cons, List.foldl_cons, ih hf.2, told_addTo_own hf.1]

theorem told_foldl_other {fs : List Event} (hf : ∀ f ∈ fs, f.handle ≠ T.handle)
    (es : List Event) : T.told (fs.foldl (fun es f => f.addTo es) es) = T.told es := by
  induction fs generalizing es with
  | nil => rfl
  | cons f fs ih =>
    rw [List.forall_mem_cons] at hf
    rw [List.foldl_cons, ih hf.2, told_addTo_other hf.1]

theorem told_append (es fs : List Event) : T.told (es ++ fs) = T.told es ++ T.told fs :=
  List.filter_append ..

/-- In the middle of a batch: `b` took in the changes so far, and `b'` the tenant's among them. -/
structure Echo (T : Tenant) (b b' : Ledger.Batch) : Prop where
  divides : T.Divides b.ledger
  ledger_eq : b'.ledger = T.share b.ledger
  events_eq : b'.events = T.told b.events

theorem Echo.step_own {b b' : Ledger.Batch} (h : T.Echo b b') (hc : T.uses c.resource = true) :
    T.Echo (b.step now c) (b'.step now c) := by
  have happ := share_apply_own now h.divides hc
  have ha := Ledger.apply_applied h.divides.sound now c
  refine ⟨?_, ?_, ?_⟩
  · rw [Ledger.Batch.step_ledger]
    exact h.divides.succeeds (ha.succeeds h.divides.sound)
  · rw [Ledger.Batch.step_ledger, Ledger.Batch.step_ledger, h.ledger_eq, happ]
  · have hown : ∀ f ∈ Ledger.noticed (b.ledger.apply now c).2, f.handle = T.handle := by
      intro f hf
      obtain ⟨r, hr, hx, hfr⟩ := told_of_applied ha f hf
      exact hfr.trans ((h.divides.separates hr).owns_iff.1
        (by rw [h.divides.owns_of_mem hr hx, hc]))
    rw [Ledger.Batch.step_events, Ledger.Batch.step_events, h.ledger_eq, happ, h.events_eq]
    exact (told_foldl_own hown _).symm

theorem Echo.step_other {b b' : Ledger.Batch} (h : T.Echo b b') (hc : T.uses c.resource = false) :
    T.Echo (b.step now c) b' := by
  obtain ⟨hshare, hother⟩ := share_apply_other now h.divides hc
  have ha := Ledger.apply_applied h.divides.sound now c
  refine ⟨?_, ?_, ?_⟩
  · rw [Ledger.Batch.step_ledger]
    exact h.divides.succeeds (ha.succeeds h.divides.sound)
  · rw [Ledger.Batch.step_ledger, hshare, h.ledger_eq]
  · rw [Ledger.Batch.step_events, h.events_eq, told_foldl_other hother]

/-- The share takes in the tenant's part of a batch, and the tenant is told the same. -/
theorem reconcile_share (h : T.Divides l) (now : Time) (cs : List Change) :
    ((T.share l).reconcile now (T.reports cs)).ledger = T.share (l.reconcile now cs).ledger ∧
      ((T.share l).reconcile now (T.reports cs)).events = T.told (l.reconcile now cs).events := by
  have hecho : T.Echo (l.midway now cs) ((T.share l).midway now (T.reports cs)) := by
    have hfold : ∀ (cs : List Change) {b b' : Ledger.Batch}, T.Echo b b' →
        T.Echo (cs.foldl (Ledger.Batch.step now) b)
          ((T.reports cs).foldl (Ledger.Batch.step now) b') := by
      intro cs
      induction cs with
      | nil => exact fun h => h
      | cons c cs ih =>
        intro b b' hb
        unfold reports at ih ⊢
        cases hc : T.uses c.resource with
        | true =>
          rw [List.filter_cons_of_pos (by simpa using hc), List.foldl_cons, List.foldl_cons]
          exact ih (hb.step_own hc)
        | false =>
          rw [List.filter_cons_of_neg (by simpa using hc), List.foldl_cons]
          exact ih (hb.step_other hc)
    exact hfold cs ⟨h, rfl, rfl⟩
  refine ⟨hecho.ledger_eq, ?_⟩
  have hev : ((T.share l).reconcile now (T.reports cs)).events =
      ((T.share l).midway now (T.reports cs)).events.filter fun e => !e.isEmpty := rfl
  rw [hev, hecho.events_eq]
  exact List.filter_comm ..

/-! ### Several batches -/

/-- The tenant's parts of batches, as far as they are not empty. -/
def batches (T : Tenant) (bs : List (List Change)) : List (List Change) :=
  (bs.map T.reports).filter fun cs => !cs.isEmpty

end Tenant

/-- Takes in batches one after the other; the ledger after them, and all events. -/
def Ledger.takeIn (clock : Time) : List (List Change) → Ledger → Ledger × List Event
  | [], l => (l, [])
  | cs :: bs, l =>
    let b := l.reconcile clock cs
    let rest := takeIn clock bs b.ledger
    (rest.1, b.events ++ rest.2)

theorem Ledger.takeIn_cons (clock : Time) (cs : List Change) (bs : List (List Change))
    (l : Ledger) : l.takeIn clock (cs :: bs) =
      (((l.reconcile clock cs).ledger.takeIn clock bs).1,
        (l.reconcile clock cs).events ++ ((l.reconcile clock cs).ledger.takeIn clock bs).2) := rfl

namespace Tenant

variable {T : Tenant} {l : Ledger}

theorem batches_cons (cs : List Change) (bs : List (List Change)) :
    T.batches (cs :: bs) =
      if (T.reports cs).isEmpty then T.batches bs else T.reports cs :: T.batches bs := by
  unfold batches
  rw [List.map_cons]
  cases T.reports cs with
  | nil => rfl
  | cons c rest => rfl

theorem takeIn_share (h : T.Divides l) (clock : Time) (bs : List (List Change)) :
    T.Divides (l.takeIn clock bs).1 ∧ (T.share l).takeIn clock (T.batches bs) =
      (T.share (l.takeIn clock bs).1, T.told (l.takeIn clock bs).2) := by
  induction bs generalizing l with
  | nil => exact ⟨h, rfl⟩
  | cons cs bs ih =>
    obtain ⟨hl, he⟩ := reconcile_share h clock cs
    obtain ⟨hd, hrest⟩ := ih (h.succeeds (Ledger.reconcile_succeeds h.sound clock cs))
    refine ⟨hd, ?_⟩
    rw [Ledger.takeIn_cons, told_append, ← he, batches_cons]
    split
    next hnil =>
      rw [List.isEmpty_iff.1 hnil] at hl ⊢
      rw [← hl] at hrest
      exact hrest
    next => rw [Ledger.takeIn_cons, hl, hrest]

/-! ### Removing by a condition -/

theorem Divides.share_sound (h : T.Divides l) : (T.share l).Sound := by
  refine ⟨fun {id r} hr => ?_, fun {id r} hr => ?_, fun {x id} => ?_⟩
  · rw [get?_share] at hr
    split at hr
    next => exact h.sound.id_eq hr
    next => simp at hr
  · rw [get?_share] at hr
    split at hr
    next => exact h.sound.sound hr
    next => simp at hr
  · rw [index_share, get?_share]
    constructor
    · intro hx
      split at hx
      next hu =>
        obtain ⟨r, hr, hxr⟩ := h.sound.index_iff.1 hx
        have hown := h.owns_of_mem hr hxr
        rw [h.sound.id_eq hr, hu] at hown
        exact ⟨r, by rw [if_pos hown, hr], hxr⟩
      next => simp at hx
    · rintro ⟨r, hr, hxr⟩
      split at hr
      next ho =>
        have hown := h.owns_of_mem hr hxr
        rw [h.sound.id_eq hr, ho] at hown
        rw [if_pos hown.symm]
        exact h.sound.index_iff.2 ⟨r, hr, hxr⟩
      next => simp at hr

/-- What a sound ledger tracks determines it. -/
theorem eq_of_sound {l' : Ledger} (h : l.Sound) (h' : l'.Sound)
    (hget : ∀ id, l.get? id = l'.get? id) : l = l' := by
  refine ledger_ext hget fun x => Option.ext fun id => ?_
  rw [h.index_iff, h'.index_iff, hget]

theorem Divides.removeWhere (h : T.Divides l) (p : Reservation → Bool) :
    T.Divides (l.removeWhere p).2 := by
  obtain ⟨hs, hg⟩ := Ledger.removeWhere_ledger h.sound p
  exact h.of_removal hs (fun k => (l.get? k).any p = true) hg

theorem share_removeWhere (h : T.Divides l) (p : Reservation → Bool) :
    ((T.share l).removeWhere p).2 = T.share (l.removeWhere p).2 := by
  obtain ⟨hs, hg⟩ := Ledger.removeWhere_ledger h.share_sound p
  refine eq_of_sound hs (h.removeWhere p).share_sound fun id => ?_
  rw [hg, get?_share, get?_share, (Ledger.removeWhere_ledger h.sound p).2]
  cases T.owns id <;> simp

/-- What the tenant's share lists is what stands under its handle. -/
theorem values_share (h : T.Divides l) :
    (T.share l).reservations.values =
      l.reservations.values.filter fun r => r.handle = T.handle := by
  have hsame : ∀ e ∈ l.reservations.entries, T.owns e.1 = decide (e.2.handle = T.handle) := by
    intro e he
    have hget : l.get? e.1 = some e.2 := Table.mem_entries.1 he
    have hiff := (h.separates hget).owns_iff
    rw [h.sound.id_eq hget] at hiff
    rw [Bool.eq_iff_iff, hiff, decide_eq_true_iff]
  have hentries : (T.share l).reservations.values =
      (l.reservations.entries.filter fun e => T.owns e.1).map Prod.snd := rfl
  unfold Table.values at hentries ⊢
  rw [hentries, List.filter_map, List.filter_congr hsame]
  rfl

/-- Who removes only the tenant's gets the same from its share. -/
theorem share_removed_own (h : T.Divides l) {p : Reservation → Bool}
    (hp : ∀ r, p r = true → r.handle = T.handle) :
    ((T.share l).removeWhere p).1 = (l.removeWhere p).1 := by
  rw [Ledger.removeWhere_removed h.share_sound, Ledger.removeWhere_removed h.sound, values_share h,
    List.filter_filter]
  congr 1
  refine List.filter_congr fun r _ => ?_
  cases hr : p r with
  | true => simp [hp r hr]
  | false => rfl

/-- Who removes nothing of the tenant's leaves its share alone. -/
theorem share_removeWhere_other (h : T.Divides l) {p : Reservation → Bool}
    (hp : ∀ r, r.handle = T.handle → p r = false) : T.share (l.removeWhere p).2 = T.share l := by
  refine eq_of_sound (h.removeWhere p).share_sound h.share_sound fun id => ?_
  rw [get?_share, get?_share, (Ledger.removeWhere_ledger h.sound p).2]
  split
  next ho =>
    cases hr : l.get? id with
    | none => rfl
    | some r =>
      have hown := (h.separates hr).owns_iff
      rw [h.sound.id_eq hr] at hown
      simp [hp r (hown.1 ho)]
  next => rfl

end Tenant

end ClusterBroker
