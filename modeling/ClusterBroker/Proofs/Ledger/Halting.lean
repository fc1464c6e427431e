import ClusterBroker.Proofs.Ledger.Accounting
import ClusterBroker.Proofs.Ledger.Interleaving

/-!
# Everything is lost

A manager that stops loses everything that it handed out. The registry reports every indexed
resource to itself as lost, in whatever order the index lists them. What a single one of these
reports does depends on its reservation alone: one that is allocated, or partly allocated and no
gang, outlives its resources, and its owner is told of each of them. Any other reservation goes with
the first of its resources, and what is reported of the rest is ignored.
-/
namespace ClusterBroker

/-- The reservation stays although its resources are lost. -/
def Reservation.outlives (r : Reservation) : Bool :=
  r.status = .allocated ∨ r.status = .partly ∧ r.gang = false

/-- The reservations that stay when everything is lost. -/
def Ledger.survivors (l : Ledger) : List Reservation :=
  l.reservations.values.filter Reservation.outlives

/-- The reservations that go when everything is lost. -/
def Ledger.casualties (l : Ledger) : List Reservation :=
  l.reservations.values.filter fun r => !r.outlives

/-- What a handle has to learn when everything is lost: of its reservations that stay every
resource, and which of its reservations went. -/
structure Event.TellsLoss (l : Ledger) (e : Event) : Prop where
  lost : e.lost.Perm
    ((l.survivors.filter fun r => r.handle = e.handle).flatMap Reservation.resourceIds)
  lost_nodup : e.lost.Nodup
  rejectedReservations : e.rejectedReservations.Perm
    ((l.casualties.filter fun r => r.handle = e.handle).map Reservation.id)
  rejectedReservations_nodup : e.rejectedReservations.Nodup
  nothing : e.allocated = [] ∧ e.allocatedReservations = [] ∧ e.rejected = [] ∧ e.preempted = []

/-- Everything is lost: `l` becomes `l'`, and the owners are told `es`. -/
structure Ledger.Halted (l l' : Ledger) (es : List Event) : Prop where
  get?_eq : ∀ id, l'.get? id = (l.get? id).filter Reservation.outlives
  indexed : ∀ r ∈ l.survivors, ∀ x ∈ r.resourceIds, l'.index.get? x = some r.id
  unindexed : ∀ r ∈ l.casualties, ∀ x ∈ r.resourceIds, l'.index.get? x = none
  /-- Each handle is told once, and only if it had a reservation. -/
  handles_nodup : (es.map Event.handle).Nodup
  mem_handles : ∀ h, h ∈ es.map Event.handle ↔ ∃ id r, l.get? id = some r ∧ r.handle = h
  told : ∀ e ∈ es, e.TellsLoss l

namespace Ledger

/-- The reservation that a resource is indexed for. -/
def owner? (l : Ledger) (x : ResourceId) : Option Reservation := (l.index.get? x).bind l.get?

variable {now : Time} {l l' : Ledger} {r : Reservation} {x : ResourceId} {e : Option Effect}

theorem Sound.owner?_iff (h : l.Sound) :
    l.owner? x = some r ↔ l.get? r.id = some r ∧ x ∈ r.resourceIds := by
  unfold owner?
  rw [Option.bind_eq_some_iff]
  constructor
  · rintro ⟨id, hi, hr⟩
    obtain ⟨s, hs, hx⟩ := h.index_iff.1 hi
    rw [hr] at hs
    obtain rfl := Option.some.inj hs
    obtain rfl := h.id_eq hr
    exact ⟨hr, hx⟩
  · rintro ⟨hr, hx⟩
    exact ⟨r.id, h.index_iff.2 ⟨r, hr, hx⟩, hr⟩

theorem Sound.owner?_drop (h : l.Sound) (hr : l.get? r.id = some r) (x : ResourceId) :
    (l.drop r).owner? x = if x ∈ r.resourceIds then none else l.owner? x := by
  split
  next hx =>
    unfold owner?
    rw [index_drop, if_pos hx, Option.bind_none]
  next hx =>
    refine Option.ext fun s => ?_
    rw [(h.drop hr).owner?_iff, h.owner?_iff, get?_drop]
    refine and_congr_left fun hxs => ?_
    split
    next hid =>
      refine iff_of_false nofun fun hs => hx ?_
      rw [← hid, hr] at hs
      rwa [Option.some.inj hs]
    next => rfl

/-! ### One loss -/

theorem Verdict.of_lost (h : r.Sound) :
    Verdict.of .lost r.status r.gang = if r.outlives then .report else .tearDown false := by
  unfold Reservation.outlives
  rcases h.status_cases with hs | hs | hs <;> cases hg : r.gang <;> simp [hs, Verdict.of]

/-- A loss is about nothing that is known, or it is told to a reservation that stays, or it tears
its reservation down. -/
inductive Loses (l : Ledger) (x : ResourceId) : Ledger → Option Effect → Prop
  | unknown : l.owner? x = none → Loses l x l none
  | told {r : Reservation} : l.get? r.id = some r → x ∈ r.resourceIds → r.outlives = true →
      Loses l x l (some { event := some { handle := r.handle, lost := [x] } })
  | goes {r : Reservation} : l.get? r.id = some r → x ∈ r.resourceIds → r.outlives = false →
      Loses l x (l.drop r) (some (r.tearDown x false))

theorem apply_loses (h : l.Sound) (now : Time) (x : ResourceId) :
    Loses l x (l.apply now (.lost x)).1 (l.apply now (.lost x)).2 := by
  cases hi : l.index.get? x with
  | none =>
    rw [apply_of_unindexed now (c := .lost x) hi]
    refine .unknown ?_
    unfold owner?
    rw [hi, Option.bind_none]
  | some id =>
    obtain ⟨r, hr, hx⟩ := h.index_iff.1 hi
    obtain rfl := h.id_eq hr
    have happly : l.apply now (.lost x) = l.applyNegative x .lost r := by
      unfold apply
      simp only [Change.resource, hi, hr]
    rw [happly]
    unfold applyNegative
    rw [Verdict.of_lost (h.sound hr)]
    cases ho : r.outlives with
    | true => exact .told hr hx ho
    | false =>
      simp only [Bool.false_eq_true, if_false, applyTearDown_eq]
      exact .goes hr hx ho

/-- A reservation stays if it outlives its resources, or as long as none of them is lost. -/
theorem Loses.get?_eq (hl : Loses l x l' e) (hr : l.get? r.id = some r)
    (hk : r.outlives = true ∨ x ∉ r.resourceIds) : l'.get? r.id = some r := by
  cases hl with
  | unknown => exact hr
  | told => exact hr
  | @goes s hs hx ho =>
    rw [get?_drop, if_neg, hr]
    intro hid
    rw [hid, hr] at hs
    obtain rfl := Option.some.inj hs
    rcases hk with hk | hk
    · rw [ho] at hk
      simp at hk
    · exact hk hx

theorem Loses.get?_eq_none (h : l.Sound) (hl : Loses l x l' e) (hr : l.get? r.id = some r)
    (ho : r.outlives = false) (hx : x ∈ r.resourceIds) : l'.get? r.id = none := by
  have howner := h.owner?_iff.2 ⟨hr, hx⟩
  cases hl with
  | unknown hn =>
    rw [hn] at howner
    simp at howner
  | told hs hxs hos =>
    rw [h.eq_of_shared hs hr hxs hx, ho] at hos
    simp at hos
  | goes hs hxs _ => rw [get?_drop, if_pos (congrArg _ (h.eq_of_shared hs hr hxs hx))]

/-- Which resources have a reservation that stays is not altered by a loss. -/
theorem Loses.owner?_any (h : l.Sound) (hl : Loses l x l' e) (q : Reservation → Bool)
    (hq : ∀ r, q r = true → r.outlives = true) (y : ResourceId) :
    (l'.owner? y).any q = (l.owner? y).any q := by
  cases hl with
  | unknown => rfl
  | told => rfl
  | @goes r hr _ ho =>
    rw [h.owner?_drop hr]
    split
    next hy =>
      rw [h.owner?_iff.2 ⟨hr, hy⟩]
      cases hqr : q r with
      | true => simp [hq r hqr] at ho
      | false => simp [hqr]
    next => rfl

/-- What a loss is told, to all handles that satisfy `q`. -/
theorem Loses.lost_eq (h : l.Sound) (hl : Loses l x l' e) (q : HandleId → Bool) :
    ((noticed e).filter fun f => q f.handle).flatMap Event.lost =
      [x].filter fun x => (l.owner? x).any fun r => r.outlives && q r.handle := by
  cases hl with
  | unknown hn => simp [noticed, hn]
  | @told r hr hx ho =>
    have howner := h.owner?_iff.2 ⟨hr, hx⟩
    cases hq : q r.handle <;> simp [noticed, howner, ho, hq]
  | @goes r hr hx ho =>
    have howner := h.owner?_iff.2 ⟨hr, hx⟩
    cases hq : q r.handle <;>
      simp [noticed, howner, ho, hq, Reservation.tearDown, Event.rejection]

/-- A loss that is not ignored is told as such, or takes a reservation. -/
theorem Loses.counts (hl : Loses l x l' e) :
    (if e.isSome then 1 else 0) =
      ((noticed e).flatMap Event.lost).length + if tearsDown e then 1 else 0 := by
  cases hl <;> rfl

/-- Losses bring no other news. -/
theorem Loses.nothing (hl : Loses l x l' e) : ∀ f ∈ noticed e,
    f.allocated = [] ∧ f.allocatedReservations = [] ∧ f.rejected = [] ∧ f.preempted = [] := by
  cases hl <;> simp [noticed, Reservation.tearDown, Event.rejection]

/-! ### Losses in a row -/

theorem through_get?_eq_none (h : l.Sound) (now : Time) (cs : List Change) {id : ReservationId}
    (hn : l.get? id = none) : (l.through now cs).get? id = none := by
  rw [Option.eq_none_iff_forall_ne_some]
  intro s hs
  obtain ⟨r, hr, -⟩ := through_origin h hs
  rw [hn] at hr
  simp at hr

theorem through_lost_of_outlives (h : l.Sound) (now : Time) (xs : List ResourceId)
    (hr : l.get? r.id = some r) (ho : r.outlives = true) :
    (l.through now (xs.map .lost)).get? r.id = some r := by
  induction xs generalizing l with
  | nil => exact hr
  | cons x xs ih =>
    rw [List.map_cons, through_cons]
    exact ih ((apply_applied h now _).sound h) ((apply_loses h now x).get?_eq hr (.inl ho))

theorem through_lost_of_mem (h : l.Sound) (now : Time) {xs : List ResourceId}
    (hr : l.get? r.id = some r) (ho : r.outlives = false) (hx : x ∈ xs)
    (hxr : x ∈ r.resourceIds) : (l.through now (xs.map .lost)).get? r.id = none := by
  induction xs generalizing l with
  | nil => simp at hx
  | cons y xs ih =>
    have hs := (apply_applied h now (.lost y)).sound h
    have hl := apply_loses h now y
    rw [List.map_cons, through_cons]
    by_cases hy : y ∈ r.resourceIds
    · exact through_get?_eq_none hs now _ (hl.get?_eq_none h hr ho hy)
    · refine ih hs (hl.get?_eq hr (.inr hy)) ((List.mem_cons.1 hx).resolve_left ?_)
      rintro rfl
      exact hy hxr

/-- The losses that are told to the handles that satisfy `q` are those of their reservations that
stay, in the order in which they are reported. -/
theorem course_lost (h : l.Sound) (now : Time) (xs : List ResourceId) (q : HandleId → Bool) :
    (((l.course now (xs.map .lost)).flatMap noticed).filter fun f => q f.handle).flatMap
        Event.lost =
      xs.filter fun x => (l.owner? x).any fun r => r.outlives && q r.handle := by
  induction xs generalizing l with
  | nil => rfl
  | cons x xs ih =>
    have hl := apply_loses h now x
    have howners : ∀ y, ((l.apply now (.lost x)).1.owner? y).any
        (fun r => r.outlives && q r.handle) =
          (l.owner? y).any fun r => r.outlives && q r.handle :=
      hl.owner?_any h _ fun r hr => (Bool.and_eq_true_iff.1 hr).1
    have hrest := ih ((apply_applied h now (.lost x)).sound h)
    rw [List.filter_congr fun y _ => howners y] at hrest
    rw [List.map_cons, course_cons, List.flatMap_cons, List.filter_append, List.flatMap_append,
      hl.lost_eq h q, hrest, ← List.filter_append]
    rfl

theorem course_lost_counts (h : l.Sound) (now : Time) (xs : List ResourceId) :
    (l.course now (xs.map .lost)).countP Option.isSome =
      (((l.course now (xs.map .lost)).flatMap noticed).flatMap Event.lost).length +
        (l.course now (xs.map .lost)).countP tearsDown := by
  induction xs generalizing l with
  | nil => rfl
  | cons x xs ih =>
    have hc := (apply_loses h now x).counts
    have hrest := ih ((apply_applied h now (.lost x)).sound h)
    rw [List.map_cons, course_cons, List.flatMap_cons, List.flatMap_append, List.length_append,
      List.countP_cons, List.countP_cons, hrest]
    omega

theorem course_lost_nothing (h : l.Sound) (now : Time) (xs : List ResourceId) :
    ∀ f ∈ (l.course now (xs.map .lost)).flatMap noticed,
      f.allocated = [] ∧ f.allocatedReservations = [] ∧ f.rejected = [] ∧ f.preempted = [] := by
  induction xs generalizing l with
  | nil => exact List.forall_mem_nil _
  | cons x xs ih =>
    rw [List.map_cons, course_cons, List.flatMap_cons, List.forall_mem_append]
    exact ⟨(apply_loses h now x).nothing, ih ((apply_applied h now (.lost x)).sound h)⟩

/-! ### All of them -/

theorem Sound.mem_survivors (h : l.Sound) :
    r ∈ l.survivors ↔ l.get? r.id = some r ∧ r.outlives = true := by
  unfold survivors
  rw [List.mem_filter, h.mem_values]

theorem Sound.mem_casualties (h : l.Sound) :
    r ∈ l.casualties ↔ l.get? r.id = some r ∧ r.outlives = false := by
  unfold casualties
  rw [List.mem_filter, h.mem_values, Bool.not_eq_true']

section

variable {xs : List ResourceId} (h : l.Sound) (hxs : xs.Perm l.index.keys) (now : Time)

include h hxs

theorem mem_listing : x ∈ xs ↔ ∃ r, l.get? r.id = some r ∧ x ∈ r.resourceIds := by
  rw [hxs.mem_iff, Table.mem_keys, Option.isSome_iff_exists]
  constructor
  · rintro ⟨id, hid⟩
    obtain ⟨r, hr, hx⟩ := h.index_iff.1 hid
    obtain rfl := h.id_eq hr
    exact ⟨r, hr, hx⟩
  · rintro ⟨r, hr, hx⟩
    exact ⟨r.id, h.index_iff.2 ⟨r, hr, hx⟩⟩

theorem through_listing (id : ReservationId) :
    (l.through now (xs.map .lost)).get? id = (l.get? id).filter Reservation.outlives := by
  cases hr : l.get? id with
  | none => rw [through_get?_eq_none h now _ hr, Option.filter_none]
  | some r =>
    obtain rfl := h.id_eq hr
    cases ho : r.outlives with
    | true => rw [through_lost_of_outlives h now xs hr ho, Option.filter_some_pos ho]
    | false =>
      obtain ⟨y, hy⟩ := List.exists_mem_of_ne_nil _ (h.sound hr).nonempty
      have hyr : y.id ∈ r.resourceIds := List.mem_map_of_mem hy
      rw [through_lost_of_mem h now hr ho ((mem_listing h hxs).2 ⟨r, hr, hyr⟩) hyr,
        Option.filter_some_neg (by simp [ho])]

theorem gone_listing : l.gone (l.through now (xs.map .lost)) = l.casualties := by
  unfold gone casualties
  refine List.filter_congr fun r hr => ?_
  rw [through_listing h hxs, h.mem_values.1 hr]
  cases ho : r.outlives <;> simp [Option.filter, ho]

/-- The resources that the handles with `q` lose, up to order. -/
theorem listing_perm (q : HandleId → Bool) :
    (xs.filter fun x => (l.owner? x).any fun r => r.outlives && q r.handle).Perm
      ((l.survivors.filter fun r => q r.handle).flatMap Reservation.resourceIds) := by
  have hn : ((l.survivors.filter fun r => q r.handle).flatMap Reservation.resourceIds).Nodup := by
    have hall := h.resources_nodup
    unfold resources at hall
    rw [List.map_flatMap] at hall
    exact hall.sublist ((List.filter_sublist.trans List.filter_sublist).flatMap _)
  have hnx : xs.Nodup := hxs.nodup_iff.2 l.index.keys_nodup
  refine (List.perm_ext_iff_of_nodup (hnx.filter _) hn).2 fun x => ?_
  simp only [List.mem_filter, List.mem_flatMap, h.mem_survivors, Option.any_eq_true,
    h.owner?_iff, mem_listing h hxs, Bool.and_eq_true]
  constructor
  · rintro ⟨-, r, ⟨hr, hx⟩, ho, hq⟩
    exact ⟨r, ⟨⟨hr, ho⟩, hq⟩, hx⟩
  · rintro ⟨r, ⟨⟨hr, ho⟩, hq⟩, hx⟩
    exact ⟨⟨r, hr, hx⟩, r, ⟨hr, hx⟩, ho, hq⟩

/-- What the events of the batch say of losses to the handles with `q`. -/
theorem listing_told (q : HandleId → Bool) :
    (((l.course now (xs.map .lost)).flatMap noticed).filter fun f => q f.handle).flatMap
        Event.lost |>.Perm
      ((l.survivors.filter fun r => q r.handle).flatMap Reservation.resourceIds) := by
  rw [course_lost h now xs q]
  exact listing_perm h hxs q

theorem reconcile_listing_told {e : Event} (he : e ∈ (l.reconcile now (xs.map .lost)).events) :
    e.TellsLoss l := by
  have hacc := reconcile_accounts h now (xs.map Change.lost)
  obtain ⟨hnodup, hperm⟩ := hacc.rejected_perm h he
  rw [reconcile_through, gone_listing h hxs now] at hperm
  have hfields := course_lost_nothing h now xs
  rw [reconcile_eq h] at he
  have hsaid : ∀ {α : Type} (p : Event → List α),
      (∀ e f, p (Event.append e f) = p e ++ p f) →
      p e = Event.saidTo e.handle p ((l.course now (xs.map .lost)).flatMap noticed) := by
    intro α p hp
    rw [← Event.saidTo_merged hp]
    exact (Event.saidTo_of_mem (Event.merged_nodup _) he).symm
  have hnone : ∀ {α : Type} (p : Event → List α),
      (∀ e f, p (Event.append e f) = p e ++ p f) →
      (∀ f ∈ (l.course now (xs.map .lost)).flatMap noticed, p f = []) → p e = [] := by
    intro α p hp hf
    rw [hsaid p hp]
    exact List.flatMap_eq_nil_iff.2 fun f hmem => hf f (List.mem_of_mem_filter hmem)
  have hlost : e.lost.Perm
      ((l.survivors.filter fun r => r.handle = e.handle).flatMap Reservation.resourceIds) := by
    rw [hsaid Event.lost fun _ _ => rfl]
    exact listing_told h hxs now fun k => k = e.handle
  refine ⟨hlost, ?_, hperm, hnodup, ?_, ?_, ?_, ?_⟩
  · rw [hsaid Event.lost fun _ _ => rfl]
    unfold Event.saidTo
    rw [course_lost h now xs fun k => k = e.handle]
    exact (hxs.nodup_iff.2 l.index.keys_nodup).filter _
  · exact hnone Event.allocated (fun _ _ => rfl) fun f hf => (hfields f hf).1
  · exact hnone Event.allocatedReservations (fun _ _ => rfl) fun f hf => (hfields f hf).2.1
  · exact hnone Event.rejected (fun _ _ => rfl) fun f hf => (hfields f hf).2.2.1
  · exact hnone Event.preempted (fun _ _ => rfl) fun f hf => (hfields f hf).2.2.2

theorem listing_told_has {e : Event} (he : e ∈ (l.reconcile now (xs.map .lost)).events) :
    ∃ id r, l.get? id = some r ∧ r.handle = e.handle := by
  have htold := reconcile_listing_told h hxs now he
  obtain ⟨hal, halr, hrej, hpre⟩ := htold.nothing
  by_cases hlost : e.lost = []
  · have hne : e.rejectedReservations ≠ [] := by
      intro hn
      have hsays := (reconcile_accounts h now (xs.map Change.lost)).nonempty e he
      simp [Event.isEmpty, hal, halr, hrej, hpre, hlost, hn] at hsays
    obtain ⟨id, hid⟩ := List.exists_mem_of_ne_nil _ hne
    obtain ⟨r, hr, rfl⟩ := List.mem_map.1 (htold.rejectedReservations.mem_iff.1 hid)
    obtain ⟨hr, hh⟩ := List.mem_filter.1 hr
    exact ⟨r.id, r, (h.mem_casualties.1 hr).1, of_decide_eq_true hh⟩
  · obtain ⟨x, hx⟩ := List.exists_mem_of_ne_nil _ hlost
    obtain ⟨r, hr, -⟩ := List.mem_flatMap.1 (htold.lost.mem_iff.1 hx)
    obtain ⟨hr, hh⟩ := List.mem_filter.1 hr
    exact ⟨r.id, r, (h.mem_survivors.1 hr).1, of_decide_eq_true hh⟩

theorem survivor_listing_told {r : Reservation} (hr : r ∈ l.survivors) :
    r.handle ∈ (l.reconcile now (xs.map .lost)).events.map Event.handle := by
  obtain ⟨y, hy⟩ := List.exists_mem_of_ne_nil _ (h.sound (h.mem_survivors.1 hr).1).nonempty
  have hmem : r ∈ l.survivors.filter fun s => s.handle = r.handle :=
    List.mem_filter.2 ⟨hr, decide_eq_true rfl⟩
  have hx := (listing_told h hxs now fun k => k = r.handle).mem_iff.2
    (List.mem_flatMap.2 ⟨r, hmem, List.mem_map_of_mem hy⟩)
  obtain ⟨f, hf, -⟩ := List.mem_flatMap.1 hx
  obtain ⟨hf, hh⟩ := List.mem_filter.1 hf
  rw [reconcile_eq h]
  exact Event.mem_handles_merged.2 (List.mem_map.2 ⟨f, hf, of_decide_eq_true hh⟩)

theorem casualty_listing_told {r : Reservation} (hr : r ∈ l.casualties) :
    r.handle ∈ (l.reconcile now (xs.map .lost)).events.map Event.handle := by
  have hacc := reconcile_accounts h now (xs.map Change.lost)
  have hgone : r ∈ l.gone (l.reconcile now (xs.map .lost)).ledger := by
    rw [reconcile_through, gone_listing h hxs now]
    exact hr
  obtain ⟨f, hf, hid⟩ := List.mem_flatMap.1 (hacc.named.mem_iff.2 (List.mem_map_of_mem hgone))
  obtain ⟨s, hs, hsid, hsh⟩ := hacc.owner f hf r.id hid
  have hget := ((mem_gone h).1 hs).1
  rw [hsid, (h.mem_casualties.1 hr).1] at hget
  obtain rfl := Option.some.inj hget
  exact hsh ▸ List.mem_map_of_mem hf

/-- A handle is told exactly if it has a reservation. -/
theorem reconcile_listing_handles (k : HandleId) :
    k ∈ (l.reconcile now (xs.map .lost)).events.map Event.handle ↔
      ∃ id r, l.get? id = some r ∧ r.handle = k := by
  constructor
  · intro hk
    obtain ⟨e, he, rfl⟩ := List.mem_map.1 hk
    exact listing_told_has h hxs now he
  · rintro ⟨id, r, hr, rfl⟩
    obtain rfl := h.id_eq hr
    cases ho : r.outlives with
    | true => exact survivor_listing_told h hxs now (h.mem_survivors.2 ⟨hr, ho⟩)
    | false => exact casualty_listing_told h hxs now (h.mem_casualties.2 ⟨hr, ho⟩)

/-- Whatever the order, everything being lost comes to the same. -/
theorem reconcile_halted : l.Halted (l.reconcile now (xs.map .lost)).ledger
    (l.reconcile now (xs.map .lost)).events := by
  constructor
  case get?_eq =>
    rw [reconcile_through]
    exact through_listing h hxs now
  case indexed =>
    intro r hr x hx
    obtain ⟨hr, ho⟩ := h.mem_survivors.1 hr
    rw [reconcile_through, (through_sound h now _).index_iff]
    exact ⟨r, through_lost_of_outlives h now xs hr ho, hx⟩
  case unindexed =>
    intro r hr x hx
    obtain ⟨hr, ho⟩ := h.mem_casualties.1 hr
    rw [reconcile_through, Option.eq_none_iff_forall_ne_some]
    intro id hid
    obtain ⟨s, hs, hxs'⟩ := (through_sound h now _).index_iff.1 hid
    rw [through_listing h hxs, Option.filter_eq_some_iff] at hs
    rw [h.eq_of_shared hs.1 hr hxs' hx, ho] at hs
    simp at hs
  case handles_nodup => exact (reconcile_accounts h now (xs.map Change.lost)).handles
  case mem_handles => exact reconcile_listing_handles h hxs now
  case told => exact fun e he => reconcile_listing_told h hxs now he

/-- What is applied: a report for each resource that is survived, and one for each reservation that
goes. -/
theorem reconcile_listing_applied : (l.reconcile now (xs.map .lost)).applied =
    (l.survivors.flatMap Reservation.resources).length + l.casualties.length := by
  have hcount := course_lost_counts h now xs
  have htorn := (course_departures h now (xs.map .lost)).2.2
  have hgone := (departures_perm h now (xs.map .lost)).length_eq
  rw [List.length_map, List.length_map, gone_listing h hxs] at hgone
  have hlost := (listing_told h hxs now fun _ => true).length_eq
  have hids : l.survivors.flatMap Reservation.resourceIds =
      (l.survivors.flatMap Reservation.resources).map Resource.id := List.map_flatMap.symm
  rw [List.filter_true, List.filter_true, hids, List.length_map] at hlost
  rw [reconcile_eq h]
  change (l.course now (xs.map .lost)).countP Option.isSome = _
  rw [hcount, htorn, hgone, hlost]

end

end Ledger

end ClusterBroker
