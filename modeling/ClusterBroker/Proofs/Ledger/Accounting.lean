import Mathlib.Data.List.Flatten
import ClusterBroker.Proofs.Ledger.Course

/-!
# The account of a batch

What a batch counts, tells and gives back is what happened to the ledger. A reservation that is
gone left with one change about one of its resources, its departure: it is named once to its
owner, and its other resources are given back as they were then. From then on its resources are
not indexed, so later changes about them are ignored.
-/
namespace ClusterBroker

namespace Ledger

variable {now : Time} {l l' : Ledger} {c : Change} {e : Option Effect}

/-- The reservations that are not there any more. -/
def gone (l l' : Ledger) : List Reservation :=
  l.reservations.values.filter fun r => (l'.get? r.id).isNone

/-- The reservations that leave while changes are applied: each as it was until then, with the
change that it left with. -/
def departures (now : Time) : List Change → Ledger → List (Change × Reservation)
  | [], _ => []
  | c :: cs, l =>
    (l.gone (l.apply now c).1).map (fun r => (c, r)) ++ departures now cs (l.apply now c).1

/-- After these changes of a batch the next one is counted as ignored. -/
def Ignores (now : Time) (l : Ledger) (before : List Change) (c : Change) : Prop :=
  (l.reconcile now (before ++ [c])).ignored = (l.reconcile now before).ignored + 1

/-- The outcome of the batch `cs`, taken in by `l`, agrees with what happened. -/
structure Batch.Accounts (now : Time) (cs : List Change) (l : Ledger) (b : Batch) : Prop where
  counted : b.applied + b.ignored = cs.length
  ignored_iff : ∀ before c rest, cs = before ++ c :: rest →
    (l.Ignores now before c ↔
      (l.reconcile now (before ++ [c])).ledger = (l.reconcile now before).ledger ∧
      (l.reconcile now (before ++ [c])).events = (l.reconcile now before).events ∧
      (l.reconcile now (before ++ [c])).toRelease = (l.reconcile now before).toRelease)
  tornDown : b.tornDown = (l.gone b.ledger).length
  named : (rejectedIn b.events).Perm ((l.gone b.ledger).map Reservation.id)
  /-- A reservation that is gone is named to its owner. -/
  owner : ∀ f ∈ b.events, ∀ id ∈ f.rejectedReservations,
    ∃ r ∈ l.gone b.ledger, r.id = id ∧ r.handle = f.handle
  departed : ((l.departures now cs).map fun p => p.2.id).Perm
    ((l.gone b.ledger).map Reservation.id)
  trigger : ∀ p ∈ l.departures now cs, p.1.resource ∈ p.2.resourceIds
  toRelease : b.toRelease =
    (l.departures now cs).flatMap fun p => p.2.resources.filter fun x => x.id ≠ p.1.resource
  once : (b.toRelease.map Resource.id).Nodup
  unindexed : ∀ p ∈ l.departures now cs, ∀ x ∈ p.2.resourceIds, b.ledger.index.get? x = none
  /-- Once a reservation has left with the change `c`, the changes about its resources are
  ignored. -/
  later : ∀ before c between d rest, cs = before ++ c :: between ++ d :: rest →
    ∀ r ∈ (l.reconcile now before).ledger.gone (l.reconcile now (before ++ [c])).ledger,
      d.resource ∈ r.resourceIds → l.Ignores now (before ++ c :: between) d
  handles : (b.events.map Event.handle).Nodup
  nonempty : ∀ f ∈ b.events, f.isEmpty = false
  /-- The handles appear in the order in which they first have something to learn. -/
  ordered : ∀ n, (l.reconcile now (cs.take n)).events.map Event.handle <+:
    b.events.map Event.handle

/-! ### One change -/

theorem Sound.mem_values (h : l.Sound) {r : Reservation} :
    r ∈ l.reservations.values ↔ l.get? r.id = some r :=
  Table.mem_values_of_key fun _ _ => h.id_eq

theorem mem_gone (h : l.Sound) {r : Reservation} :
    r ∈ l.gone l' ↔ l.get? r.id = some r ∧ l'.get? r.id = none := by
  unfold gone
  rw [List.mem_filter, h.mem_values, Option.isNone_iff_eq_none]

theorem mem_gone_ids (h : l.Sound) {id : ReservationId} :
    id ∈ (l.gone l').map Reservation.id ↔ l.get? id ≠ none ∧ l'.get? id = none := by
  rw [List.mem_map]
  constructor
  · rintro ⟨r, hr, rfl⟩
    obtain ⟨hr, hn⟩ := (mem_gone h).1 hr
    exact ⟨by simp [hr], hn⟩
  · rintro ⟨hs, hn⟩
    obtain ⟨r, hr⟩ := Option.ne_none_iff_exists'.1 hs
    obtain rfl := h.id_eq hr
    exact ⟨r, (mem_gone h).2 ⟨hr, hn⟩, rfl⟩

theorem Sound.values_nodup (h : l.Sound) : (l.reservations.values.map Reservation.id).Nodup := by
  have hids : l.reservations.values.map Reservation.id = l.reservations.keys := by
    unfold Table.values Table.keys
    rw [List.map_map]
    exact List.map_congr_left fun p hp => h.id_eq (Table.mem_entries.1 hp)
  rw [hids]
  exact l.reservations.keys_nodup

theorem Sound.gone_nodup (h : l.Sound) (l' : Ledger) :
    ((l.gone l').map Reservation.id).Nodup :=
  h.values_nodup.sublist (List.filter_sublist.map Reservation.id)

theorem gone_of_forall (h : l.Sound) (hk : ∀ r, l.get? r.id = some r → l'.get? r.id ≠ none) :
    l.gone l' = [] := by
  rw [List.eq_nil_iff_forall_not_mem]
  intro r hr
  obtain ⟨hr, hn⟩ := (mem_gone h).1 hr
  exact hk r hr hn

theorem gone_drop (h : l.Sound) {r : Reservation} (hr : l.get? r.id = some r) :
    l.gone (l.drop r) = [r] := by
  have hn : (l.gone (l.drop r)).Nodup := (h.gone_nodup _).of_map Reservation.id
  refine List.perm_singleton.1 ((List.perm_ext_iff_of_nodup hn (List.nodup_singleton r)).2 ?_)
  intro s
  rw [mem_gone h, get?_drop, List.mem_singleton]
  constructor
  · rintro ⟨hs, hd⟩
    split at hd
    next he =>
      rw [← he, hr] at hs
      exact (Option.some.inj hs).symm
    next =>
      rw [hs] at hd
      simp at hd
  · rintro rfl
    exact ⟨hr, if_pos rfl⟩

/-- A change leaves everything where it is, or it takes one reservation away. -/
theorem Applied.departs (h : l.Sound) (ha : Applied now l c l' e) :
    l.gone l' = [] ∧ tearsDown e = false ∧ givenUp e = [] ∧ rejectedIn (noticed e) = [] ∨
      ∃ r b, l.gone l' = [r] ∧ l.get? r.id = some r ∧ c.resource ∈ r.resourceIds ∧
        l' = l.drop r ∧ e = some (r.tearDown c.resource b) := by
  have hstill : l.gone l = [] := gone_of_forall h fun r hr => by simp [hr]
  cases ha with
  | unknown => exact .inl ⟨hstill, rfl, rfl, rfl⟩
  | repeated => exact .inl ⟨hstill, rfl, rfl, rfl⟩
  | illegal => exact .inl ⟨hstill, rfl, rfl, rfl⟩
  | @reported c r =>
    refine .inl ⟨hstill, rfl, rfl, ?_⟩
    cases c <;> rfl
  | @granted id a r x hr hx =>
    refine .inl ⟨gone_of_forall h fun s hs => ?_, rfl, rfl, ?_⟩
    · rw [get?_update]
      split <;> simp [hs]
    · unfold Reservation.grantEvent noticed rejectedIn
      dsimp only [Option.bind_some]
      split
      · rfl
      · split <;> rfl
  | tornDown hr hc => exact .inr ⟨_, _, gone_drop h hr, hr, hc, rfl, rfl⟩

/-- What has an effect alters the ledger or is told. -/
theorem Applied.told_of_unmoved (h : l.Sound) (ha : Applied now l c l' e) (hl : l' = l)
    (he : e ≠ none) : ∃ f, noticed e = [f] := by
  cases ha with
  | unknown => exact absurd rfl he
  | repeated => exact absurd rfl he
  | illegal => exact absurd rfl he
  | reported => exact ⟨_, rfl⟩
  | tornDown => exact ⟨_, rfl⟩
  | @granted id a r x hr hx hn =>
    obtain ⟨hxr, rfl⟩ := Reservation.mem_of_resource? hx
    have hs := h.sound hr
    have hsame : r.grant now x.id a = r := by
      have hget : (l.update (r.grant now x.id a)).get? r.id = some (r.grant now x.id a) := by
        rw [get?_update, if_pos (Reservation.grant_id hs now x.id a)]
      rw [hl, hr] at hget
      exact (Option.some.inj hget).symm
    have hmem : x.allocate a ∈ r.resources := hsame ▸ Reservation.mem_grant hs now a hxr
    have heq : x.allocate a = x := List.inj_on_of_nodup_map hs.nodup hmem hxr rfl
    rw [← heq] at hn
    simp at hn

/-- A change keeps the resources, or takes away those of the reservation that leaves. -/
theorem Applied.resources_perm (h : l.Sound) (ha : Applied now l c l' e) :
    (l.resources.map Resource.id).Perm
      ((l.gone l').flatMap Reservation.resourceIds ++ l'.resources.map Resource.id) := by
  rcases ha.departs h with ⟨hg, -⟩ | ⟨r, b, hg, hr, -, rfl, -⟩
  · rw [hg, List.flatMap_nil, List.nil_append]
    cases ha with
    | unknown => exact .refl _
    | repeated => exact .refl _
    | illegal => exact .refl _
    | reported => exact .refl _
    | @granted id a r x hr hx =>
      obtain ⟨hxr, rfl⟩ := Reservation.mem_of_resource? hx
      obtain ⟨rest, hp, hp'⟩ := resources_grant h hr now a hxr
      exact (hp.map Resource.id).trans (hp'.map Resource.id).symm
    | tornDown hr =>
      rw [gone_drop h hr] at hg
      simp at hg
  · rw [hg, List.flatMap_singleton]
    have hp := (resources_drop hr).map Resource.id
    rw [List.map_append] at hp
    exact hp

/-! ### Along a batch -/

theorem reconcile_concat (h : l.Sound) (now : Time) (cs : List Change) (c : Change) :
    l.reconcile now (cs ++ [c]) =
      .ofCourse ((l.through now cs).apply now c).1
        (l.course now cs ++ [((l.through now cs).apply now c).2]) := by
  rw [reconcile_eq h, through_append, course_append]
  rfl

theorem ignores_iff (h : l.Sound) {cs : List Change} :
    l.Ignores now cs c ↔ ((l.through now cs).apply now c).2 = none := by
  unfold Ignores
  rw [reconcile_concat h, reconcile_eq h]
  unfold Batch.ofCourse
  dsimp only
  rw [List.countP_append, Nat.add_left_cancel_iff]
  cases ((l.through now cs).apply now c).2 <;> simp

/-- An ignored change leaves the outcome of the batch as it is, and no other change does. -/
theorem ignores_iff_idle (h : l.Sound) {cs : List Change} :
    l.Ignores now cs c ↔
      (l.reconcile now (cs ++ [c])).ledger = (l.reconcile now cs).ledger ∧
      (l.reconcile now (cs ++ [c])).events = (l.reconcile now cs).events ∧
      (l.reconcile now (cs ++ [c])).toRelease = (l.reconcile now cs).toRelease := by
  have hs := through_sound h now cs
  have ha := apply_applied hs now c
  rw [ignores_iff h, reconcile_concat h, reconcile_eq h]
  unfold Batch.ofCourse
  dsimp only
  rw [List.flatMap_append, List.flatMap_append, List.flatMap_singleton, List.flatMap_singleton]
  constructor
  · intro he
    rw [he] at ha ⊢
    exact ⟨ha.eq_of_ignored, by rw [noticed, Option.bind_none, Option.toList_none, List.append_nil],
      List.append_nil _⟩
  · rintro ⟨hl, hev, -⟩
    by_contra he
    obtain ⟨f, hf⟩ := ha.told_of_unmoved hs hl he
    have hsays := ha.isEmpty_eq_false f (by rw [hf]; exact List.mem_singleton_self f)
    rw [hf, Event.merged_concat] at hev
    exact Event.addTo_ne_self hsays _ hev

/-- What is given back, what is told and what is counted of reservations that leave, read off the
departures. -/
theorem course_departures (h : l.Sound) (now : Time) (cs : List Change) :
    (l.course now cs).flatMap givenUp = (l.departures now cs).flatMap
      (fun p => p.2.resources.filter fun x => x.id ≠ p.1.resource) ∧
    rejectedIn ((l.course now cs).flatMap noticed) = (l.departures now cs).map (fun p => p.2.id) ∧
    (l.course now cs).countP tearsDown = (l.departures now cs).length := by
  induction cs generalizing l with
  | nil => exact ⟨rfl, rfl, rfl⟩
  | cons c cs ih =>
    have ha := apply_applied h now c
    obtain ⟨hrel, hrej, hcount⟩ := ih (ha.sound h)
    rw [course_cons, departures, List.flatMap_cons, List.flatMap_cons, rejectedIn_append,
      List.countP_cons, List.flatMap_append, List.map_append, List.length_append, hrel, hrej,
      hcount]
    rcases ha.departs h with ⟨hg, ht, hu, hn⟩ | ⟨r, b, hg, -, -, -, he⟩
    · rw [hg, ht, hu, hn]
      simp
    · rw [hg, he]
      refine ⟨by simp [givenUp, Reservation.tearDown], ?_, by simp [tearsDown, Reservation.tearDown,
        Nat.add_comm]⟩
      cases b <;> simp [noticed, Reservation.tearDown, rejectedIn, Event.rejection]

theorem departures_trigger (h : l.Sound) {cs : List Change} :
    ∀ p ∈ l.departures now cs, p.1.resource ∈ p.2.resourceIds := by
  induction cs generalizing l with
  | nil => exact List.forall_mem_nil _
  | cons c cs ih =>
    have ha := apply_applied h now c
    rw [departures, List.forall_mem_append]
    refine ⟨fun p hp => ?_, ih (ha.sound h)⟩
    obtain ⟨r, hr, rfl⟩ := List.mem_map.1 hp
    rcases ha.departs h with ⟨hg, -⟩ | ⟨s, b, hg, -, hc, -⟩
    · rw [hg] at hr
      simp at hr
    · rw [hg, List.mem_singleton] at hr
      exact hr ▸ hc

theorem mem_departures_ids (h : l.Sound) {cs : List Change} {id : ReservationId} :
    id ∈ (l.departures now cs).map (fun p => p.2.id) ↔
      l.get? id ≠ none ∧ (l.through now cs).get? id = none := by
  induction cs generalizing l with
  | nil =>
    refine iff_of_false List.not_mem_nil ?_
    rintro ⟨hs, hn⟩
    exact hs hn
  | cons c cs ih =>
    have ha := apply_applied h now c
    have hs := ha.sound h
    have hids : ((l.gone (l.apply now c).1).map fun r => (c, r)).map (fun p => p.2.id) =
        (l.gone (l.apply now c).1).map Reservation.id := List.map_map
    rw [departures, List.map_append, List.mem_append, hids, mem_gone_ids h, ih hs, through_cons]
    constructor
    · rintro (⟨hl, hn⟩ | ⟨hn, hgone⟩)
      · refine ⟨hl, Option.eq_none_iff_forall_ne_some.2 fun s hget => ?_⟩
        obtain ⟨r, hr, -⟩ := through_origin hs hget
        rw [hn] at hr
        simp at hr
      · obtain ⟨s, hget⟩ := Option.ne_none_iff_exists'.1 hn
        obtain ⟨r, hr, -⟩ := ha.origin h hget
        exact ⟨by simp [hr], hgone⟩
    · rintro ⟨hl, hgone⟩
      by_cases hn : (l.apply now c).1.get? id = none
      · exact .inl ⟨hl, hn⟩
      · exact .inr ⟨hn, hgone⟩

theorem departures_nodup (h : l.Sound) (now : Time) (cs : List Change) :
    ((l.departures now cs).map fun p => p.2.id).Nodup := by
  induction cs generalizing l with
  | nil => exact List.nodup_nil
  | cons c cs ih =>
    have hs := (apply_applied h now c).sound h
    have hids : ((l.gone (l.apply now c).1).map fun r => (c, r)).map (fun p => p.2.id) =
        (l.gone (l.apply now c).1).map Reservation.id := List.map_map
    rw [departures, List.map_append, hids]
    refine (h.gone_nodup _).append (ih hs) fun id hg hd => ?_
    exact ((mem_departures_ids hs).1 hd).1 ((mem_gone_ids h).1 hg).2

/-- The reservations that leave, up to order, are those that are not there at the end. -/
theorem departures_perm (h : l.Sound) (now : Time) (cs : List Change) :
    ((l.departures now cs).map fun p => p.2.id).Perm
      ((l.gone (l.through now cs)).map Reservation.id) := by
  refine (List.perm_ext_iff_of_nodup (departures_nodup h now cs) (h.gone_nodup _)).2 fun id => ?_
  rw [mem_departures_ids h, mem_gone_ids h]

/-- Every resource stays, or goes with the reservation that it belongs to. -/
theorem departures_resources (h : l.Sound) (now : Time) (cs : List Change) :
    (l.resources.map Resource.id).Perm
      ((l.departures now cs).flatMap (fun p => p.2.resourceIds) ++
        (l.through now cs).resources.map Resource.id) := by
  induction cs generalizing l with
  | nil => exact .refl _
  | cons c cs ih =>
    have ha := apply_applied h now c
    have hids :
        ((l.gone (l.apply now c).1).map fun r => (c, r)).flatMap (fun p => p.2.resourceIds) =
          (l.gone (l.apply now c).1).flatMap Reservation.resourceIds := List.flatMap_map ..
    rw [departures, List.flatMap_append, hids, List.append_assoc, through_cons]
    exact (ha.resources_perm h).trans ((ih (ha.sound h)).append_left _)

theorem departures_resources_nodup (h : l.Sound) (now : Time) (cs : List Change) :
    ((l.departures now cs).flatMap (fun p => p.2.resourceIds) ++
      (l.through now cs).resources.map Resource.id).Nodup :=
  (departures_resources h now cs).nodup_iff.1 h.resources_nodup

theorem departures_unindexed (h : l.Sound) {cs : List Change} {p : Change × Reservation}
    (hp : p ∈ l.departures now cs) {x : ResourceId} (hx : x ∈ p.2.resourceIds) :
    (l.through now cs).index.get? x = none := by
  rw [Option.eq_none_iff_forall_ne_some]
  intro id hid
  obtain ⟨r, hr, hxr⟩ := (through_sound h now cs).index_iff.1 hid
  obtain ⟨y, hy, rfl⟩ := List.mem_map.1 hxr
  have hstays : y.id ∈ (l.through now cs).resources.map Resource.id :=
    List.mem_map_of_mem (mem_resources.2 ⟨id, r, hr, hy⟩)
  exact List.disjoint_of_nodup_append (departures_resources_nodup h now cs)
    (List.mem_flatMap.2 ⟨p, hp, hx⟩) hstays

theorem departures_append (cs ds : List Change) (l : Ledger) :
    l.departures now (cs ++ ds) =
      l.departures now cs ++ (l.through now cs).departures now ds := by
  induction cs generalizing l with
  | nil => rfl
  | cons c cs ih =>
    rw [List.cons_append, departures, departures, ih, List.append_assoc, through_cons]

theorem ignores_later (h : l.Sound) {before between : List Change} {d : Change} {r : Reservation}
    (hr : r ∈ (l.through now before).gone (l.through now (before ++ [c])))
    (hd : d.resource ∈ r.resourceIds) : l.Ignores now (before ++ c :: between) d := by
  have hp : (c, r) ∈ l.departures now (before ++ c :: between) := by
    rw [departures_append, departures]
    refine List.mem_append_right _ (List.mem_append_left _ (List.mem_map_of_mem ?_))
    rw [through_append] at hr
    exact hr
  have hn := departures_unindexed h hp hd
  rw [ignores_iff h]
  unfold apply
  rw [hn]

/-- Whoever is told that a reservation was rejected is the one that it belonged to. -/
theorem course_owner (h : l.Sound) {cs : List Change} {f : Event}
    (hf : f ∈ (l.course now cs).flatMap noticed) {id : ReservationId}
    (hid : id ∈ f.rejectedReservations) :
    ∃ r ∈ l.gone (l.through now cs), r.id = id ∧ r.handle = f.handle := by
  have hgone : id ∈ (l.departures now cs).map fun p => p.2.id := by
    rw [← (course_departures h now cs).2.1]
    exact List.mem_flatMap.2 ⟨f, hf, hid⟩
  obtain ⟨e, he, hfe⟩ := List.mem_flatMap.1 hf
  obtain ⟨before, c, rest, rfl, rfl⟩ := mem_course he
  have hs := through_sound h now before
  obtain ⟨s, hget, -, hh⟩ :=
    (apply_applied hs now c).mentions hs hfe (.inl (List.mem_append_right _ hid))
  obtain ⟨r, hr, hadv⟩ := through_origin h hget
  obtain rfl := h.id_eq hr
  refine ⟨r, (mem_gone h).2 ⟨hr, ((mem_departures_ids h).1 hgone).2⟩, rfl, ?_⟩
  rw [hh]
  exact (Reservation.claim_eq_iff.1 hadv.claim_eq).2.1.symm

/-- What is said to be gone in the merged events, up to order. -/
theorem rejectedIn_merged (fs : List Event) :
    (rejectedIn (Event.merged fs)).Perm (rejectedIn fs) := by
  rw [List.perm_iff_count]
  intro id
  induction fs using List.reverseRecOn with
  | nil => rfl
  | append_singleton fs f ih =>
    rw [Event.merged_concat, rejectedIn,
      count_flatMap_addTo Event.rejectedReservations fun _ _ => rfl,
      List.flatMap_append, List.count_append, rejectedIn_append, List.count_append]
    exact congrArg (· + _) ih

theorem reconcile_accounts (h : l.Sound) (now : Time) (cs : List Change) :
    (l.reconcile now cs).Accounts now cs l := by
  obtain ⟨hrel, hrej, hcount⟩ := course_departures h now cs
  have hperm := departures_perm h now cs
  have hledger := reconcile_through now cs l
  have htold : (rejectedIn (l.reconcile now cs).events).Perm
      ((l.departures now cs).map fun p => p.2.id) := by
    rw [reconcile_eq h, ← hrej]
    exact rejectedIn_merged _
  have hback : (l.reconcile now cs).toRelease =
      (l.departures now cs).flatMap fun p => p.2.resources.filter fun x => x.id ≠ p.1.resource := by
    rw [reconcile_eq h, ← hrel]
    rfl
  constructor
  case counted =>
    rw [reconcile_eq h]
    have hlen := (l.course now cs).length_eq_countP_add_countP Option.isSome
    have hnone : (fun e : Option Effect => decide ¬ e.isSome = true) = Option.isNone := by
      funext e
      cases e <;> rfl
    rw [length_course, hnone] at hlen
    exact hlen.symm
  case ignored_iff =>
    intro before c rest _
    exact ignores_iff_idle h
  case tornDown =>
    have hlen := hperm.length_eq
    rw [List.length_map, List.length_map] at hlen
    rw [hledger, ← hlen, ← hcount, reconcile_eq h]
    rfl
  case named =>
    rw [hledger]
    exact htold.trans hperm
  case owner =>
    rw [hledger, reconcile_eq h]
    intro f hf id hid
    have hsaid : id ∈ Event.saidTo f.handle Event.rejectedReservations
        (Event.merged ((l.course now cs).flatMap noticed)) :=
      Event.mem_saidTo.2 ⟨f, hf, rfl, hid⟩
    rw [Event.saidTo_merged fun _ _ => rfl] at hsaid
    obtain ⟨g, hg, hh, hid⟩ := Event.mem_saidTo.1 hsaid
    rw [← hh]
    exact course_owner h hg hid
  case departed =>
    rw [hledger]
    exact hperm
  case trigger => exact departures_trigger h
  case toRelease => exact hback
  case once =>
    rw [hback, List.map_flatMap]
    refine (List.nodup_append.1 (departures_resources_nodup h now cs)).1.sublist ?_
    exact .flatMap_right _ fun p _ => List.filter_sublist.map Resource.id
  case unindexed =>
    rw [hledger]
    exact fun p hp x hx => departures_unindexed h hp hx
  case later =>
    intro before c between d rest _ r hr hd
    rw [reconcile_through, reconcile_through] at hr
    exact ignores_later h hr hd
  case handles =>
    rw [reconcile_eq h]
    exact Event.merged_nodup _
  case nonempty =>
    intro f hf
    simpa using (List.mem_filter.1 hf).2
  case ordered =>
    intro n
    have hsplit : l.course now (cs.take n ++ cs.drop n) = _ := course_append ..
    rw [List.take_append_drop] at hsplit
    rw [reconcile_eq h, reconcile_eq h, hsplit]
    unfold Batch.ofCourse
    dsimp only
    rw [List.flatMap_append]
    exact Event.merged_handles_prefix _ _

/-- An event names the reservations of its handle that are gone, each once. -/
theorem Batch.Accounts.rejected_perm {cs : List Change} {b : Batch} (ha : b.Accounts now cs l)
    (h : l.Sound) {f : Event} (hf : f ∈ b.events) :
    f.rejectedReservations.Nodup ∧ f.rejectedReservations.Perm
      (((l.gone b.ledger).filter fun r => r.handle = f.handle).map Reservation.id) := by
  have hgone := h.gone_nodup b.ledger
  have hn : f.rejectedReservations.Nodup :=
    (List.nodup_flatMap.1 (ha.named.nodup_iff.2 hgone)).1 f hf
  have hn' : (((l.gone b.ledger).filter fun r => r.handle = f.handle).map Reservation.id).Nodup :=
    hgone.sublist (List.filter_sublist.map Reservation.id)
  refine ⟨hn, (List.perm_ext_iff_of_nodup hn hn').2 fun id => ?_⟩
  constructor
  · intro hid
    obtain ⟨r, hr, rfl, hh⟩ := ha.owner f hf id hid
    exact List.mem_map_of_mem (List.mem_filter.2 ⟨hr, decide_eq_true hh⟩)
  · intro hid
    obtain ⟨r, hr, rfl⟩ := List.mem_map.1 hid
    obtain ⟨hr, hh⟩ := List.mem_filter.1 hr
    obtain ⟨g, hg, hid⟩ := List.mem_flatMap.1 (ha.named.mem_iff.2 (List.mem_map_of_mem hr))
    obtain ⟨s, hs, hsid, hsh⟩ := ha.owner g hg r.id hid
    have hsr : s = r := List.inj_on_of_nodup_map hgone hs hr hsid
    have hgf : g = f := List.inj_on_of_nodup_map ha.handles hg hf
      (by rw [← hsh, hsr]; exact of_decide_eq_true hh)
    exact hgf ▸ hid

end Ledger

end ClusterBroker
