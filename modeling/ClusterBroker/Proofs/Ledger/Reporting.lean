import ClusterBroker.Proofs.Ledger.Batch
import ClusterBroker.Proofs.Ledger.Grants

/-!
# What is told of one reservation

Everything that a list of events says about one reservation follows from what it was granted.
A gang is not spoken of until it is complete, and then all its resources are listed at once in
the order of the request. Of any other reservation each resource is listed when it is granted.
When the last one is, the reservation is reported as allocated; it may be rejected instead, but
only before anything of it was listed.

One change keeps this, so a batch does as long as its events are not merged yet. Merging is per
handle, and the events that speak of one reservation are all to its own.
-/
namespace ClusterBroker

/-! ### Events about one reservation -/

/-- The resources of a reservation that events list as allocated, in order. -/
def reported (id : ReservationId) (es : List Event) : List Resource :=
  (es.flatMap Event.allocated).filter fun x => x.reservation = id

/-- The reservations that events report as allocated. -/
def allocatedIn (es : List Event) : List ReservationId := es.flatMap Event.allocatedReservations

/-- The reservations that events report as rejected. -/
def rejectedIn (es : List Event) : List ReservationId := es.flatMap Event.rejectedReservations

@[simp] theorem reported_nil (id : ReservationId) : reported id [] = [] := rfl

@[simp] theorem reported_append (id : ReservationId) (es fs : List Event) :
    reported id (es ++ fs) = reported id es ++ reported id fs := by
  unfold reported
  rw [List.flatMap_append, List.filter_append]

@[simp] theorem reported_cons (id : ReservationId) (e : Event) (es : List Event) :
    reported id (e :: es) = (e.allocated.filter fun x => x.reservation = id) ++ reported id es := by
  unfold reported
  rw [List.flatMap_cons, List.filter_append]

@[simp] theorem allocatedIn_append (es fs : List Event) :
    allocatedIn (es ++ fs) = allocatedIn es ++ allocatedIn fs := List.flatMap_append

@[simp] theorem rejectedIn_append (es fs : List Event) :
    rejectedIn (es ++ fs) = rejectedIn es ++ rejectedIn fs := List.flatMap_append

/-- The event says how a reservation ended up, or lists a resource of it. -/
def Event.Mentions (id : ReservationId) (e : Event) : Prop :=
  id ∈ e.settled ∨ ∃ x ∈ e.allocated, x.reservation = id

theorem Event.reported_of_not_mentions {id : ReservationId} {e : Event} (h : ¬ e.Mentions id) :
    reported id [e] = [] := by
  rw [reported_cons, reported_nil, List.append_nil, List.filter_eq_nil_iff]
  intro x hx he
  exact h (.inr ⟨x, hx, of_decide_eq_true he⟩)

theorem reported_of_not_mentions {id : ReservationId} {es : List Event}
    (h : ∀ e ∈ es, ¬ e.Mentions id) : reported id es = [] := by
  induction es with
  | nil => rfl
  | cons e es ih =>
    have he := Event.reported_of_not_mentions (h e (List.mem_cons_self ..))
    rw [← List.singleton_append, reported_append, he,
      ih fun f hf => h f (List.mem_cons_of_mem e hf)]
    rfl

theorem allocatedIn_of_not_mentions {id : ReservationId} {es : List Event}
    (h : ∀ e ∈ es, ¬ e.Mentions id) : id ∉ allocatedIn es := by
  intro hm
  obtain ⟨e, he, hid⟩ := List.mem_flatMap.1 hm
  exact h e he (.inl (List.mem_append_left _ hid))

theorem rejectedIn_of_not_mentions {id : ReservationId} {es : List Event}
    (h : ∀ e ∈ es, ¬ e.Mentions id) : id ∉ rejectedIn es := by
  intro hm
  obtain ⟨e, he, hid⟩ := List.mem_flatMap.1 hm
  exact h e he (.inl (List.mem_append_right _ hid))

/-! ### The protocol -/

/-- What events say about `r` when `granted` is what it was granted. -/
structure Reported (r : Reservation) (granted : List Resource) (es : List Event) : Prop where
  /-- A gang is listed as a whole, and not before it is complete. -/
  gang : r.gang = true → reported r.id es = if r.Complete granted then r.filled granted else []
  /-- The resources of other reservations are listed as they are granted. -/
  single : r.gang = false → reported r.id es = granted
  /-- The reservation is reported as allocated once, when it is complete. -/
  allocated : (allocatedIn es).count r.id = if r.Complete granted then 1 else 0
  /-- If it is rejected, it never completes and nothing of it was listed. -/
  rejected : r.id ∈ rejectedIn es → ¬ r.Complete granted ∧ reported r.id es = []
  /-- It is reported at most once in all. -/
  once : (allocatedIn es).count r.id + (rejectedIn es).count r.id ≤ 1

/-- All that is said of `r` goes to its own handle, and no handle gets two events. -/
structure Addressed (r : Reservation) (es : List Event) : Prop where
  nodup : (es.map Event.handle).Nodup
  own : ∀ e ∈ es, e.Mentions r.id → e.handle = r.handle

theorem Reported.of_nothing {r : Reservation} (hs : r.Sound) : Reported r [] [] := by
  have hn := Reservation.not_complete_nil hs
  constructor
  · intro _
    rw [if_neg hn]
    rfl
  · exact fun _ => rfl
  · rw [if_neg hn]
    rfl
  · exact fun hm => absurd hm List.not_mem_nil
  · exact Nat.zero_le _

/-- Events that do not mention the reservation. -/
theorem Reported.quiet {r : Reservation} {g : List Resource} {es fs : List Event}
    (h : Reported r g es) (hq : ∀ f ∈ fs, ¬ f.Mentions r.id) : Reported r g (es ++ fs) := by
  have hrep : reported r.id (es ++ fs) = reported r.id es := by
    rw [reported_append, reported_of_not_mentions hq, List.append_nil]
  have hal : (allocatedIn (es ++ fs)).count r.id = (allocatedIn es).count r.id := by
    rw [allocatedIn_append, List.count_append,
      List.count_eq_zero_of_not_mem (allocatedIn_of_not_mentions hq), Nat.add_zero]
  have hrj : (rejectedIn (es ++ fs)).count r.id = (rejectedIn es).count r.id := by
    rw [rejectedIn_append, List.count_append,
      List.count_eq_zero_of_not_mem (rejectedIn_of_not_mentions hq), Nat.add_zero]
  constructor
  · rw [hrep]
    exact h.gang
  · rw [hrep]
    exact h.single
  · rw [hal]
    exact h.allocated
  · rw [hrep, ← List.count_pos_iff, hrj, List.count_pos_iff]
    exact h.rejected
  · rw [hal, hrj]
    exact h.once

/-- An incomplete reservation is granted more, and its owner learns what has to be said of that. -/
theorem Reported.extend {r : Reservation} {g added : List Resource} {es fs : List Event}
    (h : Reported r g es) (hg : ¬ r.Complete g) (hn : r.id ∉ rejectedIn es)
    (hlist : reported r.id fs = if r.gang then
      if r.Complete (g ++ added) then r.filled (g ++ added) else [] else added)
    (hal : (allocatedIn fs).count r.id = if r.Complete (g ++ added) then 1 else 0)
    (hrj : rejectedIn fs = []) :
    r.id ∉ rejectedIn (es ++ fs) ∧ Reported r (g ++ added) (es ++ fs) := by
  have hsame : rejectedIn (es ++ fs) = rejectedIn es := by
    rw [rejectedIn_append, hrj, List.append_nil]
  have hcount : (allocatedIn (es ++ fs)).count r.id = if r.Complete (g ++ added) then 1 else 0 := by
    rw [allocatedIn_append, List.count_append, h.allocated, if_neg hg, hal, Nat.zero_add]
  rw [hsame]
  refine ⟨hn, ?_⟩
  constructor
  · intro hgang
    have hbefore := h.gang hgang
    rw [if_neg hg] at hbefore
    rw [reported_append, hbefore, hlist, if_pos hgang, List.nil_append]
  · intro hgang
    rw [reported_append, h.single hgang, hlist, if_neg (by simp [hgang])]
  · exact hcount
  · rw [hsame]
    exact fun hm => absurd hm hn
  · rw [hsame, hcount, List.count_eq_zero_of_not_mem hn]
    split <;> omega

/-- Where the reservation stands in the ledger: it is tracked with what it was granted, and has not
been rejected, or it is gone. -/
inductive Stands (r : Reservation) (granted : List Resource) (es : List Event) (l : Ledger) : Prop
  | tracked {s : Reservation} : l.get? r.id = some s → s.claim = r.claim →
      s.resources = r.filled granted → r.id ∉ rejectedIn es → Stands r granted es l
  | gone : l.get? r.id = none → Stands r granted es l

theorem Stands.of_get? {r : Reservation} {g : List Resource} {es : List Event} {l m : Ledger}
    (h : Stands r g es l) (hm : m.get? r.id = l.get? r.id) : Stands r g es m := by
  cases h with
  | tracked hs hc hres hn => exact .tracked (hm.trans hs) hc hres hn
  | gone hs => exact .gone (hm.trans hs)

theorem Stands.quiet {r : Reservation} {g : List Resource} {es fs : List Event} {l m : Ledger}
    (h : Stands r g es l) (hm : m.get? r.id = l.get? r.id) (hq : ∀ f ∈ fs, ¬ f.Mentions r.id) :
    Stands r g (es ++ fs) m := by
  cases h with
  | tracked hs hc hres hn =>
    refine .tracked (hm.trans hs) hc hres ?_
    rw [rejectedIn_append, List.mem_append]
    rintro (h | h)
    · exact hn h
    · exact rejectedIn_of_not_mentions hq h
  | gone hs => exact .gone (hm.trans hs)

namespace Ledger

/-! ### Through a change -/

/-- What the owner learns from a change. -/
def noticed (e : Option Effect) : List Event := (e.bind Effect.event).toList

/-- A change that comes while the reservation is tracked. -/
def reaches (id : ReservationId) (c : Change) (l : Ledger) : List Change :=
  if (l.get? id).isSome then [c] else []

variable {now : Time} {l l' : Ledger} {c : Change} {e : Option Effect} {r : Reservation}

theorem ofStatus_not_mentions (h : HandleId) (x : ResourceId) (kind : Resource.Status)
    (id : ReservationId) : ¬ (Event.ofStatus h x kind).Mentions id := by
  unfold Event.ofStatus
  split <;> simp [Event.Mentions, Event.settled]

theorem grantEvent_mentions {s : Reservation} (hs : s.Sound) {x : Resource} (hx : x ∈ s.resources)
    {a : Allocation} {f : Event} (hf : s.grantEvent now x.id a x = some f) {id : ReservationId}
    (hm : f.Mentions id) : s.id = id ∧ f.handle = s.handle := by
  have hown : ∀ y ∈ (s.grant now x.id a).resources, y.reservation = s.id := by
    intro y hy
    have ho := (hs.grant now a (List.mem_map_of_mem hx)).owned y hy
    rw [ho.1, Reservation.grant_id hs]
  have hone : ∀ y ∈ [x.allocate a], y.reservation = s.id := by
    intro y hy
    rw [List.mem_singleton.1 hy]
    exact (hs.owned x hx).1
  unfold Reservation.grantEvent at hf
  split at hf
  next =>
    rw [← Option.some.inj hf] at hm ⊢
    refine ⟨?_, rfl⟩
    rcases hm with hm | ⟨y, hy, rfl⟩
    · have hid : id ∈ [s.id] ++ [] := hm
      rw [List.append_nil, List.mem_singleton] at hid
      exact hid.symm
    · dsimp only at hy
      split at hy
      · exact (hown y hy).symm
      · exact (hone y hy).symm
  next =>
    split at hf
    next => simp at hf
    next =>
      rw [← Option.some.inj hf] at hm ⊢
      refine ⟨?_, rfl⟩
      rcases hm with hm | ⟨y, hy, rfl⟩
      · simp [Event.settled] at hm
      · exact (hone y hy).symm

/-- Who is told of a change: the owner of the reservation that it concerns. -/
theorem Applied.mentions (h : l.Sound) (ha : Applied now l c l' e) {f : Event} (hf : f ∈ noticed e)
    {id : ReservationId} (hm : f.Mentions id) :
    ∃ s, l.get? id = some s ∧ c.resource ∈ s.resourceIds ∧ f.handle = s.handle := by
  cases ha with
  | unknown => simp [noticed] at hf
  | repeated => simp [noticed] at hf
  | illegal => simp [noticed] at hf
  | reported =>
    rw [show f = _ by simpa [noticed] using hf] at hm
    exact absurd hm (ofStatus_not_mentions _ _ _ _)
  | @granted _ a s x hs hx hn =>
    obtain ⟨hxs, rfl⟩ := Reservation.mem_of_resource? hx
    obtain ⟨rfl, hh⟩ := grantEvent_mentions (h.sound hs) hxs
      (show s.grantEvent now x.id a x = some f by simpa [noticed] using hf) hm
    exact ⟨s, hs, List.mem_map_of_mem hxs, hh⟩
  | @tornDown _ s b hs hc =>
    have hid : f.settled = [s.id] ∧ f.allocated = [] ∧ f.handle = s.handle := by
      rw [show f = _ by simpa [noticed, Reservation.tearDown] using hf]
      cases b <;> exact ⟨rfl, rfl, rfl⟩
    rcases hm with hm | ⟨y, hy, -⟩
    · rw [hid.1, List.mem_singleton] at hm
      subst hm
      exact ⟨s, hs, hc, hid.2.2⟩
    · rw [hid.2.1] at hy
      simp at hy

/-- A change that concerns another reservation, or none. -/
theorem Applied.elsewhere (h : l.Sound) (ha : Applied now l c l' e)
    (hn : ∀ s, l.get? r.id = some s → c.resource ∉ s.resourceIds) :
    l'.get? r.id = l.get? r.id ∧ ∀ f ∈ noticed e, ¬ f.Mentions r.id := by
  constructor
  · cases hs : l.get? r.id with
    | some s =>
      have hid := h.id_eq hs
      have hkeep := ha.get?_of_not_mem h (hid.symm ▸ hs) (hn s hs)
      rwa [hid] at hkeep
    | none =>
      cases hs' : l'.get? r.id with
      | none => rfl
      | some s =>
        obtain ⟨t, ht, -⟩ := ha.origin h hs'
        rw [hs] at ht
        simp at ht
  · intro f hf hm
    obtain ⟨s, hs, hc, -⟩ := ha.mentions h hf hm
    exact hn s hs hc

/-- What the owner learns from an allocation. -/
theorem grantEvent_says (now : Time) {s : Reservation} (hs : s.Sound) {x : Resource}
    (hx : x ∈ s.resources)
    (a : Allocation) :
    reported s.id (s.grantEvent now x.id a x).toList = (if s.gang then
        if (s.grant now x.id a).status = .allocated then (s.grant now x.id a).resources else []
        else [x.allocate a]) ∧
      (allocatedIn (s.grantEvent now x.id a x).toList).count s.id =
        (if (s.grant now x.id a).status = .allocated then 1 else 0) ∧
      rejectedIn (s.grantEvent now x.id a x).toList = [] := by
  have hall : ((s.grant now x.id a).resources.filter fun y => y.reservation = s.id) =
      (s.grant now x.id a).resources := by
    rw [List.filter_eq_self]
    intro y hy
    rw [((hs.grant now a (List.mem_map_of_mem hx)).owned y hy).1, Reservation.grant_id hs]
    exact decide_eq_true rfl
  have hone : ([x.allocate a].filter fun y => y.reservation = s.id) = [x.allocate a] := by
    rw [List.filter_eq_self]
    intro y hy
    rw [List.mem_singleton.1 hy]
    exact decide_eq_true (hs.owned x hx).1
  unfold Reservation.grantEvent
  split
  next hst =>
    rw [Option.toList_some, reported_cons, reported_nil, List.append_nil]
    refine ⟨?_, by simp [allocatedIn], rfl⟩
    dsimp only
    split
    · exact hall
    · exact hone
  next hst =>
    split
    next => exact ⟨rfl, rfl, rfl⟩
    next =>
      rw [Option.toList_some, reported_cons, reported_nil, List.append_nil]
      exact ⟨hone, rfl, rfl⟩

/-- The first allocation of a resource. -/
theorem grant_reported (now : Time) {s : Reservation} (hr : r.Fresh) (hs : s.Sound)
    (hc : s.claim = r.claim)
    {g : List Resource} (hg : r.Grants g) (hres : s.resources = r.filled g) {x : Resource}
    (hx : x ∈ s.resources) (hn : x.isAllocated = false) (a : Allocation) {es : List Event}
    (hrej : r.id ∉ rejectedIn es) (hre : Reported r g es) :
    (s.grant now x.id a).resources = r.filled (r.granting g (.allocated x.id a)) ∧
      r.id ∉ rejectedIn (es ++ (s.grantEvent now x.id a x).toList) ∧
      Reported r (r.granting g (.allocated x.id a)) (es ++ (s.grantEvent now x.id a x).toList) := by
  obtain ⟨hid, -, -, hgang, -⟩ := Reservation.claim_eq_iff.1 hc
  -- the resource is still as it was placed
  obtain ⟨hxr, hxg⟩ : x ∈ r.resources ∧ x.id ∉ g.map Resource.id := by
    rw [hres] at hx
    rcases Reservation.mem_filled hx with hx | hx
    · rw [hg.allocated x hx] at hn
      simp at hn
    · exact hx
  have hfirst : r.granting g (.allocated x.id a) = g ++ [x.allocate a] := by
    obtain ⟨y, hy⟩ := Reservation.exists_resource? (List.mem_map_of_mem hxr)
    obtain ⟨hyr, hyx⟩ := Reservation.mem_of_resource? hy
    rw [List.inj_on_of_nodup_map hr.sound.nodup hyr hxr hyx] at hy
    exact Reservation.granting_first hy hxg
  have hfill : (s.grant now x.id a).resources = r.filled (g ++ [x.allocate a]) := by
    rw [Reservation.grant_resources hs, hres,
      Reservation.filled_concat hr.sound.nodup hxr hxg]
  have hg' : r.Grants (g ++ [x.allocate a]) := hfirst ▸ hg.granting (.allocated x.id a)
  have hstatus : (s.grant now x.id a).status = .allocated ↔ r.Complete (g ++ [x.allocate a]) := by
    rw [hg'.complete_iff hr, ← hfill]
    exact (hs.grant now a (List.mem_map_of_mem hx)).allocated_iff
  obtain ⟨hlist, hal, hrj⟩ := grantEvent_says now hs hx a
  simp only [hid, hgang, hfill, hstatus] at hlist hal
  rw [hfirst]
  exact ⟨hfill, hre.extend (fun hall => hxg (hall x hxr)) hrej hlist hal hrj⟩

/-- A reservation is only torn down as long as nothing of it was listed. -/
theorem tearDown_reported {s : Reservation} (hr : r.Fresh) (hs : s.Sound) (hc : s.claim = r.claim)
    {g : List Resource} (hg : r.Grants g) (hres : s.resources = r.filled g) {id : ResourceId}
    {kind : Resource.Status} {b : Bool} (hv : Verdict.of kind s.status s.gang = .tearDown b)
    {es : List Event} (hrej : r.id ∉ rejectedIn es) (hre : Reported r g es) :
    Reported r g (es ++ (s.tearDown id b).event.toList) := by
  obtain ⟨hid, -, -, hgang, -⟩ := Reservation.claim_eq_iff.1 hc
  have hmissing : ¬ r.Complete g := by
    rw [hg.complete_iff hr, ← hres, ← hs.allocated_iff]
    have hopen := Verdict.isOpen_of_tearDown hv
    rwa [Reservation.Sound.isOpen_iff hs] at hopen
  have hnone : reported r.id es = [] := by
    cases hb : r.gang with
    | true =>
      rw [hre.gang hb, if_neg hmissing]
    | false =>
      rw [hre.single hb]
      -- other than gangs, only what still waits for its first allocation is torn down
      have hpending : s.status = .pending := by
        rw [hgang, hb] at hv
        revert hv
        cases kind <;> cases s.status <;> simp [Verdict.of]
      apply List.eq_nil_iff_forall_not_mem.2
      intro y hy
      obtain ⟨x, hx, a, rfl⟩ := hg.origin y hy
      have hid : x.id ∈ (r.filled g).map Resource.id := by
        rw [Reservation.filled_ids]
        exact List.mem_map_of_mem hx
      obtain ⟨z, hz, hzx⟩ := List.mem_map.1 hid
      have hza : z.isAllocated = true := by
        rw [hg.isAllocated_iff hr hz, hzx]
        exact List.mem_map.2 ⟨_, hy, rfl⟩
      rw [hs.pending_iff.1 hpending z (hres ▸ hz)] at hza
      simp at hza
  have hlist : reported r.id (s.tearDown id b).event.toList = [] := by cases b <;> rfl
  have hal : allocatedIn (s.tearDown id b).event.toList = [] := by cases b <;> rfl
  have hrj : rejectedIn (s.tearDown id b).event.toList = [r.id] := by
    rw [← hid]
    cases b <;> rfl
  have hcount := hre.allocated
  rw [if_neg hmissing] at hcount
  constructor
  · rw [reported_append, hlist, List.append_nil]
    exact hre.gang
  · rw [reported_append, hlist, List.append_nil]
    exact hre.single
  · rw [allocatedIn_append, hal, List.append_nil]
    exact hre.allocated
  · intro _
    rw [reported_append, hlist, List.append_nil]
    exact ⟨hmissing, hnone⟩
  · rw [allocatedIn_append, hal, List.append_nil, hcount, rejectedIn_append, hrj, List.count_append,
      List.count_eq_zero_of_not_mem hrej]
    simp

/-- One change: what the reservation was granted, what its owner was told and where it stands. -/
theorem Applied.stands (hr : r.Fresh) (h : l.Sound) (ha : Applied now l c l' e) {cs : List Change}
    {es : List Event} (hst : Stands r (r.granted cs) es l) (hre : Reported r (r.granted cs) es) :
    Stands r (r.granted (cs ++ l.reaches r.id c)) (es ++ noticed e) l' ∧
      Reported r (r.granted (cs ++ l.reaches r.id c)) (es ++ noticed e) := by
  have hg := Reservation.grants_granted r cs
  have haway : ∀ g, g = r.granted cs → (∀ s, l.get? r.id = some s → c.resource ∉ s.resourceIds) →
      Stands r g (es ++ noticed e) l' ∧ Reported r g (es ++ noticed e) := by
    rintro g rfl hn
    obtain ⟨hget, hq⟩ := ha.elsewhere h hn
    exact ⟨hst.quiet hget hq, hre.quiet hq⟩
  unfold reaches
  cases hst with
  | gone hs =>
    rw [hs]
    apply haway
    · simp
    · simp [hs]
  | @tracked s hs hc hres hrej =>
    have hid : s.id = r.id := h.id_eq hs
    rw [hs, if_pos (by rfl), Reservation.granted_concat]
    by_cases hm : c.resource ∈ s.resourceIds
    · cases ha with
      | unknown hi =>
        rw [h.index_iff.2 ⟨s, hs, hm⟩] at hi
        simp at hi
      | @repeated id a t x ht hx hxa =>
        obtain ⟨hxt, rfl⟩ := Reservation.mem_of_resource? hx
        have hts := h.eq_of_shared ht hs (List.mem_map_of_mem hxt) hm
        subst hts
        rw [hres] at hxt
        rw [Reservation.granting_repeated ((hg.isAllocated_iff hr hxt).1 hxa)]
        simp only [noticed, Option.bind_none, Option.toList_none, List.append_nil]
        exact ⟨.tracked hs hc hres hrej, hre⟩
      | illegal ht hct hst hv =>
        rw [Reservation.granting_of_status hst]
        simp only [noticed, Option.bind_none, Option.toList_none, List.append_nil]
        exact ⟨.tracked hs hc hres hrej, hre⟩
      | @reported _ t ht hct hv =>
        have hstat : c.status ≠ .allocated := by
          intro hcs
          rw [hcs] at hv
          simp [Verdict.of] at hv
        rw [Reservation.granting_of_status hstat]
        have hq : ∀ f ∈ [Event.ofStatus t.handle c.resource c.status], ¬ f.Mentions r.id := by
          intro f hf
          rw [List.mem_singleton.1 hf]
          exact ofStatus_not_mentions _ _ _ _
        exact ⟨Stands.quiet (.tracked hs hc hres hrej) rfl hq, hre.quiet hq⟩
      | @granted id a t x ht hx hn =>
        obtain ⟨hxt, rfl⟩ := Reservation.mem_of_resource? hx
        have hts := h.eq_of_shared ht hs (List.mem_map_of_mem hxt) hm
        subst hts
        have hsound := h.sound ht
        obtain ⟨hfill, hrej', hre'⟩ :=
          grant_reported now hr hsound hc hg hres hxt hn a hrej hre
        refine ⟨.tracked (s := t.grant now x.id a) ?_ ?_ hfill hrej', hre'⟩
        · rw [get?_update, Reservation.grant_id hsound, if_pos hid]
        · rw [Reservation.grant_claim hsound, hc]
      | @tornDown _ t b ht hct hv =>
        have hts := h.eq_of_shared ht hs hct hm
        subst hts
        have hstat : c.status ≠ .allocated := by
          intro hcs
          rw [hcs] at hv
          simp [Verdict.of] at hv
        rw [Reservation.granting_of_status hstat]
        refine ⟨.gone ?_, tearDown_reported hr (h.sound ht) hc hg hres hv hrej hre⟩
        rw [get?_drop, if_pos hid]
    · apply haway
      · apply Reservation.granting_of_not_mem
        rwa [← Reservation.resourceIds_of_claim hc]
      · intro t ht
        rw [hs] at ht
        rwa [← Option.some.inj ht]

end Ledger

end ClusterBroker
