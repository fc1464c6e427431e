import Mathlib.Data.List.Nodup
import ClusterBroker.Reservation

/-!
# Sound reservations

A reservation repeats in its status and in its time of allocation what its resources say, and
every resource repeats in its status whether it holds an allocation. `Reservation.Sound` says
that these agree. It holds of a faultless request that was just placed, and an allocation for a
resource that still waits keeps it.

The part of a reservation that never changes while it is with the broker is its `claim`.
-/
namespace ClusterBroker

/-! ### Requests without a fault -/

theorem Ask.firstFault_eq_none_iff {asks : List Ask} {seen : List ResourceId} :
    Ask.firstFault seen asks = none ↔
      (asks.map Ask.resource).Nodup ∧ (∀ a ∈ asks, a.resource ∉ seen) ∧
        ∀ a ∈ asks, ¬ (a.cpu = 0 ∧ a.memory = 0) := by
  induction asks generalizing seen with
  | nil => simp [Ask.firstFault]
  | cons a rest ih =>
    unfold Ask.firstFault
    split
    next h => simp [h]
    next h =>
      split
      next he => simp [he]
      next he =>
        rw [ih]
        simp only [List.map_cons, List.nodup_cons, List.mem_map, List.mem_cons, forall_eq_or_imp,
          not_or, not_exists, not_and]
        constructor
        · rintro ⟨hn, hs, hz⟩
          exact ⟨⟨fun b hb => (hs b hb).1, hn⟩, ⟨h, fun b hb => (hs b hb).2⟩,
            fun hc hm => he ⟨hc, hm⟩, fun b hb hc hm => hz b hb hc hm⟩
        · rintro ⟨⟨hr, hn⟩, ⟨_, hs⟩, _, hz⟩
          exact ⟨hn, fun b hb => ⟨hr b hb, hs b hb⟩, fun b hb hc hm => hz b hb hc hm⟩

theorem Request.fault?_eq_none_iff {r : Request} :
    r.fault? = none ↔ r.asks ≠ [] ∧ (r.asks.map Ask.resource).Nodup ∧
      ∀ a ∈ r.asks, ¬ (a.cpu = 0 ∧ a.memory = 0) := by
  unfold Request.fault?
  split
  next h => simp [h]
  next h =>
    rw [Ask.firstFault_eq_none_iff]
    simp [h]

/-! ### Changing one element -/

/-- Where a key occurs once, changing the first element with it changes all of them. -/
theorem modifyFirst_eq_map {α β : Type} [DecidableEq β] (key : α → β) (k : β) (f : α → α)
    {l : List α} (hl : (l.map key).Nodup) :
    modifyFirst (fun x => key x = k) f l = l.map fun x => if key x = k then f x else x := by
  induction l with
  | nil => rfl
  | cons a r ih =>
    rw [List.map_cons, List.nodup_cons] at hl
    unfold modifyFirst
    by_cases h : key a = k
    · have hr : ∀ x ∈ r, (if key x = k then f x else x) = x := by
        intro x hx
        rw [if_neg]
        rintro rfl
        exact hl.1 (h ▸ List.mem_map_of_mem hx)
      rw [if_pos (by simpa using h), List.map_cons, if_pos h, List.map_congr_left hr, List.map_id']
    · rw [if_neg (by simpa using h), List.map_cons, if_neg h, ih hl.2]

/-! ### Resources -/

namespace Resource

/-- A resource waits and holds nothing, or is allocated and holds an allocation. -/
def Settled (x : Resource) : Prop :=
  x.status = .pending ∧ x.allocation = none ∨ x.status = .allocated ∧ x.allocation.isSome

@[simp] theorem allocate_isAllocated (x : Resource) (a : Allocation) :
    (x.allocate a).isAllocated = true := rfl

theorem allocate_settled (x : Resource) (a : Allocation) : (x.allocate a).Settled :=
  .inr ⟨rfl, rfl⟩

theorem Settled.allocation_eq_none {x : Resource} (h : x.Settled) :
    x.allocation = none ↔ x.isAllocated = false := by
  rcases h with ⟨hs, ha⟩ | ⟨hs, ha⟩
  · simp [isAllocated, hs, ha]
  · simp [isAllocated, hs, Option.isSome_iff_ne_none.1 ha]

end Resource

namespace Reservation

/-! ### What stays the same -/

/-- The request that a reservation answers. -/
def toRequest (r : Reservation) : Request :=
  ⟨r.handle, r.queue, r.gang, r.resources.map Resource.ask⟩

/-- What never changes about a reservation: its id, what was asked for, and when. -/
def claim (r : Reservation) : ReservationId × Request × Time := (r.id, r.toRequest, r.placedOn)

theorem claim_eq_iff {r s : Reservation} : r.claim = s.claim ↔
    r.id = s.id ∧ r.handle = s.handle ∧ r.queue = s.queue ∧ r.gang = s.gang ∧
      r.resources.map Resource.ask = s.resources.map Resource.ask ∧ r.placedOn = s.placedOn := by
  simp [claim, toRequest, and_assoc]

theorem resourceIds_eq (r : Reservation) :
    r.resourceIds = (r.resources.map Resource.ask).map Ask.resource := by
  rw [resourceIds, List.map_map]
  rfl

theorem resourceIds_of_claim {r s : Reservation} (h : r.claim = s.claim) :
    r.resourceIds = s.resourceIds := by
  rw [resourceIds_eq, resourceIds_eq, (claim_eq_iff.1 h).2.2.2.2.1]

@[simp] theorem reset_claim (r : Reservation) : r.reset.claim = r.claim := by
  simp only [claim, toRequest, reset, List.map_map]
  rfl

@[simp] theorem ended_resources (r : Reservation) : r.ended.resources = r.resources := rfl

@[simp] theorem status_claim (r : Reservation) (s : Status) :
    ({ r with status := s } : Reservation).claim = r.claim := rfl

@[simp] theorem toRequest_ofRequest (id : ReservationId) (q : Request) (t : Time) :
    (ofRequest id q t).toRequest = q := by
  simp [toRequest, ofRequest, Function.comp_def]

/-- A reservation as it is when a faultless request is placed, whether for the first time or
again. -/
def Fresh (r : Reservation) : Prop :=
  r.toRequest.fault? = none ∧ r = ofRequest r.id r.toRequest r.placedOn

theorem fresh_ofRequest (id : ReservationId) {q : Request} (t : Time) (h : q.fault? = none) :
    (ofRequest id q t).Fresh := by
  refine ⟨?_, ?_⟩
  · rw [toRequest_ofRequest, h]
  · rw [toRequest_ofRequest]
    rfl

/-! ### Soundness -/

/-- How far the allocation of a reservation got, by its resources. -/
def progress (r : Reservation) : Status :=
  if ∀ x ∈ r.resources, x.isAllocated = false then .pending
  else if ∀ x ∈ r.resources, x.isAllocated = true then .allocated
  else .partly

structure Sound (r : Reservation) : Prop where
  nonempty : r.resources ≠ []
  nodup : r.resourceIds.Nodup
  owned : ∀ x ∈ r.resources, x.reservation = r.id ∧ x.handle = r.handle ∧ x.queue = r.queue
  settled : ∀ x ∈ r.resources, x.Settled
  status_eq : r.status = r.progress
  allocatedOn_iff : r.allocatedOn.isSome ↔ r.status = .allocated

theorem Sound.status_cases {r : Reservation} (h : r.Sound) :
    r.status = .pending ∨ r.status = .partly ∨ r.status = .allocated := by
  rw [h.status_eq]
  unfold progress
  split_ifs <;> simp

theorem Sound.pending_iff {r : Reservation} (h : r.Sound) :
    r.status = .pending ↔ ∀ x ∈ r.resources, x.isAllocated = false := by
  rw [h.status_eq]
  unfold progress
  split_ifs <;> simp_all

theorem Sound.allocated_iff {r : Reservation} (h : r.Sound) :
    r.status = .allocated ↔ ∀ x ∈ r.resources, x.isAllocated = true := by
  have hne := h.nonempty
  obtain ⟨x, rest, hx⟩ := List.exists_cons_of_ne_nil hne
  rw [h.status_eq]
  unfold progress
  split_ifs with h₁ h₂
  · have hf := h₁ x (by simp [hx])
    refine ⟨fun he => by simp at he, fun hall => ?_⟩
    rw [hall x (by simp [hx])] at hf
    simp at hf
  · simpa using h₂
  · simpa using h₂

theorem Sound.partly_iff {r : Reservation} (h : r.Sound) :
    r.status = .partly ↔ (∃ x ∈ r.resources, x.isAllocated = true) ∧
      ∃ x ∈ r.resources, x.isAllocated = false := by
  have hp := h.pending_iff
  have ha := h.allocated_iff
  rcases h.status_cases with hs | hs | hs <;> simp_all

theorem Fresh.sound {r : Reservation} (h : r.Fresh) : r.Sound := by
  obtain ⟨hf, he⟩ := h
  obtain ⟨hne, hn, _⟩ := Request.fault?_eq_none_iff.1 hf
  have hres : ∀ x ∈ r.resources, x.reservation = r.id ∧ x.handle = r.handle ∧
      x.queue = r.queue ∧ x.status = .pending ∧ x.allocation = none := by
    intro x hx
    rw [he] at hx
    obtain ⟨a, _, rfl⟩ := List.mem_map.1 hx
    exact ⟨rfl, rfl, rfl, rfl, rfl⟩
  have hs : r.status = .pending := by rw [he]; rfl
  have hon : r.allocatedOn = none := by rw [he]; rfl
  refine ⟨fun hnil => hne ?_, ?_, fun x hx => ?_, fun x hx => ?_, ?_, ?_⟩
  · simp [toRequest, hnil]
  · rw [resourceIds_eq]
    exact hn
  · exact ⟨(hres x hx).1, (hres x hx).2.1, (hres x hx).2.2.1⟩
  · exact .inl (hres x hx).2.2.2
  · rw [hs, progress, if_pos]
    intro x hx
    simp [Resource.isAllocated, (hres x hx).2.2.2.1]
  · simp [hs, hon]

theorem Fresh.allocation_eq_none {r : Reservation} (h : r.Fresh) :
    ∀ x ∈ r.resources, x.allocation = none := by
  intro x hx
  rw [h.2] at hx
  obtain ⟨a, _, rfl⟩ := List.mem_map.1 hx
  rfl

theorem Fresh.status_eq {r : Reservation} (h : r.Fresh) : r.status = .pending := by
  rw [h.2]
  rfl

/-! ### One allocation -/

theorem mem_of_resource? {r : Reservation} {id : ResourceId} {x : Resource}
    (h : r.resource? id = some x) : x ∈ r.resources ∧ x.id = id :=
  ⟨List.mem_of_find?_eq_some h, by simpa using List.find?_some h⟩

theorem exists_resource? {r : Reservation} {id : ResourceId} (h : id ∈ r.resourceIds) :
    ∃ x, r.resource? id = some x := by
  obtain ⟨x, hx, rfl⟩ := List.mem_map.1 h
  exact Option.isSome_iff_exists.1 (List.find?_isSome.2 ⟨x, hx, by simp⟩)

/-- The reservation once the resource of this id has its allocation. -/
def grant (now : Time) (id : ResourceId) (a : Allocation) (r : Reservation) : Reservation :=
  let g := r.modifyResource id (Resource.allocate · a)
  if g.allAllocated then { g with status := .allocated, allocatedOn := some now }
  else { g with status := .partly }

theorem grant_resources {r : Reservation} (h : r.Sound) (now : Time) (id : ResourceId)
    (a : Allocation) : (r.grant now id a).resources =
      r.resources.map fun x => if x.id = id then x.allocate a else x := by
  have hm := modifyFirst_eq_map Resource.id id (Resource.allocate · a) h.nodup
  rw [← hm]
  unfold grant modifyResource
  dsimp only
  split <;> rfl

theorem grant_claim {r : Reservation} (h : r.Sound) (now : Time) (id : ResourceId)
    (a : Allocation) : (r.grant now id a).claim = r.claim := by
  rw [claim_eq_iff, grant_resources h, List.map_map]
  have hask : (Resource.ask ∘ fun x => if x.id = id then x.allocate a else x) = Resource.ask := by
    funext x
    simp only [Function.comp_apply]
    split <;> rfl
  rw [hask]
  unfold grant modifyResource
  dsimp only
  split <;> exact ⟨rfl, rfl, rfl, rfl, rfl, rfl⟩

theorem grant_id {r : Reservation} (h : r.Sound) (now : Time) (id : ResourceId)
    (a : Allocation) : (r.grant now id a).id = r.id :=
  (claim_eq_iff.1 (grant_claim h now id a)).1

theorem allAllocated_iff {r : Reservation} :
    r.allAllocated = true ↔ ∀ x ∈ r.resources, x.isAllocated = true := by
  simp [allAllocated]

theorem grant_of_all {r : Reservation} (now : Time) (id : ResourceId) (a : Allocation)
    (h : (r.modifyResource id (Resource.allocate · a)).allAllocated = true) :
    r.grant now id a = { r.modifyResource id (Resource.allocate · a) with
      status := .allocated, allocatedOn := some now } := by
  unfold grant
  rw [if_pos h]

theorem grant_of_not_all {r : Reservation} (now : Time) (id : ResourceId) (a : Allocation)
    (h : ¬ (r.modifyResource id (Resource.allocate · a)).allAllocated = true) :
    r.grant now id a =
      { r.modifyResource id (Resource.allocate · a) with status := .partly } := by
  unfold grant
  rw [if_neg h]

/-- The resource with its new allocation. -/
theorem mem_grant {r : Reservation} (h : r.Sound) (now : Time) (a : Allocation) {x : Resource}
    (hx : x ∈ r.resources) : x.allocate a ∈ (r.grant now x.id a).resources := by
  rw [grant_resources h]
  exact List.mem_map.2 ⟨x, hx, if_pos rfl⟩

theorem grant_status_cases {r : Reservation} (h : r.Sound) (now : Time) (id : ResourceId)
    (a : Allocation) :
    ((r.grant now id a).status = .allocated ∧ (r.grant now id a).allocatedOn = some now ∧
        ∀ x ∈ (r.grant now id a).resources, x.isAllocated = true) ∨
      ((r.grant now id a).status = .partly ∧ (r.grant now id a).allocatedOn = none ∧
        ∃ x ∈ (r.grant now id a).resources, x.isAllocated = false) := by
  have hres := grant_resources h now id a
  by_cases hall : (r.modifyResource id (Resource.allocate · a)).allAllocated = true
  · left
    rw [grant_of_all now id a hall]
    exact ⟨rfl, rfl, allAllocated_iff.1 hall⟩
  · right
    rw [grant_of_not_all now id a hall] at hres ⊢
    have hsome : ∃ x ∈ (r.modifyResource id (Resource.allocate · a)).resources,
        x.isAllocated = false := by simpa [allAllocated] using hall
    refine ⟨rfl, ?_, hsome⟩
    -- what still waits now waited before, so there was no time of allocation
    obtain ⟨y, hy, hyn⟩ := hsome
    have hnot : r.status ≠ .allocated := by
      intro hs
      rw [show (r.modifyResource id (Resource.allocate · a)).resources = _ from hres] at hy
      obtain ⟨x, hx, rfl⟩ := List.mem_map.1 hy
      have hxa := h.allocated_iff.1 hs x hx
      split at hyn
      · rw [Resource.allocate_isAllocated] at hyn
        exact absurd hyn (by decide)
      · rw [hxa] at hyn
        exact absurd hyn (by decide)
    have hon : ¬ r.allocatedOn.isSome := fun hs => hnot (h.allocatedOn_iff.1 hs)
    exact Option.not_isSome_iff_eq_none.1 hon

/-- An allocation for a resource that the reservation has keeps it sound. -/
theorem Sound.grant {r : Reservation} (h : r.Sound) (now : Time) {id : ResourceId}
    (a : Allocation) (hid : id ∈ r.resourceIds) : (r.grant now id a).Sound := by
  have hres := grant_resources h now id a
  have hcl := grant_claim h now id a
  obtain ⟨hcid, hch, hcq, -⟩ := claim_eq_iff.1 hcl
  have hmem : ∃ x ∈ (r.grant now id a).resources, x.isAllocated = true := by
    obtain ⟨x, hx, rfl⟩ := List.mem_map.1 hid
    exact ⟨_, mem_grant h now a hx, rfl⟩
  have hsome : ¬ ∀ y ∈ (r.grant now id a).resources, y.isAllocated = false := by
    intro hall
    obtain ⟨x, hx, hxa⟩ := hmem
    rw [hall x hx] at hxa
    simp at hxa
  refine ⟨?_, ?_, fun x hx => ?_, fun x hx => ?_, ?_, ?_⟩
  · rw [hres]
    simpa using h.nonempty
  · rw [resourceIds_of_claim hcl]
    exact h.nodup
  · rw [hcid, hch, hcq]
    rw [hres] at hx
    obtain ⟨y, hy, rfl⟩ := List.mem_map.1 hx
    split
    · exact h.owned y hy
    · exact h.owned y hy
  · rw [hres] at hx
    obtain ⟨y, hy, rfl⟩ := List.mem_map.1 hx
    split
    · exact y.allocate_settled a
    · exact h.settled y hy
  · rw [progress, if_neg hsome]
    rcases grant_status_cases h now id a with ⟨hs, _, hall⟩ | ⟨hs, _, y, hy, hyn⟩
    · rw [hs, if_pos hall]
    · rw [hs, if_neg]
      intro hall
      rw [hall y hy] at hyn
      simp at hyn
  · rcases grant_status_cases h now id a with ⟨hs, ho, _⟩ | ⟨hs, ho, _⟩ <;> simp [hs, ho]

/-! ### Moving forward -/

/-- How far a status is on the way from placement to allocation. -/
def Status.rank : Status → Nat
  | .pending => 0
  | .partly => 1
  | .allocated => 2
  | .backedOff => 3
  | .ended => 4

/-- A later state of the same reservation: its claim is the same, what was allocated stays as it
is, and the status does not go back. -/
structure Advances (r s : Reservation) : Prop where
  claim_eq : s.claim = r.claim
  kept : ∀ x ∈ r.resources, x.isAllocated = true → x ∈ s.resources
  rank_le : r.status.rank ≤ s.status.rank

theorem Advances.refl (r : Reservation) : r.Advances r := ⟨rfl, fun _ hx _ => hx, Nat.le_refl _⟩

theorem Advances.trans {r s t : Reservation} (h : r.Advances s) (h' : s.Advances t) :
    r.Advances t :=
  ⟨h'.claim_eq.trans h.claim_eq, fun x hx hxa => h'.kept x (h.kept x hx hxa) hxa,
    Nat.le_trans h.rank_le h'.rank_le⟩

theorem Advances.gang_eq {r s : Reservation} (h : r.Advances s) : s.gang = r.gang :=
  (claim_eq_iff.1 h.claim_eq).2.2.2.1

theorem Sound.advances_grant {r : Reservation} (h : r.Sound) (now : Time) (a : Allocation)
    {x : Resource} (hx : x ∈ r.resources) (hxn : x.isAllocated = false) :
    r.Advances (r.grant now x.id a) := by
  refine ⟨grant_claim h now x.id a, fun y hy hya => ?_, ?_⟩
  · rw [grant_resources h]
    refine List.mem_map.2 ⟨y, hy, if_neg fun hyx => ?_⟩
    rw [List.inj_on_of_nodup_map h.nodup hy hx hyx, hxn] at hya
    simp at hya
  · have hnot : r.status ≠ .allocated := by
      intro hs
      rw [h.allocated_iff.1 hs x hx] at hxn
      simp at hxn
    rcases grant_status_cases h now x.id a with ⟨hs, _⟩ | ⟨hs, _⟩ <;>
      rcases h.status_cases with h' | h' | h' <;> simp_all [Status.rank]

end Reservation

end ClusterBroker
