import ClusterBroker.Proofs.Ledger.Change

/-!
# First allocations

What a reservation is granted by a list of changes: for each of its resources the first
allocation among them, in the order in which these come. Later allocations of the same resource
count for nothing, nor do allocations of other resources. Putting what was granted in the place
of what was asked for gives the resources as the ledger has them.
-/
namespace ClusterBroker.Reservation

/-- What is granted once a further change has come. -/
def granting (r : Reservation) (granted : List Resource) : Change → List Resource
  | .allocated id a =>
    match r.resource? id with
    | some x =>
      if (granted.map Resource.id).contains id then granted else granted ++ [x.allocate a]
    | none => granted
  | _ => granted

/-- The resources of a reservation with their first allocations, in the order of these. -/
def granted (r : Reservation) (cs : List Change) : List Resource := cs.foldl r.granting []

/-- Nothing is missing. -/
def Complete (r : Reservation) (granted : List Resource) : Prop :=
  ∀ x ∈ r.resources, x.id ∈ granted.map Resource.id

instance (r : Reservation) (granted : List Resource) : Decidable (r.Complete granted) :=
  inferInstanceAs (Decidable (∀ x ∈ r.resources, x.id ∈ granted.map Resource.id))

/-- The resources in the order of the request, each as it was granted, if it was. -/
def filled (r : Reservation) (granted : List Resource) : List Resource :=
  r.resources.map fun x => (granted.find? fun y => y.id = x.id).getD x

variable {r : Reservation}

@[simp] theorem granted_nil (r : Reservation) : r.granted [] = [] := rfl

@[simp] theorem granted_concat (r : Reservation) (cs : List Change) (c : Change) :
    r.granted (cs ++ [c]) = r.granting (r.granted cs) c := by
  unfold granted
  rw [List.foldl_append]
  rfl

theorem granting_of_status {c : Change} (hc : c.status ≠ .allocated) (g : List Resource) :
    r.granting g c = g := by
  cases c with
  | allocated id a => exact absurd rfl hc
  | rejected | preempted | lost => rfl

theorem resource?_eq_none {id : ResourceId} (h : id ∉ r.resourceIds) : r.resource? id = none := by
  unfold resource?
  rw [List.find?_eq_none]
  intro x hx he
  apply h
  rw [← of_decide_eq_true he]
  exact List.mem_map_of_mem hx

theorem granting_of_not_mem {c : Change} (hc : c.resource ∉ r.resourceIds) (g : List Resource) :
    r.granting g c = g := by
  cases c with
  | allocated id a =>
    have hn : r.resource? id = none := resource?_eq_none hc
    simp [granting, hn]
  | rejected | preempted | lost => rfl

theorem granting_repeated {id : ResourceId} {a : Allocation} {g : List Resource}
    (hid : id ∈ g.map Resource.id) : r.granting g (.allocated id a) = g := by
  unfold granting
  dsimp only
  split
  · exact if_pos (List.contains_iff_mem.2 hid)
  · rfl

theorem granting_first {id : ResourceId} {a : Allocation} {g : List Resource} {x : Resource}
    (hx : r.resource? id = some x) (hid : id ∉ g.map Resource.id) :
    r.granting g (.allocated id a) = g ++ [x.allocate a] := by
  simp only [granting, hx]
  exact if_neg fun h => hid (List.contains_iff_mem.1 h)

/-! ### What was granted -/

/-- Resources of the reservation, allocated, none twice. -/
structure Grants (r : Reservation) (g : List Resource) : Prop where
  nodup : (g.map Resource.id).Nodup
  allocated : ∀ y ∈ g, y.isAllocated = true
  origin : ∀ y ∈ g, ∃ x ∈ r.resources, ∃ a, y = x.allocate a

theorem Grants.granting {g : List Resource} (h : r.Grants g) (c : Change) :
    r.Grants (r.granting g c) := by
  unfold Reservation.granting
  split
  next id a =>
    split
    next x hx =>
      obtain ⟨hxr, rfl⟩ := mem_of_resource? hx
      split
      · exact h
      next hid =>
        constructor
        · rw [List.map_append, List.nodup_append]
          refine ⟨h.nodup, List.nodup_singleton _, fun i hi j hj => ?_⟩
          rw [List.mem_singleton.1 hj]
          rintro rfl
          exact hid (List.contains_iff_mem.2 hi)
        · intro y hy
          rcases List.mem_append.1 hy with hy | hy
          · exact h.allocated y hy
          · rw [List.mem_singleton.1 hy]
            rfl
        · intro y hy
          rcases List.mem_append.1 hy with hy | hy
          · exact h.origin y hy
          · exact ⟨x, hxr, a, List.mem_singleton.1 hy⟩
    · exact h
  · exact h

theorem Grants.foldl_granting {g : List Resource} (h : r.Grants g) (cs : List Change) :
    r.Grants (cs.foldl r.granting g) := by
  induction cs generalizing g with
  | nil => exact h
  | cons c cs ih => exact ih (h.granting c)

theorem grants_granted (r : Reservation) (cs : List Change) : r.Grants (r.granted cs) := by
  apply Grants.foldl_granting
  exact ⟨List.nodup_nil, nofun, nofun⟩

/-! ### In the order of the request -/

theorem find?_eq_none_of_id {g : List Resource} {id : ResourceId} (h : id ∉ g.map Resource.id) :
    (g.find? fun y => y.id = id) = none := by
  rw [List.find?_eq_none]
  intro y hy he
  apply h
  rw [← of_decide_eq_true he]
  exact List.mem_map_of_mem hy

@[simp] theorem filled_nil (r : Reservation) : r.filled [] = r.resources := by
  unfold filled
  exact List.map_id' _

/-- A resource that was granted stands in its place, the others are as they were. -/
theorem filled_concat (hn : r.resourceIds.Nodup) {g : List Resource} {x : Resource}
    (hx : x ∈ r.resources) (hid : x.id ∉ g.map Resource.id) (a : Allocation) :
    r.filled (g ++ [x.allocate a]) =
      (r.filled g).map fun y => if y.id = x.id then y.allocate a else y := by
  unfold filled
  rw [List.map_map]
  apply List.map_congr_left
  intro y hy
  rw [List.find?_append, Function.comp_apply]
  by_cases he : y.id = x.id
  · have hyx : y = x := List.inj_on_of_nodup_map hn hy hx he
    subst hyx
    rw [find?_eq_none_of_id hid, Option.none_or, Option.getD_none, if_pos rfl]
    have hself : (y.allocate a).id = y.id := rfl
    simp [hself]
  · have hother : ([x.allocate a].find? fun z => z.id = y.id) = none := by
      apply find?_eq_none_of_id
      rw [List.map_singleton, List.mem_singleton]
      exact he
    rw [hother, Option.or_none, if_neg]
    cases hf : g.find? fun z => z.id = y.id with
    | none => exact he
    | some z =>
      have hz : z.id = y.id := by simpa using List.find?_some hf
      rw [Option.getD_some, hz]
      exact he

/-- What was granted is allocated, what was not is as it was asked for. -/
theorem mem_filled {g : List Resource} {y : Resource} (h : y ∈ r.filled g) :
    y ∈ g ∨ y ∈ r.resources ∧ y.id ∉ g.map Resource.id := by
  obtain ⟨x, hx, rfl⟩ := List.mem_map.1 h
  cases hf : g.find? fun z => z.id = x.id with
  | none =>
    right
    refine ⟨hx, fun hm => ?_⟩
    obtain ⟨z, hz, he⟩ := List.mem_map.1 hm
    have hne := List.find?_eq_none.1 hf z hz
    simp [he] at hne
  | some z =>
    left
    exact List.mem_of_find?_eq_some hf

theorem Fresh.isAllocated_eq_false (hr : r.Fresh) {x : Resource} (hx : x ∈ r.resources) :
    x.isAllocated = false :=
  (hr.sound.pending_iff.1 hr.status_eq) x hx

theorem Grants.isAllocated_iff {g : List Resource} (hg : r.Grants g) (hr : r.Fresh)
    {y : Resource} (hy : y ∈ r.filled g) : y.isAllocated = true ↔ y.id ∈ g.map Resource.id := by
  rcases mem_filled hy with hy | ⟨hy, hn⟩
  · exact ⟨fun _ => List.mem_map_of_mem hy, fun _ => hg.allocated y hy⟩
  · rw [hr.isAllocated_eq_false hy]
    simp [hn]

theorem filled_ids {g : List Resource} : (r.filled g).map Resource.id = r.resourceIds := by
  unfold filled resourceIds
  rw [List.map_map]
  apply List.map_congr_left
  intro x hx
  rw [Function.comp_apply]
  cases hf : g.find? fun z => z.id = x.id with
  | none => rfl
  | some z => simpa using List.find?_some hf

/-- Everything is granted exactly when everything is allocated. -/
theorem Grants.complete_iff {g : List Resource} (hg : r.Grants g) (hr : r.Fresh) :
    r.Complete g ↔ ∀ y ∈ r.filled g, y.isAllocated = true := by
  have hids : ∀ i, i ∈ r.resourceIds ↔ ∃ y ∈ r.filled g, y.id = i := by
    intro i
    rw [← filled_ids (g := g), List.mem_map]
  constructor
  · intro hc y hy
    rw [hg.isAllocated_iff hr hy]
    obtain ⟨x, hx, he⟩ := List.mem_map.1 ((hids y.id).2 ⟨y, hy, rfl⟩)
    rw [← he]
    exact hc x hx
  · intro hall x hx
    obtain ⟨y, hy, he⟩ := (hids x.id).1 (List.mem_map_of_mem hx)
    rw [← he]
    exact (hg.isAllocated_iff hr hy).1 (hall y hy)

theorem not_complete_nil (hs : r.Sound) : ¬ r.Complete [] := by
  intro hc
  obtain ⟨x, rest, hx⟩ := List.exists_cons_of_ne_nil hs.nonempty
  have hm := hc x (by simp [hx])
  simp at hm

end ClusterBroker.Reservation
