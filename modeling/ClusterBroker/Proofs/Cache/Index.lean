import ClusterBroker.Proofs.Cache.Search

/-!
# Two indexes that agree

The entries of a cache stand under their ids, and its index by capacity has their spots in buckets.
The two agree if a spot is in a bucket exactly if there is an entry of that capacity at it. Every
operation changes both, one after the other; what is put in under a free id and whatever is taken
out leaves them in agreement, and leaves no bucket empty.
-/
namespace ClusterBroker.Cache

variable {c c' : Cache} {e : CacheEntry} {k : Capacity} {s : Spot}

/-! ### Buckets -/

theorem contains_bucket : (c.bucket k).contains s = true ↔
    ∃ spots, c.byCapacity.get? k = some spots ∧ spots.contains s = true := by
  unfold bucket
  cases c.byCapacity.get? k with
  | none => exact iff_of_false (by simp [Table.contains]) (by simp)
  | some spots => simp

theorem bucket_insert (c : Cache) (e : CacheEntry) (k : Capacity) :
    (c.insert e).bucket k =
      if e.capacity = k then (c.bucket k).add e.spot else c.bucket k := by
  unfold insert
  change ((c.byCapacity.insert e.capacity ((c.bucket e.capacity).add e.spot)).get? k).getD ∅ = _
  rw [Table.get?_insert]
  split
  next h => rw [h]; rfl
  next => rfl

theorem bucket_unindex (c : Cache) (k₀ : Capacity) (s : Spot) (k : Capacity) :
    (c.unindex k₀ s).bucket k = if k₀ = k then (c.bucket k).remove s else c.bucket k := by
  unfold unindex
  cases hk : c.byCapacity.get? k₀ with
  | none =>
    dsimp only
    split
    next h =>
      subst h
      unfold bucket
      rw [hk]
      rfl
    next => rfl
  | some spots =>
    dsimp only
    have hbucket : c.bucket k₀ = spots := by
      unfold bucket
      rw [hk]
      rfl
    change ((if (spots.remove s).isEmpty = true then c.byCapacity.erase k₀
      else c.byCapacity.insert k₀ (spots.remove s)).get? k).getD ∅ = _
    split
    next he =>
      rw [Table.get?_erase]
      split
      next h => rw [← h, hbucket, Table.eq_empty_of_isEmpty he]; rfl
      next => rfl
    next =>
      rw [Table.get?_insert]
      split
      next h => rw [← h, hbucket]; rfl
      next => rfl

/-- No bucket is empty. -/
def Filled (c : Cache) : Prop := ∀ k spots, c.byCapacity.get? k = some spots → spots.isEmpty = false

theorem Filled.insert (h : c.Filled) (e : CacheEntry) : (c.insert e).Filled := by
  intro k spots hk
  have hk : (c.byCapacity.insert e.capacity ((c.bucket e.capacity).add e.spot)).get? k =
    some spots := hk
  rw [Table.get?_insert] at hk
  split at hk
  next =>
    rw [← Option.some.inj hk]
    exact Table.isEmpty_insert _ _ _
  next => exact h k spots hk

theorem Filled.store (h : c.Filled) (now : Time) (id : ResourceId) (r : Resource) :
    (c.store now id r).2.Filled := by
  unfold Cache.store
  cases r.allocation with
  | none => exact h
  | some a => exact h.insert ⟨id, r, a, now⟩

theorem Filled.unindex (h : c.Filled) (k₀ : Capacity) (s : Spot) : (c.unindex k₀ s).Filled := by
  intro k spots hk
  unfold Cache.unindex at hk
  split at hk
  next => exact h k spots hk
  next =>
    dsimp only at hk
    split at hk
    next =>
      rw [Table.get?_erase] at hk
      split at hk
      next => simp at hk
      next => exact h k spots hk
    next he =>
      rw [Table.get?_insert] at hk
      split at hk
      next =>
        rw [← Option.some.inj hk]
        exact eq_false_of_ne_true he
      next => exact h k spots hk

/-! ### Agreement -/

structure Indexed (c : Cache) : Prop where
  keyed : c.Keyed
  spot_iff : ∀ k s, (c.bucket k).contains s = true ↔
    ∃ e, c.entries.get? s.id = some e ∧ e.capacity = k ∧ e.spot = s

theorem Indexed.congr (h : c.Indexed) (he : c'.entries = c.entries)
    (hb : c'.byCapacity = c.byCapacity) : c'.Indexed := by
  have hbucket : ∀ k, c'.bucket k = c.bucket k := by
    intro k
    unfold bucket
    rw [hb]
  constructor
  · unfold Keyed
    rw [he]
    exact h.keyed
  · intro k s
    rw [hbucket, he]
    exact h.spot_iff k s

/-- The spot of every entry is in its bucket. -/
theorem Indexed.spot (h : c.Indexed) {id : ResourceId} (he : c.entries.get? id = some e) :
    (c.bucket e.capacity).contains e.spot = true := by
  refine (h.spot_iff _ _).2 ⟨e, ?_, rfl, rfl⟩
  change c.entries.get? e.id = some e
  rw [h.keyed id e he]
  exact he

theorem Indexed.insert (h : c.Indexed) (hfree : c.entries.get? e.id = none) :
    (c.insert e).Indexed := by
  have hget : ∀ id, (c.insert e).entries.get? id =
      if e.id = id then some e else c.entries.get? id := fun id => Table.get?_insert ..
  constructor
  · intro id e' he'
    rw [hget] at he'
    split at he'
    next heq => rw [← Option.some.inj he', heq]
    next => exact h.keyed id e' he'
  · intro k s
    rw [bucket_insert, hget]
    by_cases hid : e.id = s.id
    · -- The id was free, so the bucket had no spot of this id.
      have hnot : ¬ (c.bucket k).contains s = true := by
        intro hs
        obtain ⟨e', he', -⟩ := (h.spot_iff k s).1 hs
        rw [← hid, hfree] at he'
        simp at he'
      rw [if_pos hid]
      constructor
      · intro hs
        split at hs
        next hk => exact ⟨e, rfl, hk, (KeySet.contains_add.1 hs).resolve_right hnot⟩
        next => exact absurd hs hnot
      · rintro ⟨e', he', rfl, hspot⟩
        obtain rfl := Option.some.inj he'
        rw [if_pos rfl]
        exact KeySet.contains_add.2 (.inl hspot)
    · have hspot : e.spot ≠ s := fun hs => hid (congrArg Spot.id hs)
      rw [if_neg hid, ← h.spot_iff]
      split
      next => rw [KeySet.contains_add]; simp [hspot]
      next => rfl

theorem Indexed.store (h : c.Indexed) {id : ResourceId} (hfree : c.entries.get? id = none)
    (now : Time) (r : Resource) : (c.store now id r).2.Indexed := by
  unfold Cache.store
  cases r.allocation with
  | none => exact h
  | some a => exact (h.insert (e := ⟨id, r, a, now⟩) hfree).congr rfl rfl

theorem Indexed.get?_of_mem (h : c.Indexed) (he : e ∈ c.entries.values) :
    c.entries.get? e.id = some e := h.keyed.mem_values.1 he

/-- An entry leaves both indexes. -/
structure Loses (c : Cache) (e : CacheEntry) (c' : Cache) : Prop where
  entries_eq : c'.entries = c.entries.erase e.id
  bucket_eq : ∀ k, c'.bucket k = if e.capacity = k then (c.bucket k).remove e.spot else c.bucket k
  policy_eq : c'.policy = c.policy

theorem Indexed.loses (h : c.Indexed) (he : e ∈ c.entries.values) (hl : c.Loses e c') :
    c'.Indexed := by
  have hget := h.get?_of_mem he
  constructor
  · intro id e' he'
    rw [hl.entries_eq, Table.get?_erase] at he'
    split at he'
    next => simp at he'
    next => exact h.keyed id e' he'
  · intro k s
    rw [hl.bucket_eq, hl.entries_eq, Table.get?_erase]
    by_cases hs : e.id = s.id
    · -- The bucket had no other spot of this id.
      rw [if_pos hs]
      refine iff_of_false (fun hin => ?_) (by simp)
      have hspot : (c.bucket k).contains s = true → e.capacity = k ∧ e.spot = s := by
        intro hin
        obtain ⟨e', he', hplace⟩ := (h.spot_iff k s).1 hin
        rw [← hs, hget] at he'
        rwa [← Option.some.inj he'] at hplace
      split at hin
      next =>
        obtain ⟨hne, hin⟩ := KeySet.contains_remove.1 hin
        exact hne (hspot hin).2
      next hk => exact hk (hspot hin).1
    · have hspot : e.spot ≠ s := fun hs' => hs (congrArg Spot.id hs')
      rw [if_neg hs, ← h.spot_iff]
      split
      next => rw [KeySet.contains_remove]; simp [hspot]
      next => rfl

theorem Indexed.empty (policy : EvictionPolicy) : Indexed { policy } := by
  constructor
  · intro id e he
    simp at he
  · intro k s
    refine iff_of_false (fun h => ?_) (by simp)
    have hfalse : false = true := h
    simp at hfalse

/-! ### Taking out -/

/-- What a look-up finds is the spot of an entry. -/
theorem Indexed.found (h : c.Indexed) {a : Ask} {f : Found} (hf : c.lookup a = some f) :
    ∃ e, c.entries.get? f.spot.id = some e ∧ e.capacity = f.capacity ∧ e.spot = f.spot :=
  (h.spot_iff _ _).1 (mem_bucket_of_lookup hf)

theorem take_of_none {a : Ask} (hf : c.lookup a = none) : c.take a =
    (none, { c with tally := { c.tally with misses := c.tally.misses + 1, size := c.size } }) := by
  unfold take
  rw [hf]
  rfl

theorem Indexed.take_of_some (h : c.Indexed) {a : Ask} {f : Found} (hf : c.lookup a = some f) :
    ∃ e ∈ c.entries.values, e.capacity = f.capacity ∧ e.spot = f.spot ∧
      (c.take a).1 = some (f.kind, e) ∧ c.Loses e (c.take a).2 ∧
      (c.take a).2.tally =
        { c.tally with hits := c.tally.hits + 1, size := (c.take a).2.size } := by
  obtain ⟨e, he, hcap, hspot⟩ := h.found hf
  have hu := unindex_entries c f.capacity f.spot
  have ht := unindex_tally c f.capacity f.spot
  have hid : f.spot.id = e.id := (congrArg Spot.id hspot).symm
  refine ⟨e, Table.mem_values.2 ⟨_, he⟩, hcap, hspot, ?_⟩
  unfold take
  rw [hf]
  simp only [hu, ht, he]
  refine ⟨trivial, ⟨?_, fun k => ?_, unindex_policy c f.capacity f.spot⟩, ?_⟩
  · rw [← hid]
    rfl
  · rw [hcap, hspot]
    exact bucket_unindex c f.capacity f.spot k
  · rfl

theorem Indexed.take (h : c.Indexed) (a : Ask) : (c.take a).2.Indexed := by
  cases hf : c.lookup a with
  | none =>
    rw [take_of_none hf]
    exact h.congr rfl rfl
  | some f =>
    obtain ⟨e, he, -, -, -, hl, -⟩ := h.take_of_some hf
    exact h.loses he hl

theorem Indexed.removeEntry_loses (h : c.Indexed) (he : e ∈ c.entries.values) :
    c.Loses e (c.removeEntry e.id).2 := by
  unfold removeEntry
  rw [h.get?_of_mem he]
  exact ⟨unindex_entries _ _ _, fun k => bucket_unindex _ _ _ k, unindex_policy _ _ _⟩

end ClusterBroker.Cache
