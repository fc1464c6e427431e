import ClusterBroker.Cache
import ClusterBroker.Proofs.Table

/-!
# Entries that come and go

A cache sheds entries if what it had is what is handed out and what is left. Whatever takes entries
out of a cache, for whatever reason, sheds exactly those that it returns. What is kept under a new
id is one entry more. The index by capacity plays no part in this, even if it were wrong.
-/
namespace ClusterBroker.Cache

/-- Every entry stands under its own id. -/
def Keyed (c : Cache) : Prop := ∀ id e, c.entries.get? id = some e → e.id = id

theorem Keyed.ids_nodup {c : Cache} (h : c.Keyed) :
    (c.entries.values.map CacheEntry.id).Nodup := by
  rw [Table.map_key_values h]
  exact c.entries.keys_nodup

theorem Keyed.mem_values {c : Cache} (h : c.Keyed) {e : CacheEntry} :
    e ∈ c.entries.values ↔ c.entries.get? e.id = some e := Table.mem_values_of_key h

structure Sheds (c : Cache) (es : List CacheEntry) (c' : Cache) : Prop where
  perm : c.entries.values.Perm (es ++ c'.entries.values)
  sub : ∀ id e, c'.entries.get? id = some e → c.entries.get? id = some e

variable {c c' c'' : Cache} {es es' : List CacheEntry}

theorem Sheds.of_eq (h : c'.entries = c.entries) : c.Sheds [] c' := by
  refine ⟨?_, fun id e he => ?_⟩
  · rw [h]
    exact .refl _
  · rw [← h]
    exact he

theorem Sheds.trans (h : c.Sheds es c') (h' : c'.Sheds es' c'') : c.Sheds (es ++ es') c'' := by
  refine ⟨?_, fun id e he => h.sub id e (h'.sub id e he)⟩
  rw [List.append_assoc]
  exact h.perm.trans (h'.perm.append_left es)

/-- Only the entries count. -/
theorem Sheds.congr (h : c.Sheds es c') (he : c''.entries = c'.entries) : c.Sheds es c'' := by
  have ht := h.trans (.of_eq he)
  rw [List.append_nil] at ht
  exact ht

theorem Sheds.keyed (h : c.Sheds es c') (hk : c.Keyed) : c'.Keyed :=
  fun id e he => hk id e (h.sub id e he)

theorem Sheds.erase {id : ResourceId} {e : CacheEntry} (h : c.entries.get? id = some e)
    (he : c'.entries = c.entries.erase id) : c.Sheds [e] c' := by
  refine ⟨?_, fun k e' hk => ?_⟩
  · rw [he]
    exact Table.values_erase_perm h
  · rw [he, Table.get?_erase] at hk
    split at hk
    next => simp at hk
    next => exact hk

@[simp] theorem unindex_entries (c : Cache) (k : Capacity) (s : Spot) :
    (c.unindex k s).entries = c.entries := by
  unfold unindex
  split <;> rfl

@[simp] theorem unindex_tally (c : Cache) (k : Capacity) (s : Spot) :
    (c.unindex k s).tally = c.tally := by
  unfold unindex
  split <;> rfl

@[simp] theorem unindex_policy (c : Cache) (k : Capacity) (s : Spot) :
    (c.unindex k s).policy = c.policy := by
  unfold unindex
  split <;> rfl

@[simp] theorem removeEntry_tally (id : ResourceId) (c : Cache) :
    (c.removeEntry id).2.tally = c.tally := by
  unfold removeEntry
  split
  · rfl
  · exact unindex_tally _ _ _

theorem removeEntries_tally (ids : List ResourceId) (c : Cache) :
    (c.removeEntries ids).2.tally = c.tally := by
  induction ids generalizing c with
  | nil => rfl
  | cons id ids ih => exact (ih _).trans (removeEntry_tally id c)

theorem takeById_tally (id : ResourceId) (c : Cache) :
    (c.takeById id).2.tally.hits = c.tally.hits ∧
      (c.takeById id).2.tally.misses = c.tally.misses := by
  change (c.removeEntry id).2.tally.hits = _ ∧ (c.removeEntry id).2.tally.misses = _
  rw [removeEntry_tally]
  exact ⟨rfl, rfl⟩

theorem invalidate_tally (id : ResourceId) (c : Cache) :
    (c.invalidate id).2.tally.hits = c.tally.hits ∧
      (c.invalidate id).2.tally.misses = c.tally.misses := by
  have ht := takeById_tally id c
  unfold invalidate
  split
  next heq => rwa [heq] at ht
  next heq => rwa [heq] at ht

/-- An eviction counts the entries that it takes, and notes how many are left. -/
theorem evictWhere_tally (selects : CacheEntry → Bool) (c : Cache) :
    (c.evictWhere selects).2.tally = { c.tally with
      size := (c.evictWhere selects).2.size
      evicted := c.tally.evicted + (c.evictWhere selects).1.length } := by
  have ht := removeEntries_tally ((c.entries.values.filter selects).map CacheEntry.id) c
  unfold evictWhere noteSize
  dsimp only
  rw [ht]
  rfl

theorem evict_tally (now : Time) (c : Cache) : (c.evict now).2.tally = { c.tally with
    size := (c.evict now).2.size
    evicted := c.tally.evicted + (c.evict now).1.length } :=
  c.evictWhere_tally (c.policy.evicts now)

/-! ### Taking out -/

theorem take_sheds (a : Ask) (c : Cache) :
    c.Sheds ((c.take a).1.map Prod.snd).toList (c.take a).2 := by
  unfold take
  cases hf : c.lookup a with
  | none => exact .of_eq rfl
  | some f =>
    have hu := unindex_entries c f.capacity f.spot
    simp only [hu]
    cases he : c.entries.get? f.spot.id with
    | none => exact .of_eq rfl
    | some e => exact .erase he rfl

theorem removeEntry_sheds (id : ResourceId) (c : Cache) :
    c.Sheds (c.removeEntry id).1.toList (c.removeEntry id).2 := by
  unfold removeEntry
  cases he : c.entries.get? id with
  | none => exact .of_eq rfl
  | some e => exact .erase he (unindex_entries _ _ _)

theorem removeEntry_eq (id : ResourceId) (c : Cache) :
    (c.removeEntry id).1 = c.entries.get? id := by
  unfold removeEntry
  cases c.entries.get? id <;> rfl

theorem invalidate_sheds (id : ResourceId) (c : Cache) :
    c.Sheds (c.entries.get? id).toList (c.invalidate id).2 := by
  have hs := removeEntry_sheds id c
  have he := removeEntry_eq id c
  rw [he] at hs
  refine hs.congr ?_
  unfold invalidate takeById
  rw [he]
  cases c.entries.get? id <;> rfl

theorem get?_invalidate (id : ResourceId) (c : Cache) :
    (c.invalidate id).2.entries.get? id = none := by
  unfold invalidate takeById removeEntry
  cases he : c.entries.get? id with
  | none => exact he
  | some e =>
    change ({ c with entries := c.entries.erase id }.unindex e.capacity e.spot).entries.get? id =
      none
    rw [unindex_entries, Table.get?_erase, if_pos rfl]

theorem removeEntries_sheds (ids : List ResourceId) (c : Cache) :
    c.Sheds (c.removeEntries ids).1 (c.removeEntries ids).2 := by
  induction ids generalizing c with
  | nil => exact .of_eq rfl
  | cons id ids ih => exact (removeEntry_sheds id c).trans (ih _)

theorem evictWhere_sheds (selects : CacheEntry → Bool) (c : Cache) :
    c.Sheds (c.evictWhere selects).1 (c.evictWhere selects).2 :=
  (removeEntries_sheds _ c).congr rfl

theorem evict_sheds (now : Time) (c : Cache) : c.Sheds (c.evict now).1 (c.evict now).2 :=
  c.evictWhere_sheds _

theorem drain_sheds (c : Cache) : c.Sheds c.drain.1 c.drain.2 := by
  refine ⟨?_, fun id e he => ?_⟩
  · change c.entries.values.Perm (c.entries.values ++ [])
    rw [List.append_nil]
  · rw [show c.drain.2.entries.get? id = none from rfl] at he
    simp at he

/-! ### Putting in -/

theorem store_entries (now : Time) (id : ResourceId) {r : Resource} {a : Allocation} (c : Cache)
    (h : r.allocation = some a) : (c.store now id r).1 = true ∧
      (c.store now id r).2.entries =
        c.entries.insert id { id := id, released := r, allocation := a, cachedOn := now } := by
  unfold store
  rw [h]
  exact ⟨rfl, rfl⟩

end ClusterBroker.Cache
