import ClusterBroker.Proofs.Cache.History

/-!
# What a cache holds decides what it answers

The counts of a cache have no part in its answers, and as long as its indexes agree and no bucket is
empty, the index by capacity is determined by the entries. So two such caches with the same entries
answer alike, for ever, however they came by them: a cache from which entries were taken answers
like one that was only ever given the others.
-/
namespace ClusterBroker.Cache

variable {c c' : Cache}

/-! ### Answers -/

/-- What a cache answers to an operation. -/
inductive Reply where
  | stored (kept : Bool)
  | served (hit : Option (HitKind × CacheEntry))
  | found (e : Option CacheEntry)
  | taken (es : List CacheEntry)
  deriving DecidableEq

def Op.reply : Op → Cache → Reply
  | .store now id r, c => .stored (c.store now id r).1
  | .take a, c => .served (c.take a).1
  | .takeById id, c => .found (c.takeById id).1
  | .invalidate id, c => .found (c.invalidate id).1
  | .evict selects, c => .taken (c.evictWhere selects).1
  | .drain, c => .taken c.drain.1

/-- The answers to these operations, in order. -/
def replies : List Op → Cache → List Reply
  | [], _ => []
  | op :: ops, c => op.reply c :: replies ops (op.run c)

/-! ### The counts have no part in them -/

/-- The same but for the counts. -/
def Alike (c c' : Cache) : Prop := ∃ t, c' = { c with tally := t }

theorem Alike.entries_eq (h : c.Alike c') : c.entries = c'.entries := by
  obtain ⟨t, rfl⟩ := h
  rfl

theorem Alike.bucket_eq (h : c.Alike c') (k : Capacity) : c.bucket k = c'.bucket k := by
  obtain ⟨t, rfl⟩ := h
  rfl

theorem Alike.unindex (h : c.Alike c') (k : Capacity) (s : Spot) :
    (c.unindex k s).Alike (c'.unindex k s) := by
  obtain ⟨t, rfl⟩ := h
  refine ⟨t, ?_⟩
  unfold Cache.unindex
  cases c.byCapacity.get? k <;> rfl

theorem Alike.take (h : c.Alike c') (a : Ask) :
    (c.take a).1 = (c'.take a).1 ∧ (c.take a).2.Alike (c'.take a).2 := by
  obtain ⟨t, rfl⟩ := h
  have hlook : ({ c with tally := t } : Cache).lookup a = c.lookup a := rfl
  unfold Cache.take
  rw [hlook]
  cases c.lookup a with
  | none => exact ⟨rfl, _, rfl⟩
  | some f =>
    obtain ⟨u, hu⟩ := Alike.unindex (c := c) ⟨t, rfl⟩ f.capacity f.spot
    dsimp only
    rw [hu]
    dsimp only
    cases (c.unindex f.capacity f.spot).entries.get? f.spot.id with
    | none => exact ⟨rfl, _, rfl⟩
    | some e => exact ⟨rfl, _, rfl⟩

theorem Alike.removeEntry (h : c.Alike c') (id : ResourceId) :
    (c.removeEntry id).1 = (c'.removeEntry id).1 ∧
      (c.removeEntry id).2.Alike (c'.removeEntry id).2 := by
  obtain ⟨t, rfl⟩ := h
  unfold Cache.removeEntry
  dsimp only
  cases c.entries.get? id with
  | none => exact ⟨rfl, t, rfl⟩
  | some e =>
    exact ⟨rfl, Alike.unindex (c := { c with entries := c.entries.erase id }) ⟨t, rfl⟩ _ _⟩

theorem Alike.removeEntries (h : c.Alike c') (ids : List ResourceId) :
    (c.removeEntries ids).1 = (c'.removeEntries ids).1 ∧
      (c.removeEntries ids).2.Alike (c'.removeEntries ids).2 := by
  induction ids generalizing c c' with
  | nil => exact ⟨rfl, h⟩
  | cons id ids ih =>
    obtain ⟨hone, hleft⟩ := h.removeEntry id
    obtain ⟨hrest, hend⟩ := ih hleft
    refine ⟨?_, hend⟩
    unfold Cache.removeEntries
    dsimp only
    rw [hone, hrest]

/-- A change of the counts is none that matters. -/
theorem Alike.recount (h : c.Alike c') (t t' : Cache.Tally) :
    Alike { c with tally := t } { c' with tally := t' } := by
  obtain ⟨u, rfl⟩ := h
  exact ⟨t', rfl⟩

theorem Alike.takeById (h : c.Alike c') (id : ResourceId) :
    (c.takeById id).1 = (c'.takeById id).1 ∧ (c.takeById id).2.Alike (c'.takeById id).2 := by
  obtain ⟨hone, hleft⟩ := h.removeEntry id
  exact ⟨hone, hleft.recount _ _⟩

theorem Alike.invalidate (h : c.Alike c') (id : ResourceId) :
    (c.invalidate id).2.Alike (c'.invalidate id).2 := by
  obtain ⟨hone, hleft⟩ := h.takeById id
  unfold Cache.invalidate
  generalize c.takeById id = r at hone hleft
  generalize c'.takeById id = r' at hone hleft
  obtain ⟨e, l⟩ := r
  obtain ⟨e', l'⟩ := r'
  obtain rfl : e = e' := hone
  cases e with
  | none => exact hleft
  | some e => exact hleft.recount _ _

theorem Op.run_alike (h : c.Alike c') (op : Op) :
    op.reply c = op.reply c' ∧ (op.run c).Alike (op.run c') := by
  cases op with
  | store now id r =>
    obtain ⟨t, rfl⟩ := h
    dsimp only [reply, run]
    unfold Cache.store
    cases r.allocation with
    | none => exact ⟨rfl, t, rfl⟩
    | some a => exact ⟨rfl, _, rfl⟩
  | take a => exact ⟨congrArg Reply.served (h.take a).1, (h.take a).2⟩
  | takeById id => exact ⟨congrArg Reply.found (h.takeById id).1, (h.takeById id).2⟩
  | invalidate id =>
    refine ⟨congrArg Reply.found ?_, h.invalidate id⟩
    rw [invalidate_eq, invalidate_eq]
    exact (h.takeById id).1
  | evict selects =>
    dsimp only [reply, run]
    unfold evictWhere
    rw [h.entries_eq]
    obtain ⟨hout, hleft⟩ := h.removeEntries ((c'.entries.values.filter selects).map CacheEntry.id)
    exact ⟨congrArg Reply.taken hout, hleft.recount _ _⟩
  | drain =>
    obtain ⟨t, rfl⟩ := h
    exact ⟨rfl, _, rfl⟩

theorem after_alike (h : c.Alike c') (ops : List Op) :
    replies ops c = replies ops c' ∧ (after ops c).Alike (after ops c') := by
  induction ops generalizing c c' with
  | nil => exact ⟨rfl, h⟩
  | cons op ops ih =>
    obtain ⟨hreply, hnext⟩ := op.run_alike h
    obtain ⟨hreplies, hend⟩ := ih hnext
    exact ⟨congrArg₂ List.cons hreply hreplies, hend⟩

/-! ### The index is determined by the entries -/

theorem Filled.get?_byCapacity (h : c.Filled) (k : Capacity) :
    c.byCapacity.get? k = if (c.bucket k).isEmpty then none else some (c.bucket k) := by
  unfold bucket
  cases hk : c.byCapacity.get? k with
  | none => rfl
  | some spots =>
    rw [Option.getD_some, h k spots hk]
    rfl

theorem Keyed.entries_eq (h : c.Keyed) (h' : c'.Keyed)
    (hmem : ∀ e, e ∈ c.entries.values ↔ e ∈ c'.entries.values) : c.entries = c'.entries := by
  have hget : ∀ id e, c.entries.get? id = some e ↔ c'.entries.get? id = some e := by
    intro id e
    constructor
    · intro he
      obtain rfl := h id e he
      exact h'.mem_values.1 ((hmem e).1 (h.mem_values.2 he))
    · intro he
      obtain rfl := h' id e he
      exact h.mem_values.1 ((hmem e).2 (h'.mem_values.2 he))
  exact Table.ext_get? fun id => Option.ext (hget id)

/-- The same entries in the same buckets, none of them empty, make the same cache. -/
theorem Filled.alike (h : c.Filled) (h' : c'.Filled) (hp : c.policy = c'.policy)
    (he : c.entries = c'.entries) (hbucket : ∀ k, c.bucket k = c'.bucket k) : c.Alike c' := by
  have hb : c.byCapacity = c'.byCapacity := by
    refine Table.ext_get? fun k => ?_
    rw [h.get?_byCapacity, h'.get?_byCapacity, hbucket]
  refine ⟨c'.tally, ?_⟩
  rw [hp, he, hb]

/-- The two indexes agree, no bucket is empty, and every resource is kept with its own
allocation. -/
structure Consistent (c : Cache) : Prop where
  indexed : c.Indexed
  filled : c.Filled
  genuine : ∀ e ∈ c.entries.values, e.released.allocation = some e.allocation

/-- Consistent caches with the same entries are the same but for the counts. -/
theorem Consistent.alike (h : c.Consistent) (h' : c'.Consistent) (hp : c.policy = c'.policy)
    (hmem : ∀ e, e ∈ c.entries.values ↔ e ∈ c'.entries.values) : c.Alike c' := by
  have he : c.entries = c'.entries := h.indexed.keyed.entries_eq h'.indexed.keyed hmem
  refine h.filled.alike h'.filled hp he fun k => KeySet.ext_contains fun s => ?_
  rw [h.indexed.spot_iff, h'.indexed.spot_iff, he]

/-! ### Every history leads to a consistent cache -/

theorem Op.mem_run (op : Op) (hop : op.Allowed c) {e : CacheEntry}
    (he : e ∈ (op.run c).entries.values) : e ∈ op.entering ∨ e ∈ c.entries.values := by
  have hin := (op.run_account hop).mem_iff.2 (List.mem_append_right _ he)
  exact List.mem_append.1 hin

theorem Op.entering_genuine (op : Op) {e : CacheEntry} (he : e ∈ op.entering) :
    e.released.allocation = some e.allocation := by
  cases op with
  | store now id r =>
    obtain ⟨a, ha, rfl⟩ := Option.map_eq_some_iff.1 (Option.mem_toList.1 he)
    exact ha
  | _ => simp [entering] at he

theorem Op.run_consistent (h : c.Consistent) (op : Op) (hop : op.Allowed c) :
    (op.run c).Consistent := by
  refine ⟨op.run_indexed h.indexed hop, op.run_filled h.filled, fun e he => ?_⟩
  rcases op.mem_run hop he with hin | hin
  · exact op.entering_genuine hin
  · exact h.genuine e hin

theorem consistent_after {ops : List Op} (h : c.Consistent) (hops : Admitted ops c) :
    (after ops c).Consistent := by
  induction ops generalizing c with
  | nil => exact h
  | cons op ops ih => exact ih (op.run_consistent h hops.1) hops.2

theorem Consistent.empty (policy : EvictionPolicy) : Consistent { policy } := by
  refine ⟨.empty policy, fun k spots hk => ?_, fun e he => ?_⟩
  · simp at hk
  · exact absurd he List.not_mem_nil

theorem removeEntry_policy (id : ResourceId) (c : Cache) :
    (c.removeEntry id).2.policy = c.policy := by
  unfold removeEntry
  split
  · rfl
  · exact unindex_policy _ _ _

theorem removeEntries_policy (ids : List ResourceId) (c : Cache) :
    (c.removeEntries ids).2.policy = c.policy := by
  induction ids generalizing c with
  | nil => rfl
  | cons id ids ih => exact (ih _).trans (removeEntry_policy id c)

theorem Op.run_policy (op : Op) (c : Cache) : (op.run c).policy = c.policy := by
  cases op with
  | store now id r =>
    dsimp only [run]
    unfold Cache.store
    cases r.allocation <;> rfl
  | take a =>
    dsimp only [run]
    unfold Cache.take
    split
    next => rfl
    next f _ =>
      dsimp only
      split
      · exact unindex_policy c f.capacity f.spot
      · exact unindex_policy c f.capacity f.spot
  | takeById id => exact removeEntry_policy id c
  | invalidate id =>
    have hp : (c.takeById id).2.policy = c.policy := removeEntry_policy id c
    dsimp only [run]
    unfold Cache.invalidate
    split
    next heq => rwa [heq] at hp
    next heq => rwa [heq] at hp
  | evict selects => exact removeEntries_policy _ c
  | drain => rfl

theorem after_policy (ops : List Op) (c : Cache) : (after ops c).policy = c.policy := by
  induction ops generalizing c with
  | nil => rfl
  | cons op ops ih => exact (ih _).trans (op.run_policy c)

/-! ### A cache that only ever held some entries -/

/-- What puts an entry into a cache. -/
def restore (e : CacheEntry) : Op := .store e.cachedOn e.id e.released

/-- A cache that was given these entries, one after the other, and nothing else. -/
def holding (policy : EvictionPolicy) (es : List CacheEntry) : Cache :=
  after (es.map restore) { policy }

variable {es : List CacheEntry}

theorem run_restore {e : CacheEntry} (he : e.released.allocation = some e.allocation) (c : Cache) :
    ((restore e).run c).entries = c.entries.insert e.id e := (store_entries _ _ c he).2

theorem arrivals_restore (h : ∀ e ∈ es, e.released.allocation = some e.allocation) :
    arrivals (es.map restore) = es := by
  induction es with
  | nil => rfl
  | cons e es ih =>
    have he : (restore e).entering = [e] := by
      dsimp only [restore, Op.entering]
      rw [h e List.mem_cons_self]
      rfl
    change (restore e).entering ++ arrivals (es.map restore) = e :: es
    rw [he, ih fun x hx => h x (List.mem_cons_of_mem _ hx)]
    rfl

theorem departures_restore (es : List CacheEntry) (c : Cache) :
    departures (es.map restore) c = [] := by
  induction es generalizing c with
  | nil => rfl
  | cons e es ih => exact ih _

theorem admitted_restore (h : ∀ e ∈ es, e.released.allocation = some e.allocation)
    (hids : (es.map CacheEntry.id).Nodup) (hfree : ∀ e ∈ es, c.entries.get? e.id = none) :
    Admitted (es.map restore) c := by
  induction es generalizing c with
  | nil => trivial
  | cons e es ih =>
    obtain ⟨hnot, hids⟩ := List.nodup_cons.1 hids
    have hrun := run_restore (h e List.mem_cons_self) c
    refine ⟨Table.contains_eq_false.2 (hfree e List.mem_cons_self), ?_⟩
    refine ih (fun x hx => h x (List.mem_cons_of_mem _ hx)) hids fun x hx => ?_
    have hne : e.id ≠ x.id := fun heq => hnot (heq ▸ List.mem_map_of_mem hx)
    rw [hrun, Table.get?_insert, if_neg hne]
    exact hfree x (List.mem_cons_of_mem _ hx)

/-- A consistent cache is what it would be if it had only ever held what it holds. -/
theorem Consistent.holding (h : c.Consistent) (hes : es.Perm c.entries.values) :
    c.Alike (holding c.policy es) := by
  have hgen : ∀ e ∈ es, e.released.allocation = some e.allocation :=
    fun e he => h.genuine e (hes.mem_iff.1 he)
  have hids : (es.map CacheEntry.id).Nodup :=
    (hes.map CacheEntry.id).nodup_iff.2 h.indexed.keyed.ids_nodup
  have hops : Admitted (es.map restore) { policy := c.policy } :=
    admitted_restore hgen hids fun e _ => Table.get?_empty e.id
  have hvalues := after_account hops
  have hnone : ({ policy := c.policy } : Cache).entries.values = [] := rfl
  rw [arrivals_restore hgen, departures_restore, hnone, List.append_nil] at hvalues
  have hpolicy : (Cache.holding c.policy es).policy = c.policy := after_policy _ _
  refine h.alike (consistent_after (.empty c.policy) hops) hpolicy.symm fun e => ?_
  rw [← hes.mem_iff]
  exact hvalues.mem_iff

/-! ### What is taken out, and what is left -/

theorem removeEntry_entries (id : ResourceId) (c : Cache) :
    (c.removeEntry id).2.entries = c.entries.erase id := by
  unfold removeEntry
  cases he : c.entries.get? id with
  | none => exact (Table.erase_of_absent he).symm
  | some e => exact unindex_entries _ _ _

theorem removeEntries_entries (ids : List ResourceId) (c : Cache) :
    (c.removeEntries ids).2.entries = ids.foldl (fun t id => t.erase id) c.entries := by
  induction ids generalizing c with
  | nil => rfl
  | cons id ids ih =>
    change ((c.removeEntry id).2.removeEntries ids).2.entries = _
    rw [ih, removeEntry_entries]
    rfl

theorem removeEntries_eq {ids : List ResourceId} (hids : ids.Nodup) (c : Cache) :
    (c.removeEntries ids).1 = ids.filterMap c.entries.get? := by
  induction ids generalizing c with
  | nil => rfl
  | cons id ids ih =>
    obtain ⟨hnot, hids⟩ := List.nodup_cons.1 hids
    have hrest : ids.filterMap (c.entries.erase id).get? = ids.filterMap c.entries.get? := by
      refine List.filterMap_congr fun k hk => ?_
      have hne : id ≠ k := fun heq => hnot (heq ▸ hk)
      rw [Table.get?_erase, if_neg hne]
    change (c.removeEntry id).1.toList ++ ((c.removeEntry id).2.removeEntries ids).1 = _
    rw [ih hids, removeEntry_entries, removeEntry_eq, hrest, List.filterMap_cons]
    cases c.entries.get? id <;> rfl

/-- What is selected leaves, in the order of ids, and the rest stays. -/
theorem Keyed.evictWhere (h : c.Keyed) (p : CacheEntry → Bool) :
    (c.evictWhere p).1 = c.entries.values.filter p ∧
      (c.evictWhere p).2.entries = c.entries.filter fun _ e => !p e := by
  constructor
  · change (c.removeEntries _).1 = _
    rw [removeEntries_eq (Table.keys_where_nodup h p), Table.filterMap_keys_where h]
  · change (c.removeEntries _).2.entries = _
    refine Table.ext_get? fun id => ?_
    rw [removeEntries_entries, Table.get?_foldl_erase, Table.get?_filter]
    cases he : c.entries.get? id with
    | none => simp
    | some e =>
      have hsel : id ∈ (c.entries.values.filter p).map CacheEntry.id ↔ p e = true := by
        rw [Table.mem_keys_where h, he, Option.any_some]
      rw [if_congr hsel rfl rfl, Option.filter_some]
      cases p e <;> rfl

end ClusterBroker.Cache
