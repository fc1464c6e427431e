import ClusterBroker.Proofs.Cache.BestFit
import ClusterBroker.Proofs.Cache.Contents

/-!
# Ids that are taken

What is put in under an id that is taken replaces the entry of that id. If it has another size or is
at another location, the place of the old entry stays in the index by capacity and now leads to the
new entry: an ask that the old entry would have fitted may be served from the new one, which need
not fit. Whatever else is asked of a cache, in any order, every entry stays in its bucket, every
place in a bucket is that of an entry once put in, and a hit fits unless its id was taken over in
this way.
-/
namespace ClusterBroker.Cache

variable {c c' : Cache} {a : Ask} {e e₀ : CacheEntry} {k k₀ : Capacity} {s s₀ : Spot}
  {put crossed : List CacheEntry}

theorem id_of_place (h : e.place = (k, s)) : e.id = s.id :=
  congrArg (fun p : Capacity × Spot => p.2.id) h

/-! ### What a look-up goes by -/

/-- Large enough for an ask, and where the ask or the kind of the hit says. -/
def Suitable (a : Ask) (kind : HitKind) (e : CacheEntry) : Prop :=
  Fits a e ∧ (a.locality = .must ∨ kind = .strictLocation → e.allocation.location = a.location)

instance (a : Ask) (kind : HitKind) (e : CacheEntry) : Decidable (Suitable a kind e) :=
  inferInstanceAs (Decidable (_ ∧ (_ ∨ _ → _)))

/-- A look-up goes by the place, so an entry is suitable if it is at the place that was found. -/
theorem suitable_of_lookup {f : Found} (hf : c.lookup a = some f)
    (he : e.place = (f.capacity, f.spot)) : Suitable a f.kind e := by
  rw [lookup_eq] at hf
  unfold pass at hf
  split at hf
  next p hp =>
    have hfits : FitsHere a e := by
      obtain rfl := Option.some.inj hf
      rw [← suitsHere_place, he]
      exact List.find?_some hp
    exact ⟨hfits.1, fun _ => hfits.2⟩
  next =>
    split at hf
    next => simp at hf
    next hmust =>
      rw [show (none <|> _ : Option Found) = _ from Option.none_or ..] at hf
      obtain ⟨p, hp, rfl⟩ := Option.map_eq_some_iff.1 hf
      have hfits : Fits a e := by
        rw [← suits_place, he]
        exact List.find?_some hp
      exact ⟨hfits, fun hor => absurd hor (by simp [hmust])⟩

/-! ### Entries that are taken over -/

/-- The entries whose id an operation gives to an entry at another place. -/
def Op.displacing : Op → Cache → List CacheEntry
  | .store now id r, c => (c.entries.get? id).toList.filter fun e₀ =>
      (Op.store now id r).entering.any fun e => decide (e₀.place ≠ e.place)
  | _, _ => []

def displaced : List Op → Cache → List CacheEntry
  | [], _ => []
  | op :: ops, c => op.displacing c ++ displaced ops (op.run c)

theorem entering_store {now : Time} {id : ResourceId} {r : Resource} {l : Allocation}
    (h : r.allocation = some l) : (Op.store now id r).entering = [⟨id, r, l, now⟩] := by
  dsimp only [Op.entering]
  rw [h]
  rfl

theorem mem_displacing {now : Time} {id : ResourceId} {r : Resource} {l : Allocation}
    (h : r.allocation = some l) : e₀ ∈ (Op.store now id r).displacing c ↔
      c.entries.get? id = some e₀ ∧ e₀.place ≠ (⟨id, r, l, now⟩ : CacheEntry).place := by
  dsimp only [Op.displacing]
  rw [entering_store h, List.mem_filter, Option.mem_toList, List.any_cons, List.any_nil,
    Bool.or_false, decide_eq_true_iff]

/-! ### What every history keeps -/

/-- What is known of a cache without a condition on what was put in: `put` is everything that ever
was, and `crossed` what was taken over. -/
structure Kept (put crossed : List CacheEntry) (c : Cache) : Prop where
  keyed : c.Keyed
  covers : ∀ e ∈ c.entries.values, (c.bucket e.capacity).contains e.spot = true
  stems : ∀ k s, (c.bucket k).contains s = true → ∃ e₀ ∈ put, e₀.place = (k, s)
  leads : ∀ k s, (c.bucket k).contains s = true → (∀ e₀ ∈ crossed, e₀.id ≠ s.id) →
    ∃ e, c.entries.get? s.id = some e ∧ e.place = (k, s)

theorem Kept.congr (h : c.Kept put crossed) (he : c'.entries = c.entries)
    (hb : ∀ k, c'.bucket k = c.bucket k) : c'.Kept put crossed := by
  constructor
  · unfold Keyed
    rw [he]
    exact h.keyed
  · intro e hin
    rw [he] at hin
    rw [hb]
    exact h.covers e hin
  · intro k s hin
    rw [hb] at hin
    exact h.stems k s hin
  · intro k s hin
    rw [hb] at hin
    rw [he]
    exact h.leads k s hin

/-- A place is struck from the index, and its id from the entries. -/
structure Strikes (c : Cache) (k₀ : Capacity) (s₀ : Spot) (c' : Cache) : Prop where
  entries_eq : c'.entries = c.entries.erase s₀.id
  bucket_eq : ∀ k, c'.bucket k = if k₀ = k then (c.bucket k).remove s₀ else c.bucket k

theorem Strikes.contains_bucket (hs : c.Strikes k₀ s₀ c') :
    (c'.bucket k).contains s = true ↔
      (k₀, s₀) ≠ (k, s) ∧ (c.bucket k).contains s = true := by
  rw [hs.bucket_eq]
  by_cases hk : k₀ = k
  · rw [if_pos hk, KeySet.contains_remove]
    simp [hk]
  · rw [if_neg hk]
    simp [hk]

/-- If the id was not taken over, the place that is struck has to be that of its entry. -/
theorem Kept.strikes (h : c.Kept put crossed) (hs : c.Strikes k₀ s₀ c')
    (hplace : (∀ e₀ ∈ crossed, e₀.id ≠ s₀.id) →
      ∀ e, c.entries.get? s₀.id = some e → e.place = (k₀, s₀)) : c'.Kept put crossed := by
  have hget : ∀ id e, c'.entries.get? id = some e → s₀.id ≠ id ∧ c.entries.get? id = some e := by
    intro id e he
    rw [hs.entries_eq, Table.get?_erase] at he
    split at he
    next => simp at he
    next hne => exact ⟨hne, he⟩
  have hkeyed : c'.Keyed := fun id e he => h.keyed id e (hget id e he).2
  refine ⟨hkeyed, fun e he => ?_, fun k s hin => ?_, fun k s hin hfree => ?_⟩
  · obtain ⟨hne, he⟩ := hget e.id e (hkeyed.mem_values.1 he)
    refine hs.contains_bucket.2 ⟨?_, h.covers e (h.keyed.mem_values.2 he)⟩
    exact fun heq => hne (id_of_place heq.symm).symm
  · exact h.stems k s (hs.contains_bucket.1 hin).2
  · obtain ⟨hne, hin⟩ := hs.contains_bucket.1 hin
    obtain ⟨e, he, hp⟩ := h.leads k s hin hfree
    refine ⟨e, ?_, hp⟩
    rw [hs.entries_eq, Table.get?_erase]
    split
    next hid =>
      -- the entry would be the one that is struck, and its place would be gone
      have hstruck := hplace (by rwa [hid]) e (by rwa [hid])
      exact absurd (hstruck.symm.trans hp) hne
    next => exact he

/-! ### Taking out -/

theorem take_of_lookup {f : Found} (hf : c.lookup a = some f) :
    (c.take a).1 = (c.entries.get? f.spot.id).map (Prod.mk f.kind) ∧
      c.Strikes f.capacity f.spot (c.take a).2 := by
  have hu := unindex_entries c f.capacity f.spot
  have hb : ∀ k, (c.unindex f.capacity f.spot).bucket k = _ := bucket_unindex c f.capacity f.spot
  unfold Cache.take
  rw [hf]
  dsimp only
  rw [hu]
  cases he : c.entries.get? f.spot.id with
  | none => exact ⟨rfl, (Table.erase_of_absent he).symm, hb⟩
  | some e => exact ⟨rfl, rfl, hb⟩

theorem Kept.take (h : c.Kept put crossed) (a : Ask) : (c.take a).2.Kept put crossed := by
  cases hf : c.lookup a with
  | none =>
    rw [take_of_none hf]
    exact h.congr rfl fun _ => rfl
  | some f =>
    refine h.strikes (take_of_lookup hf).2 fun hfree e he => ?_
    -- the place that was found leads to the entry of its id
    obtain ⟨e', he', hp⟩ := h.leads _ _ (mem_bucket_of_lookup hf) hfree
    rw [he] at he'
    rwa [Option.some.inj he']

theorem removeEntry_of_none {id : ResourceId} (he : c.entries.get? id = none) :
    (c.removeEntry id).2 = c := by
  unfold Cache.removeEntry
  rw [he]

theorem removeEntry_strikes (he : c.entries.get? e.id = some e) :
    c.Strikes e.capacity e.spot (c.removeEntry e.id).2 := by
  unfold Cache.removeEntry
  rw [he]
  exact ⟨unindex_entries _ _ _, fun k => bucket_unindex _ _ _ k⟩

theorem Kept.removeEntry (h : c.Kept put crossed) (id : ResourceId) :
    (c.removeEntry id).2.Kept put crossed := by
  cases he : c.entries.get? id with
  | none => rwa [removeEntry_of_none he]
  | some e =>
    obtain rfl := h.keyed id e he
    refine h.strikes (removeEntry_strikes he) fun _ e' he' => ?_
    have he' : c.entries.get? e.id = some e' := he'
    rw [he] at he'
    rw [← Option.some.inj he']
    rfl

theorem Kept.removeEntries (h : c.Kept put crossed) (ids : List ResourceId) :
    (c.removeEntries ids).2.Kept put crossed := by
  induction ids generalizing c with
  | nil => exact h
  | cons id ids ih => exact ih (h.removeEntry id)

/-! ### Putting in -/

theorem store_alike (now : Time) (id : ResourceId) {r : Resource} {l : Allocation} (c : Cache)
    (h : r.allocation = some l) : (c.insert ⟨id, r, l, now⟩).Alike (c.store now id r).2 := by
  unfold Cache.store
  rw [h]
  exact ⟨_, rfl⟩

theorem contains_bucket_insert (e : CacheEntry) (c : Cache) :
    ((c.insert e).bucket k).contains s = true ↔
      e.place = (k, s) ∨ (c.bucket k).contains s = true := by
  rw [bucket_insert]
  by_cases hk : e.capacity = k
  · rw [if_pos hk, KeySet.contains_add]
    simp [CacheEntry.place, hk]
  · rw [if_neg hk]
    simp [CacheEntry.place, hk]

/-- An entry under an id that is taken crosses the old one if it is at another place. -/
theorem Kept.insert (h : c.Kept put crossed) {gone : List CacheEntry}
    (hgone : ∀ e₀, c.entries.get? e.id = some e₀ → e₀.place ≠ e.place → e₀ ∈ gone) :
    (c.insert e).Kept (put ++ [e]) (crossed ++ gone) := by
  have hget : ∀ id, (c.insert e).entries.get? id =
      if e.id = id then some e else c.entries.get? id := fun id => Table.get?_insert ..
  have hkeyed : (c.insert e).Keyed := by
    intro id e' he'
    rw [hget] at he'
    split at he'
    next hid => rw [← Option.some.inj he', hid]
    next => exact h.keyed id e' he'
  refine ⟨hkeyed, fun e' he' => ?_, fun k s hin => ?_, fun k s hin hfree => ?_⟩
  · have he' := hkeyed.mem_values.1 he'
    rw [hget] at he'
    rw [contains_bucket_insert]
    split at he'
    next =>
      obtain rfl := Option.some.inj he'
      exact .inl rfl
    next => exact .inr (h.covers e' (h.keyed.mem_values.2 he'))
  · rcases (contains_bucket_insert e c).1 hin with hp | hin
    · exact ⟨e, List.mem_append_right _ List.mem_cons_self, hp⟩
    · obtain ⟨e₀, he₀, hp⟩ := h.stems k s hin
      exact ⟨e₀, List.mem_append_left _ he₀, hp⟩
  · rw [List.forall_mem_append] at hfree
    rw [hget]
    rcases (contains_bucket_insert e c).1 hin with hp | hin
    · exact ⟨e, if_pos (id_of_place hp), hp⟩
    · obtain ⟨e₀, he₀, hp⟩ := h.leads k s hin hfree.1
      by_cases hid : e.id = s.id
      · -- the old entry of the id was not crossed, so the new one is at its place
        have hsame : e₀.place = e.place := by
          refine Decidable.byContradiction fun hne => ?_
          exact hfree.2 e₀ (hgone e₀ (by rwa [hid]) hne) (h.keyed _ _ he₀)
        exact ⟨e, if_pos hid, hsame.symm.trans hp⟩
      · exact ⟨e₀, (if_neg hid).trans he₀, hp⟩

theorem Kept.store (h : c.Kept put crossed) (now : Time) (id : ResourceId) (r : Resource) :
    (c.store now id r).2.Kept (put ++ (Op.store now id r).entering)
      (crossed ++ (Op.store now id r).displacing c) := by
  cases ha : r.allocation with
  | none =>
    have hnone : (Op.store now id r).entering = [] := by
      dsimp only [Op.entering]
      rw [ha]
      rfl
    have hno : (Op.store now id r).displacing c = [] := by
      unfold Op.displacing
      simp [hnone]
    have hsame : (c.store now id r).2 = c := by
      unfold Cache.store
      rw [ha]
    rwa [hnone, hno, hsame, List.append_nil, List.append_nil]
  | some l =>
    have halike := store_alike now id c ha
    have hin : (c.insert ⟨id, r, l, now⟩).Kept (put ++ [⟨id, r, l, now⟩])
        (crossed ++ (Op.store now id r).displacing c) :=
      h.insert fun e₀ he₀ hne => (mem_displacing ha).2 ⟨he₀, hne⟩
    rw [entering_store ha]
    exact hin.congr halike.entries_eq.symm fun k => (halike.bucket_eq k).symm

/-! ### A whole history -/

theorem Kept.empty (policy : EvictionPolicy) : Kept [] [] { policy } := by
  have hbucket : ∀ k s, ¬ (bucket { policy } k).contains s = true := fun k s h => by
    simp [bucket, Table.contains] at h
  refine ⟨fun id e he => ?_, fun e he => absurd he List.not_mem_nil,
    fun k s h => absurd h (hbucket k s), fun k s h => absurd h (hbucket k s)⟩
  simp at he

theorem Kept.mono (h : c.Kept put crossed) {put' crossed' : List CacheEntry} (hp : put ⊆ put')
    (hc : crossed ⊆ crossed') : c.Kept put' crossed' := by
  refine ⟨h.keyed, h.covers, fun k s hin => ?_, fun k s hin hfree => ?_⟩
  · obtain ⟨e₀, he₀, hplace⟩ := h.stems k s hin
    exact ⟨e₀, hp he₀, hplace⟩
  · exact h.leads k s hin fun e₀ he₀ => hfree e₀ (hc he₀)

theorem Op.run_kept (h : c.Kept put crossed) (op : Op) :
    (op.run c).Kept (put ++ op.entering) (crossed ++ op.displacing c) := by
  have hrest : ∀ {c' : Cache}, c'.Kept put crossed →
      c'.Kept (put ++ op.entering) (crossed ++ op.displacing c) := fun h' =>
    h'.mono (List.subset_append_left _ _) (List.subset_append_left _ _)
  cases op with
  | store now id r => exact h.store now id r
  | take a => exact hrest (h.take a)
  | takeById id => exact hrest ((h.removeEntry id).congr rfl fun _ => rfl)
  | invalidate id =>
    refine hrest ((h.removeEntry id).congr (invalidate_index id c).1 fun k => ?_)
    exact congrArg (fun t => (t.get? k).getD ∅) (invalidate_index id c).2
  | evict selects => exact hrest ((h.removeEntries _).congr rfl fun _ => rfl)
  | drain =>
    have hempty : c.drain.2.Kept [] [] := (Kept.empty c.policy).congr rfl fun _ => rfl
    exact hrest (hempty.mono (List.nil_subset _) (List.nil_subset _))

theorem after_kept (h : c.Kept put crossed) (ops : List Op) :
    (after ops c).Kept (put ++ arrivals ops) (crossed ++ displaced ops c) := by
  induction ops generalizing c put crossed with
  | nil => exact h.mono (List.subset_append_left _ _) (List.subset_append_left _ _)
  | cons op ops ih =>
    have hnext := ih (op.run_kept h)
    rw [List.append_assoc, List.append_assoc] at hnext
    exact hnext

/-- A hit goes by the place of an entry that was put in under its id. -/
theorem Kept.hit (h : c.Kept put crossed) {kind : HitKind} (he : (c.take a).1 = some (kind, e)) :
    (∃ e₀ ∈ put, e₀.id = e.id ∧ Suitable a kind e₀) ∧
      ((∀ e₀ ∈ crossed, e₀.id ≠ e.id) → Suitable a kind e) := by
  cases hf : c.lookup a with
  | none =>
    rw [take_of_none hf] at he
    simp at he
  | some f =>
    have hin := mem_bucket_of_lookup hf
    rw [(take_of_lookup hf).1] at he
    obtain ⟨e', hget, heq⟩ := Option.map_eq_some_iff.1 he
    obtain ⟨rfl, rfl⟩ := Prod.mk.inj heq
    have hid : e'.id = f.spot.id := h.keyed _ _ hget
    constructor
    · obtain ⟨e₀, he₀, hp⟩ := h.stems _ _ hin
      exact ⟨e₀, he₀, (id_of_place hp).trans hid.symm, suitable_of_lookup hf hp⟩
    · rw [hid]
      intro hfree
      obtain ⟨e'', he'', hp⟩ := h.leads _ _ hin hfree
      rw [hget] at he''
      obtain rfl := Option.some.inj he''
      exact suitable_of_lookup hf hp

/-! ### Putting in after taking out -/

section

variable {now : Time} {id : ResourceId} {r : Resource} {l : Allocation}

theorem contains_bucket_store (ha : r.allocation = some l) :
    ((c.store now id r).2.bucket k).contains s = true ↔
      (⟨id, r, l, now⟩ : CacheEntry).place = (k, s) ∨ (c.bucket k).contains s = true := by
  rw [← (store_alike now id c ha).bucket_eq, contains_bucket_insert]

/-- The places that are in the index if the entry of the id is taken out first. -/
theorem contains_bucket_afresh (h : c.Keyed) (ha : r.allocation = some l) :
    (((c.takeById id).2.store now id r).2.bucket k).contains s = true ↔
      (⟨id, r, l, now⟩ : CacheEntry).place = (k, s) ∨
        (∀ e₀, c.entries.get? id = some e₀ → e₀.place ≠ (k, s)) ∧
          (c.bucket k).contains s = true := by
  rw [contains_bucket_store ha]
  refine or_congr_right ?_
  change ((c.removeEntry id).2.bucket k).contains s = true ↔ _
  cases he : c.entries.get? id with
  | none =>
    rw [removeEntry_of_none he]
    simp
  | some e =>
    obtain rfl := h id e he
    rw [(removeEntry_strikes he).contains_bucket]
    simp [CacheEntry.place]

theorem entries_afresh (c : Cache) (ha : r.allocation = some l) :
    (c.store now id r).2.entries = ((c.takeById id).2.store now id r).2.entries := by
  rw [(store_entries now id c ha).2, (store_entries now id _ ha).2]
  change _ = (c.removeEntry id).2.entries.insert id _
  rw [removeEntry_entries]
  refine Table.ext_get? fun k => ?_
  rw [Table.get?_insert, Table.get?_insert, Table.get?_erase]
  split <;> rfl

/-- Nothing is displaced: the entry of the id might as well have been taken out first. -/
theorem store_alike_afresh (h : c.Keyed) (hf : c.Filled) (ha : r.allocation = some l)
    (hno : (Op.store now id r).displacing c = []) :
    (c.store now id r).2.Alike ((c.takeById id).2.store now id r).2 := by
  have hsame : ∀ e₀, c.entries.get? id = some e₀ →
      e₀.place = (⟨id, r, l, now⟩ : CacheEntry).place := by
    intro e₀ he₀
    refine Decidable.byContradiction fun hne => ?_
    have hin := (mem_displacing ha).2 ⟨he₀, hne⟩
    rw [hno] at hin
    exact List.not_mem_nil hin
  have hf' : ((c.takeById id).2.store now id r).2.Filled :=
    ((hf.removeEntry id).congr rfl : (c.takeById id).2.Filled).store now id r
  have hp : (c.store now id r).2.policy = ((c.takeById id).2.store now id r).2.policy :=
    (Op.run_policy (.store now id r) c).trans
      (after_policy [.takeById id, .store now id r] c).symm
  refine (hf.store now id r).alike hf' hp (entries_afresh c ha) fun k => ?_
  refine KeySet.ext_contains fun s => ?_
  rw [contains_bucket_store ha, contains_bucket_afresh h ha]
  constructor
  · rintro (hplace | hin)
    · exact .inl hplace
    · by_cases hplace : (⟨id, r, l, now⟩ : CacheEntry).place = (k, s)
      · exact .inl hplace
      · exact .inr ⟨fun e₀ he₀ => hsame e₀ he₀ ▸ hplace, hin⟩
  · exact Or.imp_right And.right

/-- The place of an entry that is displaced stays in the index. -/
theorem Kept.displaced_stays (h : c.Kept put crossed) (ha : r.allocation = some l)
    (he₀ : e₀ ∈ (Op.store now id r).displacing c) :
    ((c.store now id r).2.bucket e₀.capacity).contains e₀.spot = true ∧
      (((c.takeById id).2.store now id r).2.bucket e₀.capacity).contains e₀.spot = false := by
  obtain ⟨hget, hne⟩ := (mem_displacing ha).1 he₀
  have hin : (c.bucket e₀.capacity).contains e₀.spot = true :=
    h.covers e₀ (Table.mem_values.2 ⟨id, hget⟩)
  refine ⟨(contains_bucket_store ha).2 (.inr hin), eq_false_of_ne_true fun hafresh => ?_⟩
  rcases (contains_bucket_afresh h.keyed ha).1 hafresh with hp | ⟨hno, -⟩
  · exact hne hp.symm
  · exact hno e₀ hget rfl

end

/-- Whatever is asked of a cache, also to put something in under an id that is taken, a hit goes by
what was once put in under its id, and is itself large enough and at the right location if no entry
of this id was ever replaced by one of another size or at another location. To replace an entry by
one of the same size at the same location, or to put in under an id that is free, is to take out
what is there first; otherwise the place of the replaced entry stays in the index. -/
theorem hit_fits_unless_displaced (policy : EvictionPolicy) (ops : List Op) :
    let c := after ops { policy }
    (∀ a kind e, (c.take a).1 = some (kind, e) →
      (∃ e₀ ∈ arrivals ops, e₀.id = e.id ∧ Suitable a kind e₀) ∧
        ((∀ e₀ ∈ displaced ops { policy }, e₀.id ≠ e.id) → Suitable a kind e)) ∧
      ∀ now id r, r.allocation.isSome = true →
        let x := (c.store now id r).2
        let y := ((c.takeById id).2.store now id r).2
        ((Op.store now id r).displacing c = [] → ∀ later, replies later x = replies later y) ∧
          ∀ e₀ ∈ (Op.store now id r).displacing c,
            (x.bucket e₀.capacity).contains e₀.spot = true ∧
              (y.bucket e₀.capacity).contains e₀.spot = false := by
  intro c
  have hkept : c.Kept (arrivals ops) (displaced ops { policy }) := after_kept (.empty policy) ops
  have hfilled : c.Filled := after_filled (fun k spots hk => by simp at hk) ops
  refine ⟨fun a kind e he => hkept.hit he, fun now id r hsome => ?_⟩
  obtain ⟨l, ha⟩ := Option.isSome_iff_exists.1 hsome
  refine ⟨fun hno later => ?_, fun e₀ he₀ => hkept.displaced_stays ha he₀⟩
  exact (after_alike (store_alike_afresh hkept.keyed hfilled ha hno) later).1

/-- One id was taken over, another one was not: a hit on the other fits. A hit on the first goes by
the entry that was replaced. -/
theorem hit_fits_unless_displaced_beside :
    let kept := fun (cpu : UInt32) (memory : UInt64) (location : String) =>
      (⟨⟨⟨1, by decide⟩, ⟨location⟩, .dontCare, cpu, memory⟩, ⟨2, by decide⟩, ⟨3, by decide⟩,
        ⟨"queue"⟩, .allocated, some ⟨cpu, memory, ⟨location⟩, ⟨"m"⟩⟩⟩ : Resource)
    let wanted := fun (memory : UInt64) => (⟨⟨7, by decide⟩, ⟨"a"⟩, .must, 2, memory⟩ : Ask)
    let ops : List Op := [
      .store (.ofMillis 0) ⟨101, by decide⟩ (kept 4 4096 "a"),
      .store (.ofMillis 1) ⟨102, by decide⟩ (kept 2 2048 "a"),
      .store (.ofMillis 2) ⟨101, by decide⟩ (kept 1 512 "b")]
    let c := after ops { policy := .never }
    (∃ kind e, (c.take (wanted 2048)).1 = some (kind, e) ∧ e.id = ⟨102, by decide⟩ ∧
        Suitable (wanted 2048) kind e) ∧
      ∃ kind e, (c.take (wanted 4096)).1 = some (kind, e) ∧
        ∃ e₀ ∈ arrivals ops, e₀.id = e.id ∧ Suitable (wanted 4096) kind e₀ := by
  intro kept wanted ops c
  obtain ⟨hhit, -⟩ := hit_fits_unless_displaced .never ops
  have hother : (c.take (wanted 2048)).1.any (fun hit => hit.2.id = ⟨102, by decide⟩) = true := by
    decide +kernel
  obtain ⟨⟨kind, e⟩, he, hid⟩ := (Option.any_eq_true _ _).1 hother
  have hid : e.id = ⟨102, by decide⟩ := of_decide_eq_true hid
  have hfree : ∀ e₀ ∈ displaced ops { policy := .never }, e₀.id ≠ e.id := by
    rw [hid]
    decide +kernel
  have hsome : (c.take (wanted 4096)).1.isSome = true := by decide +kernel
  obtain ⟨⟨kind', e'⟩, he'⟩ := Option.isSome_iff_exists.1 hsome
  exact ⟨⟨kind, e, he, hid, (hhit _ _ _ he).2 hfree⟩, kind', e', he', (hhit _ _ _ he').1⟩

/-- A large entry at one location is replaced by a small one elsewhere, and an ask that has to be
served from the first location is served from the second, with less than it asks for. Had the first
entry been taken out before, there would have been nothing. -/
theorem displaced_hit_misfits :
    let kept := fun (cpu : UInt32) (memory : UInt64) (location : String) =>
      (⟨⟨⟨11, by decide⟩, ⟨location⟩, .dontCare, cpu, memory⟩, ⟨1, by decide⟩, ⟨1, by decide⟩,
        ⟨"q"⟩, .allocated, some ⟨cpu, memory, ⟨location⟩, ⟨"m"⟩⟩⟩ : Resource)
    let large : Op := .store (.ofMillis 1000) ⟨1, by decide⟩ (kept 4 4096 "a")
    let small : Op := .store (.ofMillis 1000) ⟨1, by decide⟩ (kept 1 512 "b")
    let a : Ask := ⟨⟨21, by decide⟩, ⟨"a"⟩, .must, 2, 2048⟩
    (∃ e, ((after [large, small] { policy := .never }).take a).1 = some (.strictLocation, e) ∧
      ¬ a.memory ≤ e.allocation.memory ∧ ¬ a.cpu ≤ e.allocation.cpu ∧
      e.allocation.location ≠ a.location ∧ ¬ Suitable a .strictLocation e) ∧
    ((after [large, .takeById ⟨1, by decide⟩, small] { policy := .never }).take a).1 = none := by
  intro kept large small a
  refine ⟨⟨⟨⟨1, by decide⟩, kept 1 512 "b", ⟨1, 512, ⟨"b"⟩, ⟨"m"⟩⟩, .ofMillis 1000⟩, ?_⟩, ?_⟩
  · decide +kernel
  · decide +kernel

end ClusterBroker.Cache
