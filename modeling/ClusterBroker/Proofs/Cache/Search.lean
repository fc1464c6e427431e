import ClusterBroker.Proofs.Cache

/-!
# What a search finds

The places of an index, bucket by bucket and in the order of each bucket, ascend by capacity, then
location, then id. A search leaves out buckets that are too small, enters every other bucket at the
asked location, and stops at the first one that has it. It finds what one pass over all places would
find: the first place that is large enough and at the asked location, or else the first that is
large enough.
-/
namespace ClusterBroker

/-- In an ascending list the first element with a property is the least one. -/
theorem least_of_find? {α : Type} {R : α → α → Prop} {p : α → Bool} {l : List α} {x : α}
    (hl : l.Pairwise R) (h : l.find? p = some x) : ∀ y ∈ l, p y = true → y = x ∨ R x y := by
  obtain ⟨-, before, rest, rfl, hbefore⟩ := List.find?_eq_some_iff_append.1 h
  intro y hy hp
  rcases List.mem_append.1 hy with hy | hy
  · have hno := hbefore y hy
    simp [hp] at hno
  · rcases List.mem_cons.1 hy with rfl | hy
    · exact .inl rfl
    · exact .inr ((List.pairwise_cons.1 (List.pairwise_append.1 hl).2.1).1 y hy)

theorem Location.eq_of_text {l l' : Location} (h : l.text = l'.text) : l = l' := by
  cases l
  cases l'
  exact congrArg mk h

/-- Whatever is large enough for an ask comes no earlier than the size of the ask. -/
theorem Capacity.not_lt_of_fits {k : Capacity} {a : Ask} (h : k.fits a = true) :
    ¬ k < Capacity.ofAsk a := by
  unfold fits at h
  rw [Bool.and_eq_true, decide_eq_true_iff, decide_eq_true_iff] at h
  rintro (hm | ⟨-, hc⟩)
  · exact UInt64.not_lt.2 h.1 hm
  · exact UInt32.not_lt.2 h.2 hc

namespace Cache

/-! ### Within a bucket -/

theorem not_lt_lowest (l : Location) (i : ResourceId) : ¬ (⟨l, i⟩ : Spot) < ⟨l, .ofNat 0⟩ := by
  rintro (h | ⟨-, h⟩)
  · exact String.lt_irrefl _ h
  · exact Nat.not_lt_zero _ h

/-- From the lowest id at a location on, the spots at this location come first. -/
theorem firstAt_eq (l : Location) (spots : KeySet Spot) :
    firstAt l spots = spots.keys.find? fun s => s.location = l := by
  obtain ⟨es, hes⟩ := spots
  unfold firstAt Table.onward Table.keys
  rw [List.head?_filter]
  dsimp only
  induction es with
  | nil => rfl
  | cons e es ih =>
    obtain ⟨hfirst, hrest⟩ := List.pairwise_cons.1 hes
    rw [List.find?_cons, List.map_cons, List.find?_cons]
    by_cases hlt : e.1 < (⟨l, .ofNat 0⟩ : Spot)
    · have hne : e.1.location ≠ l := by
        rintro rfl
        exact not_lt_lowest _ _ hlt
      simp only [hlt, decide_true, Bool.not_true, hne, decide_false]
      exact ih hrest
    · by_cases heq : e.1.location = l
      · simp [hlt, heq]
      · -- Later spots come after a location that comes after `l`.
        have hnone : (es.map Prod.fst).find? (fun s => s.location = l) = none := by
          rw [List.find?_eq_none]
          intro s hs hsl
          obtain ⟨e', he', rfl⟩ := List.mem_map.1 hs
          have hsl : e'.1.location = l := of_decide_eq_true hsl
          rcases hfirst e' he' with h | ⟨h, -⟩
          · exact hlt (.inl (by rwa [hsl] at h))
          · exact heq ((Location.eq_of_text h).trans hsl)
        simp [hlt, heq, hnone]

/-! ### Bucket by bucket -/

/-- The places of buckets, in the order in which a search comes to them. -/
def placesOf (bs : List (Capacity × KeySet Spot)) : List (Capacity × Spot) :=
  bs.flatMap fun b => b.2.keys.map (Prod.mk b.1)

def places (c : Cache) : List (Capacity × Spot) := placesOf c.byCapacity.entries

/-- One place comes before another: by capacity, then location, then id. -/
def Before (p q : Capacity × Spot) : Prop := p.1 < q.1 ∨ p.1 = q.1 ∧ p.2 < q.2

theorem Before.asymm {p q : Capacity × Spot} (h : Before p q) : ¬ Before q p := by
  rcases h with h | ⟨heq, h⟩
  · rintro (h' | ⟨heq', -⟩)
    · exact Key.not_lt_of_lt h h'
    · exact Key.ne_of_lt h heq'.symm
  · rintro (h' | ⟨-, h'⟩)
    · exact Key.ne_of_lt h' heq.symm
    · exact Key.not_lt_of_lt h h'

theorem places_ascend (c : Cache) : c.places.Pairwise Before := by
  unfold places placesOf
  rw [List.pairwise_flatMap]
  refine ⟨fun b _ => ?_, c.byCapacity.ascending.imp fun h p hp q hq => ?_⟩
  · rw [List.pairwise_map]
    exact (List.pairwise_map.2 b.2.ascending).imp fun h => .inr ⟨rfl, h⟩
  · obtain ⟨s, -, rfl⟩ := List.mem_map.1 hp
    obtain ⟨t, -, rfl⟩ := List.mem_map.1 hq
    exact .inl h

theorem mem_places {c : Cache} {k : Capacity} {s : Spot} :
    (k, s) ∈ c.places ↔ (c.bucket k).contains s = true := by
  unfold places placesOf bucket
  rw [List.mem_flatMap]
  constructor
  · rintro ⟨⟨k', spots⟩, hb, hs⟩
    obtain ⟨t, ht, he⟩ := List.mem_map.1 hs
    obtain ⟨rfl, rfl⟩ := Prod.mk.inj he
    rw [Table.mem_entries.1 hb]
    exact Table.mem_keys.1 ht
  · intro h
    cases hk : c.byCapacity.get? k with
    | none => simp [hk, Table.contains] at h
    | some spots =>
      rw [hk] at h
      exact ⟨(k, spots), Table.mem_entries.2 hk, List.mem_map.2 ⟨s, Table.mem_keys.2 h, rfl⟩⟩

/-- Large enough for an ask. -/
def suits (a : Ask) (p : Capacity × Spot) : Bool := p.1.fits a

/-- Large enough for an ask, and at its location. -/
def suitsHere (a : Ask) (p : Capacity × Spot) : Bool :=
  p.1.fits a && decide (p.2.location = a.location)

/-- One pass over places that looks for the asked location first. -/
def pass (a : Ask) (best : Option Found) (ps : List (Capacity × Spot)) : Option Found :=
  match ps.find? (suitsHere a) with
  | some p => some ⟨p.1, p.2, .strictLocation⟩
  | none =>
    if a.locality = .must then none
    else best <|> (ps.find? (suits a)).map fun p => ⟨p.1, p.2, .anyLocation⟩

variable {a : Ask} {k : Capacity}

/-- A bucket before the others: it wins if it has the asked location, else it counts if no other
place was found before. -/
theorem pass_bucket (h : k.fits a = true) (best : Option Found) (ss : List Spot)
    (ps : List (Capacity × Spot)) : pass a best (ss.map (Prod.mk k) ++ ps) =
      match ss.find? fun s => s.location = a.location with
      | some s => some ⟨k, s, .strictLocation⟩
      | none => pass a (best <|> ss.head?.map fun s => ⟨k, s, .anyLocation⟩) ps := by
  have hhere : (ss.map (Prod.mk k)).find? (suitsHere a) =
      (ss.find? fun s => s.location = a.location).map (Prod.mk k) := by
    rw [List.find?_map]
    simp [Function.comp_def, suitsHere, h]
  have hany : (ss.map (Prod.mk k)).find? (suits a) = ss.head?.map (Prod.mk k) := by
    cases ss <;> simp [suits, h]
  unfold pass
  rw [List.find?_append, List.find?_append, hhere, hany]
  cases ss.find? fun s => s.location = a.location with
  | some s => rfl
  | none =>
    rw [Option.map_none, Option.none_or]
    cases best <;> cases ss <;> simp

theorem pass_bucket_small (h : k.fits a = false) (best : Option Found) (ss : List Spot)
    (ps : List (Capacity × Spot)) : pass a best (ss.map (Prod.mk k) ++ ps) = pass a best ps := by
  have hhere : (ss.map (Prod.mk k)).find? (suitsHere a) = none := by simp [suitsHere, h]
  have hany : (ss.map (Prod.mk k)).find? (suits a) = none := by simp [suits, h]
  unfold pass
  rw [List.find?_append, List.find?_append, hhere, hany, Option.none_or, Option.none_or]

theorem search_eq (best : Option Found) (bs : List (Capacity × KeySet Spot)) :
    search a best bs = pass a best (placesOf bs) := by
  induction bs generalizing best with
  | nil =>
    unfold search pass
    cases best <;> rfl
  | cons b bs ih =>
    obtain ⟨k, spots⟩ := b
    have hplaces : placesOf ((k, spots) :: bs) = spots.keys.map (Prod.mk k) ++ placesOf bs := rfl
    unfold search
    rw [firstAt_eq, hplaces]
    cases hfit : k.fits a with
    | true =>
      rw [if_pos rfl, pass_bucket hfit]
      cases spots.keys.find? fun s => s.location = a.location with
      | some s => rfl
      | none => exact ih _
    | false =>
      rw [if_neg (by simp), pass_bucket_small hfit]
      exact ih best

/-! ### Buckets that are left out -/

theorem placesOf_onward (c : Cache) (k : Capacity) :
    placesOf (c.byCapacity.onward k) = c.places.filter fun p => !decide (p.1 < k) := by
  unfold places placesOf Table.onward
  induction c.byCapacity.entries with
  | nil => rfl
  | cons b bs ih =>
    rw [List.filter_cons, List.flatMap_cons, List.filter_append, ← ih]
    split
    next h => simp [List.flatMap_cons, List.filter_map, Function.comp_def, h]
    next h =>
      have h : b.1 < k := by simpa using h
      simp [List.filter_map, Function.comp_def, h]

/-- Buckets before the size of the ask have nothing for it. -/
theorem find?_onward (c : Cache) {q : Capacity × Spot → Bool}
    (hq : ∀ p, q p = true → p.1.fits a = true) :
    (placesOf (c.byCapacity.onward (Capacity.ofAsk a))).find? q = c.places.find? q := by
  rw [placesOf_onward, List.find?_filter]
  congr 1
  funext p
  cases hp : q p with
  | false => simp
  | true => simp [Capacity.not_lt_of_fits (hq p hp)]

/-- What a look-up finds is what one pass over all places finds. -/
theorem lookup_eq (c : Cache) (a : Ask) : c.lookup a = pass a none c.places := by
  unfold lookup
  rw [search_eq]
  unfold pass
  rw [find?_onward c (q := suitsHere a) fun p hp => (Bool.and_eq_true_iff.1 hp).1,
    find?_onward c (q := suits a) fun p hp => hp]

/-- What a look-up finds is in the index. -/
theorem mem_bucket_of_lookup {c : Cache} {f : Found} (h : c.lookup a = some f) :
    (c.bucket f.capacity).contains f.spot = true := by
  rw [lookup_eq] at h
  unfold pass at h
  rw [← mem_places]
  split at h
  next p hp =>
    rw [← Option.some.inj h]
    exact List.mem_of_find?_eq_some hp
  next =>
    split at h
    next => simp at h
    next =>
      rw [show (none <|> _ : Option Found) = _ from Option.none_or ..] at h
      obtain ⟨p, hp, rfl⟩ := Option.map_eq_some_iff.1 h
      exact List.mem_of_find?_eq_some hp

end Cache

end ClusterBroker
