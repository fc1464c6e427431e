import ClusterBroker.Proofs.Cache.Index

/-!
# Best fit

As long as the indexes of a cache agree, an ask is served from the least entry that is large enough:
the least at the asked location, if there is one, and else the least anywhere, unless the location
is a must. Only this entry leaves, and what would have been served from another entry still is.
-/
namespace ClusterBroker

/-- Where the index has an entry. -/
def CacheEntry.place (e : CacheEntry) : Capacity × Spot := (e.capacity, e.spot)

namespace Cache

variable {c c' : Cache} {a : Ask} {e e' : CacheEntry}

/-- The first entry with a property, in the order of places. -/
structure First (c : Cache) (q : Capacity × Spot → Bool) (e : CacheEntry) : Prop where
  mem : e ∈ c.entries.values
  has : q e.place = true
  least : ∀ e' ∈ c.entries.values, q e'.place = true → e' = e ∨ Before e.place e'.place

theorem Indexed.mem_places_iff (h : c.Indexed) {p : Capacity × Spot} :
    p ∈ c.places ↔ ∃ e ∈ c.entries.values, e.place = p := by
  obtain ⟨k, s⟩ := p
  rw [mem_places, h.spot_iff]
  constructor
  · rintro ⟨e, he, rfl, rfl⟩
    exact ⟨e, Table.mem_values.2 ⟨_, he⟩, rfl⟩
  · rintro ⟨e, he, hp⟩
    obtain ⟨rfl, rfl⟩ := Prod.mk.inj hp
    exact ⟨e, h.get?_of_mem he, rfl, rfl⟩

theorem Indexed.eq_of_place (h : c.Indexed) (he : e ∈ c.entries.values)
    (he' : e' ∈ c.entries.values) (hp : e.place = e'.place) : e = e' := by
  have hid : e.id = e'.id := congrArg (fun p : Capacity × Spot => p.2.id) hp
  have hget := h.get?_of_mem he
  rw [hid, h.get?_of_mem he'] at hget
  exact (Option.some.inj hget).symm

theorem Indexed.first_of_find? (h : c.Indexed) {q : Capacity × Spot → Bool} {p : Capacity × Spot}
    (hp : c.places.find? q = some p) : ∃ e, c.First q e ∧ e.place = p := by
  obtain ⟨e, he, rfl⟩ := h.mem_places_iff.1 (List.mem_of_find?_eq_some hp)
  refine ⟨e, ⟨he, List.find?_some hp, fun e' he' hq => ?_⟩, rfl⟩
  rcases least_of_find? c.places_ascend hp _ (h.mem_places_iff.2 ⟨e', he', rfl⟩) hq with heq | hlt
  · exact .inl (h.eq_of_place he' he heq)
  · exact .inr hlt

theorem Indexed.find?_eq_none (h : c.Indexed) {q : Capacity × Spot → Bool} :
    c.places.find? q = none ↔ ∀ e ∈ c.entries.values, q e.place = false := by
  rw [List.find?_eq_none]
  constructor
  · intro hno e he
    exact eq_false_of_ne_true (hno _ (h.mem_places_iff.2 ⟨e, he, rfl⟩))
  · intro hno p hp
    obtain ⟨e, he, rfl⟩ := h.mem_places_iff.1 hp
    exact ne_true_of_eq_false (hno e he)

/-! ### Who serves an ask -/

/-- Which entry an ask is served from. -/
inductive Serves (c : Cache) (a : Ask) : HitKind → CacheEntry → Prop
  | here {e : CacheEntry} : c.First (suitsHere a) e → Serves c a .strictLocation e
  | anywhere {e : CacheEntry} : (∀ e' ∈ c.entries.values, suitsHere a e'.place = false) →
      a.locality ≠ .must → c.First (suits a) e → Serves c a .anyLocation e

/-- No entry will do for an ask. -/
def Lacking (c : Cache) (a : Ask) : Prop :=
  (∀ e ∈ c.entries.values, suitsHere a e.place = false) ∧
    (a.locality = .must ∨ ∀ e ∈ c.entries.values, suits a e.place = false)

theorem First.unique {q : Capacity × Spot → Bool} (h : c.First q e) (h' : c.First q e') :
    e = e' := by
  rcases h.least e' h'.mem h'.has with heq | hlt
  · exact heq.symm
  rcases h'.least e h.mem h.has with heq | hlt'
  · exact heq
  exact absurd hlt' (Before.asymm hlt)

theorem Serves.unique {kind kind' : HitKind} (h : c.Serves a kind e) (h' : c.Serves a kind' e') :
    kind = kind' ∧ e = e' := by
  cases h with
  | here hf =>
    cases h' with
    | here hf' => exact ⟨rfl, hf.unique hf'⟩
    | anywhere hnone' => exact absurd hf.has (ne_true_of_eq_false (hnone' e hf.mem))
  | anywhere hnone _ hf =>
    cases h' with
    | here hf' => exact absurd hf'.has (ne_true_of_eq_false (hnone e' hf'.mem))
    | anywhere _ _ hf' => exact ⟨rfl, hf.unique hf'⟩

theorem Serves.mem {kind : HitKind} (h : c.Serves a kind e) : e ∈ c.entries.values := by
  cases h with
  | here hf => exact hf.mem
  | anywhere _ _ hf => exact hf.mem

theorem Serves.not_lacking {kind : HitKind} (h : c.Serves a kind e) : ¬ c.Lacking a := by
  rintro ⟨hhere, hany⟩
  cases h with
  | here hf => exact ne_true_of_eq_false (hhere e hf.mem) hf.has
  | anywhere _ hmust hf =>
    exact ne_true_of_eq_false (hany.resolve_left hmust e hf.mem) hf.has

/-- An ask is served from the entry that it should be served from, or there is none. -/
theorem Indexed.take_cases (h : c.Indexed) (a : Ask) :
    (∃ kind e, c.Serves a kind e ∧ (c.take a).1 = some (kind, e) ∧ c.Loses e (c.take a).2 ∧
      (c.take a).2.tally =
        { c.tally with hits := c.tally.hits + 1, size := (c.take a).2.size }) ∨
    c.Lacking a ∧ c.take a =
      (none,
        { c with tally := { c.tally with misses := c.tally.misses + 1, size := c.size } }) := by
  have hlook := c.lookup_eq a
  unfold pass at hlook
  cases hhere : c.places.find? (suitsHere a) with
  | some p =>
    rw [hhere] at hlook
    obtain ⟨e, hfirst, rfl⟩ := h.first_of_find? hhere
    obtain ⟨e', he', hcap, hspot, htake⟩ := h.take_of_some hlook
    obtain rfl := h.eq_of_place he' hfirst.mem (Prod.ext hcap hspot)
    exact .inl ⟨_, e', .here hfirst, htake⟩
  | none =>
    rw [hhere] at hlook
    have hnone := h.find?_eq_none.1 hhere
    dsimp only at hlook
    split at hlook
    next hmust => exact .inr ⟨⟨hnone, .inl hmust⟩, take_of_none hlook⟩
    next hmust =>
      cases hany : c.places.find? (suits a) with
      | some p =>
        rw [hany] at hlook
        obtain ⟨e, hfirst, rfl⟩ := h.first_of_find? hany
        obtain ⟨e', he', hcap, hspot, htake⟩ := h.take_of_some hlook
        obtain rfl := h.eq_of_place he' hfirst.mem (Prod.ext hcap hspot)
        exact .inl ⟨_, e', .anywhere hnone hmust hfirst, htake⟩
      | none =>
        rw [hany] at hlook
        exact .inr ⟨⟨hnone, .inr (h.find?_eq_none.1 hany)⟩, take_of_none hlook⟩

/-- The answer is the entry that should serve the ask. -/
theorem Indexed.take_iff (h : c.Indexed) {kind : HitKind} :
    (c.take a).1 = some (kind, e) ↔ c.Serves a kind e := by
  rcases h.take_cases a with ⟨kind', e', hs, htake, -⟩ | ⟨hlacking, htake⟩
  · rw [htake, Option.some.injEq, Prod.mk.injEq]
    constructor
    · rintro ⟨rfl, rfl⟩
      exact hs
    · exact hs.unique
  · rw [htake]
    exact iff_of_false (by simp) fun hs => hs.not_lacking hlacking

/-! ### What stays -/

theorem Loses.mem_iff (hl : c.Loses e c') (h : c.Indexed) (he : e ∈ c.entries.values)
    {x : CacheEntry} : x ∈ c'.entries.values ↔ x ∈ c.entries.values ∧ x ≠ e := by
  have hx : x ∈ c.entries.values ∧ x ≠ e ↔ x ∈ c.entries.values ∧ x.id ≠ e.id := by
    refine and_congr_right fun hx => not_congr ⟨congrArg CacheEntry.id, fun hid => ?_⟩
    have hget := h.get?_of_mem hx
    rw [hid, h.get?_of_mem he] at hget
    exact (Option.some.inj hget).symm
  rw [hx]
  constructor
  · intro hx
    obtain ⟨id, hid⟩ := Table.mem_values.1 hx
    rw [hl.entries_eq, Table.get?_erase] at hid
    split at hid
    next => simp at hid
    next hne =>
      rw [h.keyed id x hid]
      exact ⟨Table.mem_values.2 ⟨id, hid⟩, Ne.symm hne⟩
  · rintro ⟨hx, hne⟩
    refine Table.mem_values.2 ⟨x.id, ?_⟩
    rw [hl.entries_eq, Table.get?_erase, if_neg (Ne.symm hne)]
    exact h.get?_of_mem hx

/-- Whoever should serve an ask still should when another entry is gone. -/
theorem Serves.loses {kind : HitKind} {x : CacheEntry} (hs : c.Serves a kind x) (h : c.Indexed)
    (he : e ∈ c.entries.values) (hl : c.Loses e c') (hne : x ≠ e) : c'.Serves a kind x := by
  have hsub : ∀ y ∈ c'.entries.values, y ∈ c.entries.values :=
    fun y hy => ((hl.mem_iff h he).1 hy).1
  have hfirst : ∀ {q}, c.First q x → c'.First q x := fun hf =>
    ⟨(hl.mem_iff h he).2 ⟨hf.mem, hne⟩, hf.has, fun y hy => hf.least y (hsub y hy)⟩
  cases hs with
  | here hf => exact .here (hfirst hf)
  | anywhere hnone hmust hf => exact .anywhere (fun y hy => hnone y (hsub y hy)) hmust (hfirst hf)

theorem Indexed.take_loses (h : c.Indexed) (he : e ∈ c.entries.values) (hl : c.Loses e c')
    (hne : (c.take a).1.map Prod.snd ≠ some e) : (c'.take a).1 = (c.take a).1 := by
  have h' := h.loses he hl
  rcases h.take_cases a with ⟨kind, x, hs, htake, -⟩ | ⟨hlacking, htake⟩
  · rw [htake] at hne ⊢
    exact h'.take_iff.2 (hs.loses h he hl fun hx => hne (congrArg some hx))
  · have hsub : ∀ y ∈ c'.entries.values, y ∈ c.entries.values :=
      fun y hy => ((hl.mem_iff h he).1 hy).1
    have hlacking' : c'.Lacking a := ⟨fun y hy => hlacking.1 y (hsub y hy),
      hlacking.2.imp_right fun hno y hy => hno y (hsub y hy)⟩
    rw [htake]
    exact Option.eq_none_iff_forall_ne_some.2 fun hit hhit =>
      (h'.take_iff.1 hhit).not_lacking hlacking'

/-! ### The least entry that is large enough -/

/-- Large enough for an ask. -/
def Fits (a : Ask) (e : CacheEntry) : Prop :=
  a.memory ≤ e.allocation.memory ∧ a.cpu ≤ e.allocation.cpu

/-- Large enough for an ask, and at its location. -/
def FitsHere (a : Ask) (e : CacheEntry) : Prop := Fits a e ∧ e.allocation.location = a.location

instance (a : Ask) (e : CacheEntry) : Decidable (Fits a e) := inferInstanceAs (Decidable (_ ∧ _))

instance (a : Ask) (e : CacheEntry) : Decidable (FitsHere a e) :=
  inferInstanceAs (Decidable (_ ∧ _))

theorem suits_place : suits a e.place = true ↔ Fits a e := by
  unfold suits Capacity.fits
  rw [Bool.and_eq_true, decide_eq_true_iff, decide_eq_true_iff]
  rfl

theorem suitsHere_place : suitsHere a e.place = true ↔ FitsHere a e := by
  unfold suitsHere
  rw [Bool.and_eq_true, decide_eq_true_iff]
  exact and_congr_left' suits_place

/-- By memory, cpu, location and id. -/
def LessAnywhere (e e' : CacheEntry) : Prop :=
  e.capacity < e'.capacity ∨ e.capacity = e'.capacity ∧ e.spot < e'.spot

/-- By memory, cpu and id. -/
def LessHere (e e' : CacheEntry) : Prop :=
  e.capacity < e'.capacity ∨ e.capacity = e'.capacity ∧ e.id < e'.id

/-- The least entry of a kind. -/
structure Least (c : Cache) (Kind : CacheEntry → Prop) (Less : CacheEntry → CacheEntry → Prop)
    (e : CacheEntry) : Prop where
  mem : e ∈ c.entries.values
  kind : Kind e
  least : ∀ e' ∈ c.entries.values, Kind e' → e' = e ∨ Less e e'

theorem First.anywhere (h : c.First (suits a) e) : c.Least (Fits a) LessAnywhere e :=
  ⟨h.mem, suits_place.1 h.has, fun e' he' hk => h.least e' he' (suits_place.2 hk)⟩

/-- At one location the id decides. -/
theorem First.here (h : c.First (suitsHere a) e) : c.Least (FitsHere a) LessHere e := by
  have hk := suitsHere_place.1 h.has
  refine ⟨h.mem, hk, fun e' he' hk' => ?_⟩
  have hloc : e.allocation.location = e'.allocation.location := hk.2.trans hk'.2.symm
  rcases h.least e' he' (suitsHere_place.2 hk') with heq | hlt | ⟨hcap, hlt | ⟨-, hlt⟩⟩
  · exact .inl heq
  · exact .inr (.inl hlt)
  · have hlt : e.allocation.location.text < e'.allocation.location.text := hlt
    rw [hloc] at hlt
    exact absurd hlt (String.lt_irrefl _)
  · exact .inr (.inr ⟨hcap, hlt⟩)

theorem Serves.fits {kind : HitKind} (h : c.Serves a kind e) :
    Fits a e ∧ (a.locality = .must → e.allocation.location = a.location) := by
  cases h with
  | here hf =>
    have hk := suitsHere_place.1 hf.has
    exact ⟨hk.1, fun _ => hk.2⟩
  | anywhere _ hmust hf => exact ⟨suits_place.1 hf.has, fun hm => absurd hm hmust⟩

/-- A cache whose indexes agree serves an ask from the least entry at the asked location that is
large enough, or else, unless the location is a must, from the least one anywhere. The entry leaves,
and whoever asks for something else gets what it would have got. A miss changes the count of
misses, and the size is noted anew. -/
theorem take_best_fit (h : c.Indexed) (a : Ask) :
    ((∃ e ∈ c.entries.values, FitsHere a e) →
      ∃ e, (c.take a).1 = some (.strictLocation, e) ∧ c.Least (FitsHere a) LessHere e) ∧
    ((∀ e ∈ c.entries.values, ¬ FitsHere a e) → a.locality ≠ .must →
      (∃ e ∈ c.entries.values, Fits a e) →
      ∃ e, (c.take a).1 = some (.anyLocation, e) ∧ c.Least (Fits a) LessAnywhere e) ∧
    ((∀ e ∈ c.entries.values, ¬ FitsHere a e) →
      (a.locality = .must ∨ ∀ e ∈ c.entries.values, ¬ Fits a e) → (c.take a).1 = none) ∧
    (∀ kind e, (c.take a).1 = some (kind, e) →
      e ∈ c.entries.values ∧ c.Loses e (c.take a).2 ∧ (c.take a).2.Indexed ∧
      (c.take a).2.tally =
        { c.tally with hits := c.tally.hits + 1, size := (c.take a).2.size } ∧
      (∀ id, id ≠ e.id → ((c.take a).2.takeById id).1 = (c.takeById id).1) ∧
      ∀ b, (c.take b).1.map Prod.snd ≠ some e → ((c.take a).2.take b).1 = (c.take b).1) ∧
    ((c.take a).1 = none → (c.take a).2 =
      { c with tally := { c.tally with misses := c.tally.misses + 1, size := c.size } }) := by
  have hhere : (∀ e ∈ c.entries.values, ¬ FitsHere a e) →
      ∀ e ∈ c.entries.values, suitsHere a e.place = false := fun hno e he =>
    eq_false_of_ne_true fun hs => hno e he (suitsHere_place.1 hs)
  have hany : (∀ e ∈ c.entries.values, ¬ Fits a e) →
      ∀ e ∈ c.entries.values, suits a e.place = false := fun hno e he =>
    eq_false_of_ne_true fun hs => hno e he (suits_place.1 hs)
  refine ⟨?_, ?_, ?_, ?_, ?_⟩
  · rintro ⟨x, hx, hfits⟩
    rcases h.take_cases a with ⟨kind, e, hs, htake, -⟩ | ⟨hlacking, -⟩
    · cases hs with
      | here hf => exact ⟨e, htake, hf.here⟩
      | anywhere hnone => exact absurd (suitsHere_place.2 hfits) (ne_true_of_eq_false (hnone x hx))
    · exact absurd (suitsHere_place.2 hfits) (ne_true_of_eq_false (hlacking.1 x hx))
  · rintro hno hmust ⟨x, hx, hfits⟩
    rcases h.take_cases a with ⟨kind, e, hs, htake, -⟩ | ⟨hlacking, -⟩
    · cases hs with
      | here hf => exact absurd (suitsHere_place.1 hf.has) (hno e hf.mem)
      | anywhere _ _ hf => exact ⟨e, htake, hf.anywhere⟩
    · exact absurd (suits_place.2 hfits)
        (ne_true_of_eq_false (hlacking.2.resolve_left hmust x hx))
  · intro hno hor
    rcases h.take_cases a with ⟨kind, e, hs, -⟩ | ⟨-, htake⟩
    · exact absurd ⟨hhere hno, hor.imp_right hany⟩ hs.not_lacking
    · rw [htake]
  · intro kind e hhit
    rcases h.take_cases a with ⟨kind', e', hs, htake, hl, htally⟩ | ⟨-, htake⟩
    · rw [htake] at hhit
      obtain ⟨rfl, rfl⟩ := Prod.mk.inj (Option.some.inj hhit)
      have he : e' ∈ c.entries.values := hs.mem
      refine ⟨he, hl, h.loses he hl, htally, fun id hid => ?_, fun b hne => h.take_loses he hl hne⟩
      unfold takeById
      rw [removeEntry_eq, removeEntry_eq, hl.entries_eq, Table.get?_erase, if_neg (Ne.symm hid)]
    · rw [htake] at hhit
      simp at hhit
  · intro hmiss
    rcases h.take_cases a with ⟨kind, e, -, htake, -⟩ | ⟨-, htake⟩
    · rw [htake] at hmiss
      simp at hmiss
    · rw [htake]

/-- The entry at the asked location is taken although a smaller one would do elsewhere. -/
theorem take_best_fit_preferred :
    let kept := fun (memory : UInt64) (location : String) =>
      (⟨⟨⟨1, by decide⟩, ⟨location⟩, .dontCare, 1, 512⟩, ⟨2, by decide⟩, ⟨3, by decide⟩, ⟨"queue"⟩,
        .allocated, some ⟨2, memory, ⟨location⟩, ⟨"m"⟩⟩⟩ : Resource)
    let c := (((({ policy := .never } : Cache).store (.ofMillis 0) ⟨101, by decide⟩
      (kept 1024 "b")).2.store (.ofMillis 0) ⟨102, by decide⟩
      (kept 2048 "a")).2.store (.ofMillis 0) ⟨103, by decide⟩ (kept 4096 "a")).2
    let a : Ask := ⟨⟨7, by decide⟩, ⟨"a"⟩, .preferred, 1, 512⟩
    c.Indexed ∧ ∃ e, (c.take a).1 = some (.strictLocation, e) ∧ e.id = ⟨102, by decide⟩ ∧
      c.Least (FitsHere a) LessHere e ∧ c.Loses e (c.take a).2 := by
  intro kept c a
  have hc : c.Indexed := (((Indexed.empty .never).store (by decide +kernel) _ _).store
    (by decide +kernel) _ _).store (by decide +kernel) _ _
  obtain ⟨hhere, -, -, hhit, -⟩ := take_best_fit hc a
  have hin : (c.entries.get? ⟨102, by decide⟩).any (fun e => decide (FitsHere a e)) = true := by
    decide +kernel
  obtain ⟨x, hx, hfits⟩ := (Option.any_eq_true _ _).1 hin
  obtain ⟨e, htake, hleast⟩ := hhere ⟨x, Table.mem_values.2 ⟨_, hx⟩, of_decide_eq_true hfits⟩
  have hid : (c.take a).1.map (fun hit => hit.2.id) = some ⟨102, by decide⟩ := by decide +kernel
  rw [htake] at hid
  exact ⟨hc, e, htake, Option.some.inj hid, hleast, (hhit _ _ htake).2.1⟩

end Cache

end ClusterBroker
