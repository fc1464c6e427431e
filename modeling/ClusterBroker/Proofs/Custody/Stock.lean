import ClusterBroker.Proofs.Cache
import ClusterBroker.Proofs.Custody.Traffic

/-!
# What is in stock

The resources that a registry has, its own and those that it is about to give back, with what they
hold; the entries of a cache; and the hits that the cache has moved to their new ids but not yet
reported. A hit belongs to the resource that waits for it, as long as that still waits. Everything
in stock has an id of its own, and only the cache uses ids that were minted.

A move is a change of the stock after which it is still in order and which conserves what is held.
Ids are distinct only as far as a supply goes, so all this is said of stocks that have not drawn
more than that.
-/
namespace ClusterBroker

/-- What a resource holds: what it was allocated, or the hit that it waits for. -/
def Resource.held (hits : List (Resource × CacheEntry)) (x : Resource) : Option Holding :=
  (x.allocation <|> (hits.find? fun h => h.1.id = x.id).map fun h => h.2.allocation).map
    fun a => (a.managerId, x.id)

def CacheEntry.holding (e : CacheEntry) : Holding := (e.allocation.managerId, e.id)

theorem CacheEntry.toReleased_holding (e : CacheEntry) :
    e.toReleased.holding = some e.holding := rfl

namespace Resource

variable {hits : List (Resource × CacheEntry)} {x : Resource}

theorem held_of_allocation {a : Allocation} (h : x.allocation = some a) :
    x.held hits = some (a.managerId, x.id) := by
  unfold held
  rw [h]
  rfl

theorem held_of_none (h : x.allocation = none) : x.held hits =
    (hits.find? fun h => h.1.id = x.id).map fun h => (h.2.allocation.managerId, x.id) := by
  unfold held
  rw [h]
  cases hits.find? fun h => h.1.id = x.id <;> rfl

theorem held_nil (x : Resource) : x.held [] = x.holding := by
  cases h : x.allocation with
  | none => simp [held_of_none h, holding, h]
  | some a => simp [held_of_allocation h, holding, h]

theorem held_id {p : Holding} (h : x.held hits = some p) : p.2 = x.id := by
  unfold held at h
  obtain ⟨a, -, rfl⟩ := Option.map_eq_some_iff.1 h
  rfl

theorem holding_held {p : Holding} (h : x.holding = some p) : x.held hits = some p := by
  unfold holding at h
  obtain ⟨a, ha, rfl⟩ := Option.map_eq_some_iff.1 h
  exact held_of_allocation ha

/-- Only the hit for this very resource counts. -/
theorem held_congr {hits' : List (Resource × CacheEntry)}
    (h : hits'.find? (fun h => h.1.id = x.id) = hits.find? fun h => h.1.id = x.id) :
    x.held hits' = x.held hits := by
  unfold held
  rw [h]

theorem filterMap_held_id {rs : List Resource} {p : Holding}
    (h : p ∈ rs.filterMap (Resource.held hits)) : p.2 ∈ rs.map Resource.id := by
  obtain ⟨x, hx, hp⟩ := List.mem_filterMap.1 h
  rw [held_id hp]
  exact List.mem_map_of_mem hx

/-- What is allocated is part of what is held. -/
theorem filterMap_holding_sublist (rs : List Resource) :
    (rs.filterMap holding).Sublist (rs.filterMap (Resource.held hits)) := by
  induction rs with
  | nil => exact .slnil
  | cons x rs ih =>
    cases hx : x.holding with
    | some p =>
      rw [List.filterMap_cons_some hx, List.filterMap_cons_some (holding_held hx)]
      exact ih.cons_cons p
    | none =>
      rw [List.filterMap_cons_none hx]
      cases hh : x.held hits with
      | none => rw [List.filterMap_cons_none hh]; exact ih
      | some p => rw [List.filterMap_cons_some hh]; exact ih.cons p

end Resource

/-- Ids for a cache. No two of the first `size` are the same. -/
structure Supply where
  mint : Nat → ResourceId
  size : Nat
  distinct : ∀ m n, m < size → n < size → mint m = mint n → m = n

structure Stock where
  resources : List Resource
  /-- What the cache has moved to a resource that it has not reported to yet. -/
  hits : List (Resource × CacheEntry) := []
  cache : Cache
  /-- How many ids were minted. -/
  drawn : Nat
  log : List Traffic

namespace Stock

variable {u : Supply} {k k' k'' : Stock}

def held (k : Stock) : List Holding :=
  k.resources.filterMap (Resource.held k.hits) ++ k.cache.entries.values.map CacheEntry.holding

structure Orderly (u : Supply) (k : Stock) : Prop where
  ids_nodup : (k.resources.map Resource.id).Nodup
  unminted : ∀ x ∈ k.resources, ∀ n < u.size, x.id ≠ u.mint n
  keyed : k.cache.Keyed
  minted : ∀ id e, k.cache.entries.get? id = some e → ∃ n < k.drawn, id = u.mint n

/-- The supply lasts, the stock is in order, and everything in it goes by its name. -/
structure InOrder (u : Supply) (k : Stock) : Prop where
  within : k.drawn ≤ u.size
  orderly : k.Orderly u
  named : Named (naming k.log) k.held

/-- In order as long as the supply lasts. -/
def Kept (u : Supply) (k : Stock) : Prop := k.drawn ≤ u.size → k.InOrder u

structure Moves (u : Supply) (k k' : Stock) : Prop where
  drawn_le : k.drawn ≤ k'.drawn
  orderly : k'.drawn ≤ u.size → k'.Orderly u
  conserves : k'.drawn ≤ u.size → Conserves k.held k.log k'.held k'.log

theorem Moves.kept (h : k.Moves u k') : k'.Kept u :=
  fun hw => ⟨hw, h.orderly hw, (h.conserves hw).named⟩

theorem Moves.trans (h : k.Moves u k') (h' : k'.Moves u k'') : k.Moves u k'' :=
  ⟨Nat.le_trans h.drawn_le h'.drawn_le, h'.orderly,
    fun hw => (h.conserves (Nat.le_trans h'.drawn_le hw)).trans (h'.conserves hw)⟩

theorem Kept.moves_of (h : k.Kept u) (hd : k.drawn ≤ k'.drawn)
    (hm : k.InOrder u → k'.drawn ≤ u.size →
      k'.Orderly u ∧ Conserves k.held k.log k'.held k'.log) : k.Moves u k' :=
  ⟨hd, fun hw => (hm (h (Nat.le_trans hd hw)) hw).1, fun hw => (hm (h (Nat.le_trans hd hw)) hw).2⟩

/-- Nothing is drawn. -/
theorem Kept.moves (h : k.Kept u) (hd : k'.drawn = k.drawn) (hm : k.InOrder u →
    k'.Orderly u ∧ Conserves k.held k.log k'.held k'.log) : k.Moves u k' :=
  h.moves_of (Nat.le_of_eq hd.symm) fun hk _ => hm hk

theorem Kept.refl (h : k.Kept u) : k.Moves u k :=
  h.moves rfl fun h => ⟨h.orderly, .refl h.named⟩

theorem InOrder.entry (h : k.InOrder u) {e : CacheEntry} (he : e ∈ k.cache.entries.values) :
    ∃ n < u.size, e.id = u.mint n := by
  obtain ⟨n, hn, heq⟩ := h.orderly.minted e.id e (h.orderly.keyed.mem_values.1 he)
  exact ⟨n, Nat.lt_of_lt_of_le hn h.within, heq⟩

/-- Resources and entries have different ids. -/
theorem InOrder.apart (h : k.InOrder u) {x : Resource} (hx : x ∈ k.resources) {e : CacheEntry}
    (he : e ∈ k.cache.entries.values) : x.id ≠ e.id := by
  obtain ⟨n, hlt, hn⟩ := h.entry he
  rw [hn]
  exact h.orderly.unminted x hx n hlt

theorem Orderly.with_resources (h : k.Orderly u) {rs gone : List Resource}
    (hp : k.resources.Perm (rs ++ gone)) (hits : List (Resource × CacheEntry))
    (log : List Traffic) :
    Orderly u { k with resources := rs, hits := hits, log := log } := by
  have hn := ((hp.map Resource.id).nodup_iff.1 h.ids_nodup)
  rw [List.map_append] at hn
  exact ⟨hn.sublist (List.sublist_append_left ..),
    fun x hx => h.unminted x (hp.mem_iff.2 (List.mem_append_left _ hx)), h.keyed, h.minted⟩

theorem Orderly.with_cache (h : k.Orderly u) {es : List CacheEntry} {c : Cache}
    (hs : k.cache.Sheds es c) (hits : List (Resource × CacheEntry)) (log : List Traffic) :
    Orderly u { k with cache := c, hits := hits, log := log } :=
  ⟨h.ids_nodup, h.unminted, hs.keyed h.keyed, fun id e he => h.minted id e (hs.sub id e he)⟩

/-! ### Up to order -/

theorem perm_right_comm {α : Type} (a b c : List α) : (a ++ b ++ c).Perm (a ++ c ++ b) := by
  rw [List.append_assoc, List.append_assoc]
  exact List.perm_append_comm.append_left a

theorem held_perm {rs gone : List Resource} (hp : k.resources.Perm (rs ++ gone)) :
    k.held.Perm (held { k with resources := rs } ++ gone.filterMap (Resource.held k.hits)) := by
  have hm := hp.filterMap (Resource.held k.hits)
  rw [List.filterMap_append] at hm
  exact (hm.append_right _).trans (perm_right_comm ..)

theorem held_perm_cache {es : List CacheEntry} {c : Cache} (hs : k.cache.Sheds es c) :
    k.held.Perm (held { k with cache := c } ++ es.map CacheEntry.holding) := by
  have hm := hs.perm.map CacheEntry.holding
  rw [List.map_append] at hm
  unfold held
  rw [List.append_assoc]
  exact (hm.trans List.perm_append_comm).append_left _

theorem Kept.perm (h : k.Kept u) {rs : List Resource} (hp : k.resources.Perm rs) :
    k.Moves u { k with resources := rs } := by
  have hp' : k.resources.Perm (rs ++ []) := by rwa [List.append_nil]
  have hh := held_perm hp'
  rw [List.filterMap_nil, List.append_nil] at hh
  exact h.moves rfl fun h => ⟨h.orderly.with_resources hp' k.hits k.log, .of_perm h.named hh⟩

/-! ### Giving back -/

theorem Kept.release (h : k.Kept u) {rs gone : List Resource}
    (hp : k.resources.Perm (rs ++ gone)) :
    k.Moves u { k with resources := rs, log := k.log ++ [.released gone] } := by
  refine h.moves rfl fun h => ?_
  have hh := held_perm hp
  have hn := (hp.map Resource.id).nodup_iff.1 h.orderly.ids_nodup
  rw [List.map_append, List.nodup_append] at hn
  have hgone : Named (naming k.log) (gone.filterMap Resource.holding) :=
    ((h.named.perm hh).sublist (List.sublist_append_right ..)).sublist
      (Resource.filterMap_holding_sublist gone)
  refine ⟨h.orderly.with_resources hp k.hits _,
    .release h.named hh (fun p hm => Resource.filterMap_held_id hm) (fun p hm hid => ?_) hgone⟩
  rcases List.mem_append.1 hm with hr | hc
  · exact hn.2.2 _ (Resource.filterMap_held_id hr) _ hid rfl
  · obtain ⟨e, he, rfl⟩ := List.mem_map.1 hc
    obtain ⟨x, hx, hxe⟩ := List.mem_map.1 hid
    exact h.apart (hp.mem_iff.2 (List.mem_append_right _ hx)) he hxe

theorem Kept.shed_nil (h : k.Kept u) {c : Cache} (hs : k.cache.Sheds [] c) :
    k.Moves u { k with cache := c } := by
  have hh := held_perm_cache hs
  rw [List.map_nil, List.append_nil] at hh
  exact h.moves rfl fun h => ⟨h.orderly.with_cache hs k.hits k.log, .of_perm h.named hh⟩

theorem map_toReleased_holding (es : List CacheEntry) :
    (es.map CacheEntry.toReleased).filterMap Resource.holding = es.map CacheEntry.holding := by
  induction es with
  | nil => rfl
  | cons e es ih =>
    rw [List.map_cons, List.filterMap_cons_some e.toReleased_holding, ih, List.map_cons]

theorem map_toReleased_id (es : List CacheEntry) :
    (es.map CacheEntry.toReleased).map Resource.id = es.map CacheEntry.id := by
  rw [List.map_map]
  rfl

/-- Entries are given back by the ids that they have in the cache. -/
theorem Kept.shed (h : k.Kept u) {es : List CacheEntry} {c : Cache} (hs : k.cache.Sheds es c) :
    k.Moves u { k with
      cache := c, log := k.log ++ [.released (es.map CacheEntry.toReleased)] } := by
  refine h.moves rfl fun h => ?_
  have hh := held_perm_cache hs
  have hn := (hs.perm.map CacheEntry.id).nodup_iff.1 h.orderly.keyed.ids_nodup
  rw [List.map_append, List.nodup_append] at hn
  refine ⟨h.orderly.with_cache hs k.hits _,
    .release h.named hh (fun p hm => ?_) (fun p hm hid => ?_) ?_⟩
  · rw [map_toReleased_id]
    obtain ⟨e, he, rfl⟩ := List.mem_map.1 hm
    exact List.mem_map_of_mem he
  · rw [map_toReleased_id] at hid
    obtain ⟨e, he, hpe⟩ := List.mem_map.1 hid
    rcases List.mem_append.1 hm with hr | hc
    · obtain ⟨x, hx, hp⟩ := List.mem_filterMap.1 hr
      refine h.apart hx (hs.perm.mem_iff.2 (List.mem_append_left _ he)) ?_
      rw [← Resource.held_id hp, hpe]
    · obtain ⟨e', he', rfl⟩ := List.mem_map.1 hc
      exact hn.2.2 _ (List.mem_map_of_mem he) _ (List.mem_map_of_mem he') hpe
  · rw [map_toReleased_holding]
    exact (h.named.perm hh).sublist (List.sublist_append_right ..)

end Stock

end ClusterBroker
