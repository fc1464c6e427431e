import ClusterBroker.Proofs.Custody.Stock

/-!
# Moves of the stock

What is in stock moves from the cache to a resource that asks for it, from a resource into the
cache, and in and out as the manager reports. Each move is conservative: what is renamed keeps its
place under the new id, and what is missing afterwards went by the id in the report.
-/
namespace ClusterBroker.Stock

variable {u : Supply} {k : Stock}

theorem perm_cons_of_mem {α : Type} [DecidableEq α] {a : α} {l : List α} (h : a ∈ l) :
    ∃ rest, l.Perm (a :: rest) := ⟨l.erase a, List.perm_cons_erase h⟩

theorem held_perm_cons {x : Resource} {rest : List Resource} (hp : k.resources.Perm (x :: rest)) :
    k.held.Perm ((x.held k.hits).toList ++ held { k with resources := rest }) := by
  have hp' : k.resources.Perm (rest ++ [x]) := hp.trans (List.perm_append_singleton ..).symm
  have hh := held_perm hp'
  have hx : [x].filterMap (Resource.held k.hits) = (x.held k.hits).toList := by
    cases hx : x.held k.hits <;> simp [hx]
  rw [hx] at hh
  exact hh.trans List.perm_append_comm

theorem Orderly.ne_of_perm (h : k.Orderly u) {x : Resource} {rest : List Resource}
    (hp : k.resources.Perm (x :: rest)) : ∀ y ∈ rest, y.id ≠ x.id := by
  intro y hy he
  have hn := (hp.map Resource.id).nodup_iff.1 h.ids_nodup
  rw [List.map_cons, List.nodup_cons] at hn
  exact hn.1 (he ▸ List.mem_map_of_mem hy)

/-- Hits for other resources change nothing. -/
theorem held_congr_hits {hits : List (Resource × CacheEntry)}
    (h : ∀ x ∈ k.resources, x.held hits = x.held k.hits) :
    held { k with hits := hits } = k.held := by
  unfold held
  rw [List.filterMap_congr h]

/-! ### Between cache and resources -/

/-- A hit: the entry goes by the id of the resource that asked for it. -/
theorem Kept.hit (h : k.Kept u) {r : Resource} {e : CacheEntry} {c : Cache}
    (hr : r ∈ k.resources) (hn : r.allocation = none) (hnew : ∀ q ∈ k.hits, q.1.id ≠ r.id)
    (hs : k.cache.Sheds [e] c) :
    k.Moves u { k with
      hits := k.hits ++ [(r, e)], cache := c
      log := k.log ++ [.renamed e.allocation.managerId r.id] } := by
  refine h.moves rfl fun h => ?_
  obtain ⟨rest, hp⟩ := perm_cons_of_mem hr
  have hne := h.orderly.ne_of_perm hp
  have hbefore : k.held.Perm (e.holding :: held { k with resources := rest, cache := c }) := by
    have hh := held_perm_cons (k := { k with cache := c }) hp
    have hnone : r.held k.hits = none := by
      rw [Resource.held_of_none hn, List.find?_eq_none.2 fun q hq => by simpa using hnew q hq]
      rfl
    simp only [hnone, Option.toList_none, List.nil_append] at hh
    have hc := (held_perm_cache hs).trans (hh.append_right _)
    exact hc.trans (List.perm_append_singleton ..)
  have hothers : held { k with resources := rest, hits := k.hits ++ [(r, e)], cache := c } =
      held { k with resources := rest, cache := c } := by
    refine held_congr_hits (k := { k with resources := rest, cache := c }) fun x hx =>
      Resource.held_congr ?_
    rw [List.find?_append, List.find?_cons_of_neg (by simpa using (hne x hx).symm)]
    simp
  have hself : r.held (k.hits ++ [(r, e)]) = some (e.allocation.managerId, r.id) := by
    rw [Resource.held_of_none hn, List.find?_append,
      List.find?_eq_none.2 fun q hq => by simpa using hnew q hq]
    simp
  have hafter := held_perm_cons (k := { k with hits := k.hits ++ [(r, e)], cache := c }) hp
  simp only [hself, hothers, Option.toList_some, List.singleton_append] at hafter
  have hren := Conserves.rename h.named hbefore r.id
  exact ⟨h.orderly.with_cache hs _ _, hren.trans (.of_perm hren.named hafter.symm)⟩

/-- A resource is kept under a fresh id. -/
theorem Kept.keep (h : k.Kept u) {r : Resource} {a : Allocation} {rest : List Resource} {c : Cache}
    {now : Time} (hp : k.resources.Perm (r :: rest)) (ha : r.allocation = some a)
    (hc : c.entries = k.cache.entries.insert (u.mint k.drawn)
      { id := u.mint k.drawn, released := r, allocation := a, cachedOn := now }) :
    k.Moves u { k with
      resources := rest, cache := c, drawn := k.drawn + 1
      log := k.log ++ [.renamed a.managerId (u.mint k.drawn)] } := by
  refine h.moves_of (Nat.le_succ _) fun h hlt => ?_
  have hfree : k.cache.entries.get? (u.mint k.drawn) = none := by
    cases he : k.cache.entries.get? (u.mint k.drawn) with
    | none => rfl
    | some e =>
      obtain ⟨n, hn, heq⟩ := h.orderly.minted _ e he
      have : k.drawn = n := u.distinct _ _ hlt (Nat.lt_trans hn hlt) heq
      omega
  have hbefore := held_perm_cons hp
  rw [Resource.held_of_allocation ha] at hbefore
  have hafter : (held { k with resources := rest, cache := c, drawn := k.drawn + 1 }).Perm
      ((a.managerId, u.mint k.drawn) :: held { k with resources := rest }) := by
    unfold held
    rw [hc]
    exact ((Table.values_insert_perm _ hfree).map CacheEntry.holding |>.append_left _).trans
      List.perm_middle
  have hp' : k.resources.Perm (rest ++ [r]) := hp.trans (List.perm_append_singleton ..).symm
  have hren := Conserves.rename h.named hbefore (u.mint k.drawn)
  refine ⟨?_, hren.trans (.of_perm hren.named hafter.symm)⟩
  obtain ⟨hnd, hun, -, -⟩ := h.orderly.with_resources hp' k.hits k.log
  refine ⟨hnd, hun, fun id e he => ?_, fun id e he => ?_⟩
  · rw [hc, Table.get?_insert] at he
    split at he
    next heq => rw [← Option.some.inj he]; exact heq
    next => exact h.orderly.keyed id e he
  · rw [hc, Table.get?_insert] at he
    split at he
    next heq => exact ⟨k.drawn, Nat.lt_succ_self _, heq.symm⟩
    next =>
      obtain ⟨n, hn, heq⟩ := h.orderly.minted id e he
      exact ⟨n, Nat.lt_succ_of_lt hn, heq⟩

/-- An id is minted for nothing. -/
theorem Kept.draw (h : k.Kept u) : k.Moves u { k with drawn := k.drawn + 1 } := by
  refine h.moves_of (Nat.le_succ _) fun h _ => ?_
  obtain ⟨hnd, hun, hk, hm⟩ := h.orderly
  refine ⟨⟨hnd, hun, hk, fun id e he => ?_⟩, .refl h.named⟩
  obtain ⟨n, hn, heq⟩ := hm id e he
  exact ⟨n, Nat.lt_succ_of_lt hn, heq⟩

/-! ### Reports -/

/-- What a reported change does to resources, up to order. -/
inductive Shift (c : Change) (rs rs' : List Resource) : Prop
  | same : rs.Perm rs' → Shift c rs rs'
  | granted {a : Allocation} {x : Resource} {rest : List Resource} :
      rs.Perm (x :: rest) → rs'.Perm (x.allocate a :: rest) → c = .allocated x.id a → Shift c rs rs'
  | dropped {x : Resource} {rest : List Resource} :
      rs.Perm (x :: rest) → rs'.Perm rest → x.id = c.resource → Shift c rs rs'

/-- What the manager hands out is not in stock already, unless by this very id. -/
def Spares (k : Stock) : Change → Prop
  | .allocated id a => ∀ p ∈ k.held, p.1 = a.managerId → p.2 = id
  | _ => True

instance (k : Stock) (c : Change) : Decidable (k.Spares c) :=
  match c with
  | .allocated id a => inferInstanceAs (Decidable (∀ p ∈ k.held, p.1 = a.managerId → p.2 = id))
  | .rejected _ | .preempted _ | .lost _ => inferInstanceAs (Decidable True)

/-- Resources that leave, together with what leaves the cache. -/
theorem held_perm_both {rs gone : List Resource} {es : List CacheEntry} {c : Cache}
    (hp : k.resources.Perm (rs ++ gone)) (hs : k.cache.Sheds es c) :
    k.held.Perm (held { k with resources := rs, cache := c } ++
      (gone.filterMap (Resource.held k.hits) ++ es.map CacheEntry.holding)) := by
  have hr := held_perm (k := { k with cache := c }) hp
  have hc := held_perm_cache hs
  rw [← List.append_assoc]
  exact hc.trans (hr.append_right _)

/-- The stock after a report: the resources are `rs` now. -/
def takes (c : Change) (rs : List Resource) (k : Stock) : Stock :=
  { k with
    resources := rs, cache := (k.cache.invalidate c.resource).2
    log := k.log ++ [.reported c] }

theorem Spares.of_perm {c : Change} (h : k.Spares c) {held' gone : List Holding}
    (hp : k.held.Perm (held' ++ gone)) :
    ∀ id a, c = .allocated id a → ∀ p ∈ held', p.1 = a.managerId → p.2 = id := by
  intro id a hc p hm
  rw [hc] at h
  exact h p (hp.mem_iff.2 (List.mem_append_left _ hm))

/-- Resources of this id, together with the entry of this id, hold only by this id. -/
theorem InOrder.held_id (h : k.InOrder u) {id : ResourceId} {gone : List Resource}
    (hg : ∀ x ∈ gone, x.id = id) : ∀ p ∈ gone.filterMap (Resource.held k.hits) ++
      (k.cache.entries.get? id).toList.map CacheEntry.holding, p.2 = id := by
  intro p hm
  rcases List.mem_append.1 hm with hm | hm
  · obtain ⟨y, hy, hpy⟩ := List.mem_filterMap.1 hm
    rw [Resource.held_id hpy, hg y hy]
  · obtain ⟨e, he, rfl⟩ := List.mem_map.1 hm
    exact h.orderly.keyed id e (Option.mem_toList.1 he)

/-- Resources of the id in the report may leave. -/
theorem InOrder.lose (h : k.InOrder u) {c : Change} {rs gone : List Resource}
    (hp : k.resources.Perm (rs ++ gone)) (hg : ∀ x ∈ gone, x.id = c.resource) (hnew : k.Spares c) :
    (k.takes c rs).Orderly u ∧ Conserves k.held k.log (k.takes c rs).held (k.takes c rs).log := by
  have hs := k.cache.invalidate_sheds c.resource
  have hh := held_perm_both hp hs
  exact ⟨(h.orderly.with_cache hs k.hits k.log).with_resources hp k.hits _,
    .report h.named hh (h.held_id hg) (hnew.of_perm hh)⟩

/-- A resource is allocated. -/
theorem Orderly.allocate (h : k.Orderly u) {x : Resource} {a : Allocation} {rest rs : List Resource}
    (hp : k.resources.Perm (x :: rest)) (hp' : rs.Perm (x.allocate a :: rest))
    (hits : List (Resource × CacheEntry)) (log : List Traffic) :
    Orderly u { k with resources := rs, hits := hits, log := log } := by
  have hids : (rs.map Resource.id).Perm (k.resources.map Resource.id) :=
    (hp'.map Resource.id).trans (hp.map Resource.id).symm
  refine ⟨hids.nodup_iff.2 h.ids_nodup, fun y hy => ?_, h.keyed, h.minted⟩
  rcases List.mem_cons.1 (hp'.mem_iff.1 hy) with rfl | hy
  · exact h.unminted x (hp.mem_iff.2 (List.mem_cons_self ..))
  · exact h.unminted y (hp.mem_iff.2 (List.mem_cons_of_mem _ hy))

/-- Nothing else goes by the id of a resource. -/
theorem InOrder.ne_id (h : k.InOrder u) {x : Resource} {rest : List Resource}
    (hp : k.resources.Perm (x :: rest)) {es : List CacheEntry} {c : Cache}
    (hs : k.cache.Sheds es c) :
    ∀ p ∈ held { k with resources := rest, cache := c }, p.2 ≠ x.id := by
  intro p hm hpx
  rcases List.mem_append.1 hm with hr | hc
  · obtain ⟨y, hy, hpy⟩ := List.mem_filterMap.1 hr
    exact h.orderly.ne_of_perm hp y hy ((Resource.held_id hpy).symm.trans hpx)
  · obtain ⟨e, he, rfl⟩ := List.mem_map.1 hc
    exact h.apart (hp.mem_iff.2 (List.mem_cons_self ..))
      (hs.perm.mem_iff.2 (List.mem_append_right _ he)) hpx.symm

theorem InOrder.grant (h : k.InOrder u) {x : Resource} {a : Allocation} {rest rs : List Resource}
    (hp : k.resources.Perm (x :: rest)) (hp' : rs.Perm (x.allocate a :: rest))
    (hnew : k.Spares (.allocated x.id a)) :
    let k' := k.takes (.allocated x.id a) rs
    k'.Orderly u ∧ Conserves k.held k.log k'.held k'.log := by
  have hs := k.cache.invalidate_sheds x.id
  have hpx : k.resources.Perm (rest ++ [x]) := hp.trans (List.perm_append_singleton ..).symm
  have hh := held_perm_both hpx hs
  have hafter := held_perm_cons (k := k.takes (.allocated x.id a) rs) hp'
  rw [Resource.held_of_allocation rfl] at hafter
  have hgrant := Conserves.grant (a := a) h.named hh
    (h.held_id fun y hy => by rw [List.mem_singleton.1 hy])
    fun p hm he => h.ne_id hp hs p hm (hnew.of_perm hh x.id a rfl p hm he)
  exact ⟨(h.orderly.with_cache hs k.hits k.log).allocate hp hp' k.hits _,
    hgrant.trans (.of_perm hgrant.named hafter.symm)⟩

theorem Kept.report (h : k.Kept u) {c : Change} {rs : List Resource}
    (hc : Shift c k.resources rs) (hnew : k.Spares c) : k.Moves u (k.takes c rs) := by
  refine h.moves rfl fun h => ?_
  cases hc with
  | same hp =>
    have hall : k.resources.Perm (rs ++ []) := by rwa [List.append_nil]
    exact h.lose hall (List.forall_mem_nil _) hnew
  | @dropped x rest hp hp' hid =>
    have hall : k.resources.Perm (rs ++ [x]) :=
      hp.trans ((hp'.symm.cons x).trans (List.perm_append_singleton ..).symm)
    exact h.lose hall (fun y hy => by rw [List.mem_singleton.1 hy, hid]) hnew
  | granted hp hp' hca =>
    subst hca
    exact h.grant hp hp' hnew

theorem Kept.halt (h : k.Kept u) {rs gone : List Resource} (hp : k.resources.Perm (rs ++ gone))
    {es : List CacheEntry} {c : Cache} (hs : k.cache.Sheds es c) :
    k.Moves u { k with resources := rs, cache := c, log := k.log ++ [.halted] } := by
  refine h.moves rfl fun h => ?_
  have hh := held_perm_both hp hs
  exact ⟨(h.orderly.with_cache hs k.hits k.log).with_resources hp k.hits _, .halt h.named hh⟩

/-! ### Reporting hits -/

variable {q : Resource × CacheEntry} {hits : List (Resource × CacheEntry)}

theorem held_cons_of_allocation {x : Resource} (h : x.id = q.1.id → x.allocation ≠ none) :
    x.held (q :: hits) = x.held hits := by
  cases ha : x.allocation with
  | some a => rw [Resource.held_of_allocation ha, Resource.held_of_allocation ha]
  | none =>
    have hne : q.1.id ≠ x.id := fun he => h he.symm ha
    exact Resource.held_congr (List.find?_cons_of_neg (by simpa using hne))

/-- A hit for a resource that no longer waits was given up before. -/
theorem Kept.hit_ignored (h : k.Kept u) (hk : k.hits = q :: hits)
    (hn : ∀ x ∈ k.resources, x.id = q.1.id → x.allocation ≠ none) :
    k.Moves u { k with hits := hits } := by
  refine h.moves rfl fun h => ?_
  have hh : held { k with hits := hits } = k.held := by
    refine held_congr_hits fun x hx => ?_
    rw [hk, held_cons_of_allocation (hn x hx)]
  exact ⟨⟨h.orderly.ids_nodup, h.orderly.unminted, h.orderly.keyed, h.orderly.minted⟩,
    .of_perm h.named (by rw [hh])⟩

/-- The resource that waits for a hit holds it before it is reported and afterwards. -/
theorem Kept.hit_taken (h : k.Kept u) (hk : k.hits = q :: hits) {x : Resource}
    {rest rs : List Resource} (hp : k.resources.Perm (x :: rest)) (hn : x.allocation = none)
    (hid : x.id = q.1.id) (hp' : rs.Perm (x.allocate q.2.allocation :: rest)) :
    k.Moves u { k with hits := hits, resources := rs } := by
  refine h.moves rfl fun h => ?_
  have hbefore := held_perm_cons hp
  have hfind : x.held k.hits = some (q.2.allocation.managerId, x.id) := by
    rw [Resource.held_of_none hn, hk, List.find?_cons_of_pos (by simpa using hid.symm)]
    rfl
  rw [hfind] at hbefore
  have hafter := held_perm_cons (k := { k with hits := hits, resources := rs }) hp'
  rw [Resource.held_of_allocation rfl] at hafter
  have hothers :
      held { k with hits := hits, resources := rest } = held { k with resources := rest } := by
    refine held_congr_hits (k := { k with resources := rest }) fun y hy => ?_
    have hne := h.orderly.ne_of_perm hp y hy
    rw [hk, held_cons_of_allocation fun he => absurd (he.trans hid.symm) hne]
  rw [hothers] at hafter
  exact ⟨h.orderly.allocate hp hp' hits k.log, .of_perm h.named (hbefore.trans hafter.symm)⟩

/-! ### Resources that hold nothing -/

theorem filterMap_held_eq_nil {rs : List Resource} (h : ∀ x ∈ rs, x.allocation = none) :
    rs.filterMap (Resource.held []) = [] := by
  rw [List.filterMap_eq_nil_iff]
  intro x hx
  rw [Resource.held_of_none (h x hx)]
  rfl

theorem Kept.enter (h : k.Kept u) (hk : k.hits = []) {rs all : List Resource}
    (hp : all.Perm (rs ++ k.resources)) (hn : ∀ x ∈ rs, x.allocation = none)
    (hnd : (all.map Resource.id).Nodup) (hun : ∀ x ∈ rs, ∀ n < u.size, x.id ≠ u.mint n) :
    k.Moves u { k with resources := all } := by
  refine h.moves rfl fun h => ?_
  have hh := held_perm (k := { k with resources := all }) (hp.trans List.perm_append_comm)
  rw [hk, filterMap_held_eq_nil hn, List.append_nil] at hh
  refine ⟨⟨hnd, fun x hx => ?_, h.orderly.keyed, h.orderly.minted⟩, .of_perm h.named ?_⟩
  · rcases List.mem_append.1 (hp.mem_iff.1 hx) with hx | hx
    · exact hun x hx
    · exact h.orderly.unminted x hx
  · rw [hk]
    simpa [held, hk] using hh.symm

theorem Kept.leave (h : k.Kept u) (hk : k.hits = []) {rs gone : List Resource}
    (hp : k.resources.Perm (rs ++ gone)) (hn : ∀ x ∈ gone, x.allocation = none) :
    k.Moves u { k with resources := rs } := by
  refine h.moves rfl fun h => ?_
  have hh := held_perm hp
  rw [hk, filterMap_held_eq_nil hn, List.append_nil] at hh
  refine ⟨h.orderly.with_resources hp k.hits k.log, .of_perm h.named ?_⟩
  simpa [held, hk] using hh

/-- The resource that a hit was for holds it. -/
theorem mem_held_of_hit {q : Resource × CacheEntry} (hq : q ∈ k.hits) (hr : q.1 ∈ k.resources)
    (hn : q.1.allocation = none) (hnd : (k.hits.map fun q => q.1.id).Nodup) :
    (q.2.allocation.managerId, q.1.id) ∈ k.held := by
  refine List.mem_append_left _ (List.mem_filterMap.2 ⟨q.1, hr, ?_⟩)
  obtain ⟨q', hq', he⟩ : ∃ q', k.hits.find? (fun p => p.1.id = q.1.id) = some q' ∧
      q'.1.id = q.1.id := by
    cases hf : k.hits.find? fun p => p.1.id = q.1.id with
    | none => simpa using List.find?_eq_none.1 hf q hq
    | some q' => exact ⟨q', rfl, by simpa using List.find?_some hf⟩
  have hqq : q' = q := List.inj_on_of_nodup_map hnd (List.mem_of_find?_eq_some hq') hq he
  rw [Resource.held_of_none hn, hq', hqq]
  rfl

/-- What the resources of the hits hold once they are allocated. -/
theorem filterMap_holding_hits (hits : List (Resource × CacheEntry)) :
    (hits.map fun q => q.1.allocate q.2.allocation).filterMap Resource.holding =
      hits.map fun q => (q.2.allocation.managerId, q.1.id) := by
  rw [List.filterMap_map]
  exact List.filterMap_eq_map ▸ rfl

/-- Resources that waited leave, and the hits that they waited for are given back by their ids. -/
theorem Kept.unclaim (h : k.Kept u) {rs gone : List Resource}
    (hp : k.resources.Perm (rs ++ gone)) (hn : ∀ x ∈ gone, x.allocation = none)
    (hhits : ∀ q ∈ k.hits, q.1 ∈ gone) (hnd : (k.hits.map fun q => q.1.id).Nodup) :
    k.Moves u { k with
      resources := rs, hits := []
      log := k.log ++ [.released (k.hits.map fun q => q.1.allocate q.2.allocation)] } := by
  refine h.moves rfl fun h => ?_
  have hids : (k.hits.map fun q => q.1.allocate q.2.allocation).map Resource.id =
      k.hits.map fun q => q.1.id := by
    rw [List.map_map]
    rfl
  have hin : ∀ q ∈ k.hits, q.1 ∈ k.resources :=
    fun q hq => hp.mem_iff.2 (List.mem_append_right _ (hhits q hq))
  have hn' := (hp.map Resource.id).nodup_iff.1 h.orderly.ids_nodup
  rw [List.map_append, List.nodup_append] at hn'
  have hothers : held { k with resources := rs, hits := [] } = held { k with resources := rs } := by
    refine held_congr_hits (k := { k with resources := rs }) fun x hx => Resource.held_congr ?_
    refine (List.find?_eq_none.2 fun q hq he => ?_).symm
    have hid : q.1.id = x.id := by simpa using he
    exact hn'.2.2 _ (List.mem_map_of_mem hx) _ (List.mem_map_of_mem (hhits q hq)) hid.symm
  have hh := held_perm hp
  rw [← hothers] at hh
  refine ⟨h.orderly.with_resources hp [] _,
    .release h.named hh (fun p hm => ?_) (fun p hm hid => ?_) ?_⟩
  · rw [hids]
    obtain ⟨x, hx, hpx⟩ := List.mem_filterMap.1 hm
    rw [Resource.held_of_none (hn x hx)] at hpx
    obtain ⟨q, hq, rfl⟩ := Option.map_eq_some_iff.1 hpx
    refine List.mem_map.2 ⟨q, List.mem_of_find?_eq_some hq, ?_⟩
    simpa using List.find?_some hq
  · rw [hids] at hid
    obtain ⟨q, hq, hpq⟩ := List.mem_map.1 hid
    rcases List.mem_append.1 hm with hr | hc
    · exact hn'.2.2 _ (Resource.filterMap_held_id hr) _ (List.mem_map_of_mem (hhits q hq)) hpq.symm
    · obtain ⟨e, he, rfl⟩ := List.mem_map.1 hc
      exact h.apart (hin q hq) he hpq
  · rw [filterMap_holding_hits]
    refine .of_mem h.named (fun p hm => ?_) ?_
    · obtain ⟨q, hq, rfl⟩ := List.mem_map.1 hm
      exact mem_held_of_hit hq (hin q hq) (hn q.1 (hhits q hq)) hnd
    · rw [List.map_map]
      exact hnd

end ClusterBroker.Stock
