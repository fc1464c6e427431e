import ClusterBroker.Proofs.Custody.Moves

/-!
# Custody through the calls of a cached connector

Each call on a cached connector over a traced one is a move of the stock, however the connector
answers. A submission moves hits to the resources that ask for them; either it goes through, and the
hits are reported last, or it fails and they are given back.
-/
namespace ClusterBroker.CachedConnector

variable {σ : Type} {C : Connector σ} {u : Supply} (clock : Time)
  {s : CachedConnector (Traced σ)} {rs rest : List Resource} {hits : List (Resource × CacheEntry)}

/-- The stock of a cached connector together with resources outside. -/
def stock (rs : List Resource) (hits : List (Resource × CacheEntry))
    (s : CachedConnector (Traced σ)) : Stock :=
  ⟨rs, hits, s.cache, s.drawn, s.inner.log⟩

/-! ### What the cache gives up -/

theorem evict_moves (h : (s.stock rs hits).Kept u) :
    (s.stock rs hits).Moves u ((s.evict C.traced clock).stock rs hits) := by
  have hs := s.cache.evict_sheds clock
  unfold evict
  dsimp only
  split
  next he =>
    rw [List.isEmpty_iff.1 he] at hs
    exact h.shed_nil hs
  next => exact h.shed hs

theorem stop_moves (h : (s.stock rs hits).Kept u) :
    (s.stock rs hits).Moves u ((s.stop C.traced clock).stock rs hits) := by
  have hs := s.cache.drain_sheds
  unfold stop
  dsimp only
  split
  next he =>
    rw [List.isEmpty_iff.1 he] at hs
    exact h.shed_nil hs
  next => exact h.shed hs

theorem unregister_moves (h : (s.stock rs hits).Kept u) :
    (s.stock rs hits).Moves u ((s.unregister C.traced clock).2.stock rs hits) :=
  stop_moves clock h

/-! ### Serving from the cache -/

theorem traced_reassign (m : ManagerId) (id : ResourceId) (t : Traced σ) :
    (C.traced.reassign m id t).1 = .ok true ∧
        (C.traced.reassign m id t).2.log = t.log ++ [.renamed m id] ∨
      (C.traced.reassign m id t).1 ≠ .ok true ∧ (C.traced.reassign m id t).2.log = t.log := by
  unfold Connector.traced
  dsimp only
  split
  next h => exact .inl ⟨h, rfl⟩
  next h => exact .inr ⟨h, rfl⟩

/-- An entry is claimed, or it is given back. -/
theorem claim_stock (r : Resource) (e : CacheEntry) (s : CachedConnector (Traced σ)) :
    let c := s.claim C.traced clock r e
    c.1 = true ∧ (∀ rs hits, c.2.stock rs hits = { s.stock rs hits with
        log := s.inner.log ++ [.renamed e.allocation.managerId r.id] }) ∨
      c.1 = false ∧ ∀ rs hits, c.2.stock rs hits = { s.stock rs hits with
        log := s.inner.log ++ [.released [e.toReleased]] } := by
  have ht := traced_reassign (C := C) e.allocation.managerId r.id s.inner
  unfold claim
  dsimp only
  generalize C.traced.reassign e.allocation.managerId r.id s.inner = a at ht ⊢
  obtain ⟨answer, t⟩ := a
  dsimp only at ht ⊢
  rcases ht with ⟨rfl, hl⟩ | ⟨ha, hl⟩
  · left
    exact ⟨rfl, fun _ _ => by simp [stock, hl]⟩
  · right
    split
    next => exact absurd rfl ha
    next => exact ⟨rfl, fun _ _ => by simp [stock, giveBack, Connector.traced, hl]⟩

theorem gatherOne_moves (h : (s.stock rs hits).Kept u) {r : Resource} (hr : r ∈ rs)
    (hn : r.allocation = none) (hnew : ∀ q ∈ hits, q.1.id ≠ r.id) :
    (s.stock rs hits).Moves u ((s.gatherOne C.traced clock r).2.stock rs
        (hits ++ (s.gatherOne C.traced clock r).1.hits)) ∧
      ((s.gatherOne C.traced clock r).1.hits.map Prod.fst).Sublist [r] := by
  have hs := s.cache.take_sheds r.ask
  unfold gatherOne
  dsimp only
  split
  next ht =>
    rw [ht] at hs
    rw [List.append_nil]
    exact ⟨h.shed_nil hs, List.nil_sublist _⟩
  next kind e ht =>
    rw [ht] at hs
    rcases claim_stock (C := C) clock r e { s with cache := (s.cache.take r.ask).2 }
      with ⟨hc, hst⟩ | ⟨hc, hst⟩
    · rw [if_pos hc, hst]
      exact ⟨h.hit hr hn hnew hs, List.Sublist.refl _⟩
    · rw [if_neg (by simp [hc]), List.append_nil, hst]
      exact ⟨h.shed hs, List.nil_sublist _⟩

theorem gather_moves (h : (s.stock rs hits).Kept u) {asked : List Resource}
    (hr : ∀ r ∈ asked, r ∈ rs ∧ r.allocation = none ∧ ∀ q ∈ hits, q.1.id ≠ r.id)
    (hnd : (asked.map Resource.id).Nodup) :
    (s.stock rs hits).Moves u ((s.gather C.traced clock asked).2.stock rs
        (hits ++ (s.gather C.traced clock asked).1.hits)) ∧
      ((s.gather C.traced clock asked).1.hits.map Prod.fst).Sublist asked := by
  induction asked generalizing s hits with
  | nil =>
    unfold gather
    rw [List.append_nil]
    exact ⟨h.refl, List.nil_sublist _⟩
  | cons r asked ih =>
    obtain ⟨hmem, hn, hnew⟩ := hr r (List.mem_cons_self ..)
    rw [List.map_cons, List.nodup_cons] at hnd
    obtain ⟨hm, hsub⟩ := gatherOne_moves (C := C) clock h hmem hn hnew
    have hrest : ∀ x ∈ asked, x ∈ rs ∧ x.allocation = none ∧
        ∀ q ∈ hits ++ (s.gatherOne C.traced clock r).1.hits, q.1.id ≠ x.id := by
      intro x hx
      obtain ⟨hxm, hxn, hxnew⟩ := hr x (List.mem_cons_of_mem _ hx)
      refine ⟨hxm, hxn, fun q hq => ?_⟩
      rcases List.mem_append.1 hq with hq | hq
      · exact hxnew q hq
      · intro he
        have hqr : q.1 = r := List.mem_singleton.1 (hsub.subset (List.mem_map_of_mem hq))
        rw [hqr] at he
        exact hnd.1 (he ▸ List.mem_map_of_mem hx)
    obtain ⟨hm', hsub'⟩ := ih hm.kept hrest hnd.2
    unfold gather
    dsimp only
    rw [← List.append_assoc, List.map_append]
    exact ⟨hm.trans hm', hsub.append hsub'⟩

/-! ### Keeping and giving back -/

theorem keep_moves (h : (s.stock rs hits).Kept u)
    {r : Resource} (hp : rs.Perm (r :: rest)) :
    let c := s.keep C.traced u.mint clock r
    c.1 = true ∧ (s.stock rs hits).Moves u (c.2.stock rest hits) ∨
      c.1 = false ∧ (s.stock rs hits).Moves u (c.2.stock rs hits) := by
  unfold keep
  split
  next => exact .inr ⟨rfl, h.refl⟩
  next a ha =>
    have ht := traced_reassign (C := C) a.managerId (u.mint s.drawn) s.inner
    dsimp only
    generalize C.traced.reassign a.managerId (u.mint s.drawn) s.inner = b at ht ⊢
    obtain ⟨answer, t⟩ := b
    dsimp only at ht ⊢
    rcases ht with ⟨rfl, hl⟩ | ⟨hne, hl⟩
    · obtain ⟨hok, he⟩ := Cache.store_entries clock (u.mint s.drawn) s.cache ha
      have hm := h.keep hp ha he
      refine .inl ⟨hok, ?_⟩
      unfold stock at hm ⊢
      rw [hl]
      exact hm
    · have hm := h.draw
      split
      next => exact absurd rfl hne
      next =>
        refine .inr ⟨rfl, ?_⟩
        unfold stock at hm ⊢
        rw [hl]
        exact hm

theorem keepAll_moves (h : (s.stock rs hits).Kept u)
    {gone : List Resource} (hp : rs.Perm (gone ++ rest)) :
    (s.stock rs hits).Moves u ((s.keepAll C.traced u.mint clock gone).2.stock
      ((s.keepAll C.traced u.mint clock gone).1 ++ rest) hits) := by
  induction gone generalizing s rs rest with
  | nil => exact h.perm hp
  | cons r gone ih =>
    unfold keepAll
    dsimp only
    rcases keep_moves (C := C) clock h hp with ⟨hk, hm⟩ | ⟨hk, hm⟩
    · rw [if_pos hk]
      exact hm.trans (ih hm.kept (.refl _))
    · rw [if_neg (by simp [hk])]
      have hm' := ih hm.kept (hp.trans List.perm_middle.symm)
      exact (hm.trans hm').trans (hm'.kept.perm List.perm_middle)

theorem release_moves (h : (s.stock rs hits).Kept u)
    {gone : List Resource} (hp : rs.Perm (gone ++ rest)) (noCache : Bool) :
    (s.stock rs hits).Moves u
      ((s.release C.traced u.mint clock gone noCache).2.stock rest hits) := by
  unfold release
  split
  next => exact h.release (hp.trans List.perm_append_comm)
  next =>
    have hm := keepAll_moves (C := C) clock h hp
    dsimp only
    split
    next he =>
      rw [List.isEmpty_iff.1 he] at hm
      exact hm
    next => exact hm.trans (hm.kept.release List.perm_append_comm)

/-! ### Submitting -/

/-- What the manager reports while resources are submitted. -/
def heard (C : Connector σ) (clock : Time) (rs : List Resource) (s : CachedConnector σ) :
    List (Delivery (CachedConnector σ)) :=
  let g := s.gather C clock rs
  if s.registered && !g.1.misses.isEmpty then
    (C.reserve clock g.1.misses g.2.inner).2.1.map lift
  else []

/-- The hits of a submission. -/
def served (C : Connector σ) (clock : Time) (rs : List Resource) (s : CachedConnector σ) :
    List (Resource × CacheEntry) :=
  if s.registered then (s.gather C clock rs).1.hits else []

variable {asked : List Resource}

theorem served_moves (h : (s.stock rs []).Kept u) (hids : (rs.map Resource.id).Nodup)
    (hp : rs.Perm (rest ++ asked)) (hn : ∀ x ∈ asked, x.allocation = none) :
    (s.stock rs []).Moves u ((s.gather C.traced clock asked).2.stock rs
        (s.gather C.traced clock asked).1.hits) ∧
      ((s.gather C.traced clock asked).1.hits.map Prod.fst).Sublist asked := by
  have hnd := (hp.map Resource.id).nodup_iff.1 hids
  rw [List.map_append] at hnd
  refine gather_moves clock h (fun r hr => ⟨?_, hn r hr, fun q hq => ?_⟩)
    (hnd.sublist (List.sublist_append_right ..))
  · exact hp.mem_iff.2 (List.mem_append_right _ hr)
  · simp at hq

/-- The manager reports nothing while a submission fails. -/
theorem heard_failed (hC : C.Silent) {f : ConnectorFault}
    (hf : (s.reserve C.traced clock asked).1 = .error f) : s.heard C.traced clock asked = [] := by
  unfold heard
  dsimp only
  split
  next hg =>
    obtain ⟨hr, hm⟩ := Bool.and_eq_true_iff.1 hg
    have he : ¬ (s.gather C.traced clock asked).1.misses.isEmpty = true := by simpa using hm
    unfold reserve at hf
    rw [if_pos hr] at hf
    dsimp only at hf
    rw [if_neg he] at hf
    split at hf
    next => simp at hf
    next g ha =>
      rw [Connector.traced_silent hC clock _ _ g ha]
      rfl
  next => rfl

theorem reserve_failed (h : (s.stock rs []).Kept u) (hids : (rs.map Resource.id).Nodup)
    (hp : rs.Perm (rest ++ asked)) (hn : ∀ x ∈ asked, x.allocation = none) {f : ConnectorFault}
    (hf : (s.reserve C.traced clock asked).1 = .error f) :
    (s.stock rs []).Moves u ((s.reserve C.traced clock asked).2.2.stock rest []) := by
  obtain ⟨hm, hsub⟩ := served_moves (C := C) clock h hids hp hn
  have hitids : ((s.gather C.traced clock asked).1.hits.map fun q => q.1.id).Nodup := by
    have hnd := (hp.map Resource.id).nodup_iff.1 hids
    rw [List.map_append] at hnd
    have hs := (hsub.map Resource.id).trans (List.sublist_append_right (rest.map Resource.id) _)
    rw [List.map_map] at hs
    exact hnd.sublist hs
  unfold reserve at hf ⊢
  split
  next hr =>
    rw [if_pos hr] at hf
    dsimp only at hf ⊢
    split
    next he =>
      rw [if_pos he] at hf
      simp at hf
    next he =>
      rw [if_neg he] at hf
      split
      next ha =>
        rw [ha] at hf
        simp at hf
      next =>
        dsimp only
        split
        next hc =>
          have hnil : (s.gather C.traced clock asked).1.hits = [] := by simpa using hc
          rw [hnil] at hm
          exact hm.trans (hm.kept.leave rfl hp hn)
        next =>
          refine hm.trans (hm.kept.unclaim hp hn (fun q hq => ?_) hitids)
          exact hsub.subset (List.mem_map_of_mem hq)
  next => exact h.leave rfl hp hn

theorem reserve_done (h : (s.stock rs []).Kept u) (hids : (rs.map Resource.id).Nodup)
    (hp : rs.Perm (rest ++ asked)) (hn : ∀ x ∈ asked, x.allocation = none)
    (hf : (s.reserve C.traced clock asked).1 = .ok ()) :
    (s.reserve C.traced clock asked).2.1 =
        s.heard C.traced clock asked ++ hitDelivery (s.served C.traced clock asked) ∧
      (s.stock rs []).Moves u
        ((s.reserve C.traced clock asked).2.2.stock rs (s.served C.traced clock asked)) := by
  have hm := (served_moves (C := C) clock h hids hp hn).1
  unfold reserve at hf ⊢
  unfold heard served
  split
  next hr =>
    rw [if_pos hr] at hf
    dsimp only at hf ⊢
    rw [hr, Bool.true_and]
    split
    next he =>
      rw [he]
      exact ⟨rfl, hm⟩
    next he =>
      rw [if_neg he] at hf
      have hb : (!(s.gather C.traced clock asked).1.misses.isEmpty) = true := by simpa using he
      rw [if_pos hb]
      split
      next => exact ⟨rfl, hm⟩
      next ha =>
        rw [ha] at hf
        simp at hf
  next hr =>
    rw [if_neg hr] at hf
    simp at hf

end ClusterBroker.CachedConnector
