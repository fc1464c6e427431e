import ClusterBroker.Proofs.Custody.Operation
import ClusterBroker.Proofs.Ledger.Holders

/-!
# What a cached connector does not have

What the manager calls `m` is barred from a cached connector if no entry of the cache is that, and
if the manager does not agree to new names for it. It stays barred as long as nobody offers it to
the cache: the cache hands out what it has, and keeps what it is given.
-/
namespace ClusterBroker

/-- The manager agreed to a new name for what it calls `m`. -/
def Traffic.renames (m : ManagerId) : Traffic → Bool
  | .renamed k _ => k = m
  | _ => false

/-- How often the manager agreed to a new name for what it calls `m`. -/
def renamings (m : ManagerId) (log : List Traffic) : Nat := log.countP (Traffic.renames m)

theorem renamings_concat {m : ManagerId} {log : List Traffic} {t : Traffic}
    (h : t.renames m = false) : renamings m (log ++ [t]) = renamings m log := by
  unfold renamings
  rw [List.countP_append, List.countP_singleton, h]
  rfl

theorem renamings_reported (m : ManagerId) (log : List Traffic) (cs : List Change) :
    renamings m (log ++ cs.map .reported) = renamings m log := by
  unfold renamings
  have hzero : cs.countP (Traffic.renames m ∘ Traffic.reported) = 0 :=
    List.countP_eq_zero.2 fun c _ => by simp [Traffic.renames]
  rw [List.countP_append, List.countP_map, hzero, Nat.add_zero]

/-! ### The cache -/

namespace Cache

variable {m : ManagerId} {c c' : Cache}

/-- No entry is what the manager calls `m`. -/
def Lacks (m : ManagerId) (c : Cache) : Prop :=
  ∀ e ∈ c.entries.values, e.allocation.managerId ≠ m

theorem Lacks.shed (h : c.Lacks m) {es : List CacheEntry} (hs : c.Sheds es c') : c'.Lacks m :=
  fun e he => h e (hs.perm.mem_iff.2 (List.mem_append_right _ he))

theorem Lacks.mem (h : c.Lacks m) {es : List CacheEntry} (hs : c.Sheds es c') :
    ∀ e ∈ es, e.allocation.managerId ≠ m :=
  fun e he => h e (hs.perm.mem_iff.2 (List.mem_append_left _ he))

theorem Lacks.invalidateAll (h : c.Lacks m) (ids : List ResourceId) :
    (c.invalidateAll ids).Lacks m := by
  induction ids generalizing c with
  | nil => exact h
  | cons id ids ih => exact ih (h.shed (invalidate_sheds id c))

theorem Lacks.store (h : c.Lacks m) (now : Time) (id : ResourceId) {r : Resource} {a : Allocation}
    (hr : r.allocation = some a) (ha : a.managerId ≠ m) : (c.store now id r).2.Lacks m := by
  obtain ⟨-, hent⟩ := store_entries now id c hr
  intro e he
  rw [hent] at he
  obtain ⟨k, hk⟩ := Table.mem_values.1 he
  rw [Table.get?_insert] at hk
  split at hk
  next =>
    rw [← Option.some.inj hk]
    exact ha
  next => exact h e (Table.mem_values.2 ⟨k, hk⟩)

/-- Only the entry of `k` may be what the manager calls `m`. -/
def Solely (m : ManagerId) (k : ResourceId) (c : Cache) : Prop :=
  ∀ id e, c.entries.get? id = some e → e.allocation.managerId = m → id = k

theorem Solely.shed {k : ResourceId} (h : c.Solely m k) {es : List CacheEntry}
    (hs : c.Sheds es c') : c'.Solely m k := fun id e he => h id e (hs.sub id e he)

theorem Solely.lacks {k : ResourceId} (h : c.Solely m k) (hk : c.entries.get? k = none) :
    c.Lacks m := by
  intro e he hm
  obtain ⟨id, hid⟩ := Table.mem_values.1 he
  rw [h id e hid hm, hk] at hid
  simp at hid

/-- What is reported about is dropped. -/
theorem Solely.invalidateAll {k : ResourceId} (h : c.Solely m k) {ids : List ResourceId}
    (hk : k ∈ ids) : (c.invalidateAll ids).Lacks m := by
  induction ids generalizing c with
  | nil => simp at hk
  | cons id ids ih =>
    have hrest : (c.invalidate id).2.Solely m k := h.shed (invalidate_sheds id c)
    rcases List.mem_cons.1 hk with rfl | hk
    · exact (hrest.lacks (get?_invalidate k c)).invalidateAll ids
    · exact ih hrest hk

end Cache

/-! ### The cached connector -/

namespace CachedConnector

variable {σ : Type} {C : Connector σ} {mint : Nat → ResourceId} (clock : Time) {m : ManagerId}
  {n : Nat} {c c' : CachedConnector (Traced σ)}

/-- What the manager calls `m` is not in the cache, and so far was renamed `n` times. -/
structure Barred (m : ManagerId) (n : Nat) (c : CachedConnector (Traced σ)) : Prop where
  lacks : c.cache.Lacks m
  count_eq : renamings m c.inner.log = n

theorem Barred.congr (h : c.Barred m n) (hc : c'.cache = c.cache)
    (hl : c'.inner.log = c.inner.log) : c'.Barred m n := by
  constructor
  · rw [hc]
    exact h.lacks
  · rw [hl]
    exact h.count_eq

theorem Barred.log (h : c.Barred m n) {t : Traffic} (ht : t.renames m = false)
    (hc : c'.cache = c.cache) (hl : c'.inner.log = c.inner.log ++ [t]) : c'.Barred m n := by
  constructor
  · rw [hc]
    exact h.lacks
  · rw [hl, renamings_concat ht]
    exact h.count_eq

/-! #### What the cache gives up -/

theorem giveBack_barred (h : c.Barred m n) (es : List CacheEntry) :
    (c.giveBack C.traced clock es).Barred m n :=
  h.log (t := .released (es.map CacheEntry.toReleased)) rfl rfl rfl

theorem evict_barred (h : c.Barred m n) : (c.evict C.traced clock).Barred m n := by
  have hshed :
      ({ c with cache := (c.cache.evict clock).2 } : CachedConnector (Traced σ)).Barred m n :=
    ⟨h.lacks.shed (c.cache.evict_sheds clock), h.count_eq⟩
  unfold evict
  dsimp only
  split
  next => exact hshed
  next => exact giveBack_barred clock hshed _

theorem stop_barred (h : c.Barred m n) : (c.stop C.traced clock).Barred m n := by
  have hshed : ({ c with cache := c.cache.drain.2 } : CachedConnector (Traced σ)).Barred m n :=
    ⟨h.lacks.shed c.cache.drain_sheds, h.count_eq⟩
  unfold stop
  dsimp only
  split
  next => exact hshed
  next => exact giveBack_barred clock hshed _

theorem unregister_barred (h : c.Barred m n) : (c.unregister C.traced clock).2.Barred m n :=
  (stop_barred clock h).congr rfl rfl

theorem register_barred (h : c.Barred m n) (q : QueueName) :
    (c.register C.traced q).2.Barred m n := by
  unfold register
  dsimp only
  split
  next => exact h.congr rfl rfl
  next => exact h.congr rfl rfl

/-! #### Serving from the cache -/

theorem claim_barred (h : c.Barred m n) (r : Resource) {e : CacheEntry}
    (he : e.allocation.managerId ≠ m) : (c.claim C.traced clock r e).2.Barred m n := by
  rcases claim_stock (C := C) clock r e c with ⟨-, hst⟩ | ⟨-, hst⟩
  · exact h.log (t := .renamed e.allocation.managerId r.id) (decide_eq_false he)
      (congrArg Stock.cache (hst [] [])) (congrArg Stock.log (hst [] []))
  · exact h.log (t := .released [e.toReleased]) rfl
      (congrArg Stock.cache (hst [] [])) (congrArg Stock.log (hst [] []))

theorem gatherOne_barred (h : c.Barred m n) (r : Resource) :
    (c.gatherOne C.traced clock r).2.Barred m n ∧
      ∀ q ∈ (c.gatherOne C.traced clock r).1.hits, q.2.allocation.managerId ≠ m := by
  have hs := c.cache.take_sheds r.ask
  have hshed :
      ({ c with cache := (c.cache.take r.ask).2 } : CachedConnector (Traced σ)).Barred m n :=
    ⟨h.lacks.shed hs, h.count_eq⟩
  unfold gatherOne
  dsimp only
  split
  next => exact ⟨hshed, List.forall_mem_nil _⟩
  next kind e ht =>
    have he : e.allocation.managerId ≠ m := by
      apply h.lacks.mem hs
      rw [ht]
      exact List.mem_singleton_self e
    refine ⟨claim_barred clock hshed r he, fun q hq => ?_⟩
    split at hq
    next =>
      rw [List.mem_singleton.1 hq]
      exact he
    next => simp at hq

theorem gather_barred (h : c.Barred m n) (rs : List Resource) :
    (c.gather C.traced clock rs).2.Barred m n ∧
      ∀ q ∈ (c.gather C.traced clock rs).1.hits, q.2.allocation.managerId ≠ m := by
  induction rs generalizing c with
  | nil => exact ⟨h, List.forall_mem_nil _⟩
  | cons r rs ih =>
    obtain ⟨h₁, hq₁⟩ := gatherOne_barred (C := C) clock h r
    obtain ⟨h₂, hq₂⟩ := ih h₁
    refine ⟨h₂, fun q hq => ?_⟩
    rcases List.mem_append.1 hq with hq | hq
    · exact hq₁ q hq
    · exact hq₂ q hq

/-- What is reported are the reports of the manager, and hits. -/
theorem reserve_barred (h : c.Barred m n) (rs : List Resource) :
    (c.reserve C.traced clock rs).2.2.Barred m n ∧
      ∃ hits, (∀ q ∈ hits, q.2.allocation.managerId ≠ m) ∧
        (c.reserve C.traced clock rs).2.1 = c.heard C.traced clock rs ++ hitDelivery hits := by
  obtain ⟨hg, hhits⟩ := gather_barred (C := C) clock h rs
  unfold reserve heard
  dsimp only
  cases hr : c.registered with
  | false => exact ⟨h, [], List.forall_mem_nil _, rfl⟩
  | true =>
    rw [if_pos rfl, Bool.true_and]
    cases hm : (c.gather C.traced clock rs).1.misses.isEmpty with
    | true => exact ⟨hg, _, hhits, rfl⟩
    | false =>
      rw [if_neg (by simp), Bool.not_false, if_pos rfl]
      have hsub : ({ (c.gather C.traced clock rs).2 with
          inner := (C.traced.reserve clock (c.gather C.traced clock rs).1.misses
            (c.gather C.traced clock rs).2.inner).2.2 } : CachedConnector (Traced σ)).Barred m n :=
        hg.congr rfl rfl
      split
      next => exact ⟨hsub, _, hhits, rfl⟩
      next =>
        refine ⟨?_, [], List.forall_mem_nil _, (List.append_nil _).symm⟩
        dsimp only
        split
        next => exact hsub
        next =>
          exact hsub.log (t := .released _) rfl rfl rfl

/-! #### Keeping and giving back -/

theorem keep_barred (h : c.Barred m n) {r : Resource} (hr : r.holds m = false) :
    (c.keep C.traced mint clock r).2.Barred m n := by
  unfold keep
  split
  next => exact h
  next a ha =>
    have hne : a.managerId ≠ m := by
      unfold Resource.holds at hr
      rw [ha] at hr
      exact of_decide_eq_false hr
    have ht := traced_reassign (C := C) a.managerId (mint c.drawn) c.inner
    dsimp only
    generalize C.traced.reassign a.managerId (mint c.drawn) c.inner = b at ht ⊢
    obtain ⟨answer, t⟩ := b
    dsimp only at ht ⊢
    rcases ht with ⟨rfl, hl⟩ | ⟨hanswer, hl⟩
    · have hren : (Traffic.renamed a.managerId (mint c.drawn)).renames m = false :=
        decide_eq_false hne
      constructor
      · exact h.lacks.store clock _ ha hne
      · dsimp only
        rw [hl, renamings_concat hren]
        exact h.count_eq
    · split
      next => exact absurd rfl hanswer
      next => exact h.congr rfl hl

theorem keepAll_barred (h : c.Barred m n) {rs : List Resource}
    (hrs : ∀ r ∈ rs, r.holds m = false) : (c.keepAll C.traced mint clock rs).2.Barred m n := by
  induction rs generalizing c with
  | nil => exact h
  | cons r rs ih =>
    exact ih (keep_barred clock h (hrs r (List.mem_cons_self ..)))
      fun x hx => hrs x (List.mem_cons_of_mem _ hx)

theorem release_barred (h : c.Barred m n) {rs : List Resource} {noCache : Bool}
    (hrs : noCache = true ∨ ∀ r ∈ rs, r.holds m = false) :
    (c.release C.traced mint clock rs noCache).2.Barred m n := by
  unfold release
  split
  next => exact h.log (t := .released rs) rfl rfl rfl
  next hn =>
    have hk : (c.keepAll C.traced mint clock rs).2.Barred m n :=
      keepAll_barred clock h (hrs.resolve_left hn)
    dsimp only
    split
    next => exact hk
    next => exact hk.log (t := .released _) rfl rfl rfl

end CachedConnector

end ClusterBroker
