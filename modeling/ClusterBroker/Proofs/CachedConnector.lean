import ClusterBroker.Proofs.Broker.Keeping

/-!
# What the calls of a cached connector do to its cache

Whatever the connector below answers, a call takes entries out of the cache, drops entries that a
batch speaks of, draws ids, and stores a resource under the id drawn last. What these keep is kept
by every call.
-/
namespace ClusterBroker

/-- A property of a cache and the number of ids drawn for it, kept by whatever the calls of a cached
connector do. -/
structure Cache.Steady (mint : Nat → ResourceId) (J : Cache → Nat → Prop) : Prop where
  take : ∀ {c n} a, J c n → J (c.take a).2 n
  invalidate : ∀ {c n} id, J c n → J (c.invalidate id).2 n
  draw : ∀ {c n}, J c n → J c (n + 1)
  store : ∀ {c n} clock r, J c n → J (c.store clock (mint n) r).2 (n + 1)

theorem Cache.Steady.invalidateAll {mint : Nat → ResourceId} {J : Cache → Nat → Prop}
    (hJ : Steady mint J) {c : Cache} {n : Nat} (h : J c n) (ids : List ResourceId) :
    J (c.invalidateAll ids) n := by
  induction ids generalizing c with
  | nil => exact h
  | cons id ids ih => exact ih (hJ.invalidate id h)

namespace CachedConnector

variable {σ : Type} {C : Connector σ} {mint : Nat → ResourceId} {J : Cache → Nat → Prop}
  (hJ : Cache.Steady mint J) (clock : Time) {s : CachedConnector σ}
include hJ

omit hJ in
theorem claim_cache (r : Resource) (e : CacheEntry) (s : CachedConnector σ) :
    (s.claim C clock r e).2.cache = s.cache ∧ (s.claim C clock r e).2.drawn = s.drawn := by
  unfold claim
  dsimp only
  split
  · exact ⟨rfl, rfl⟩
  · exact ⟨rfl, rfl⟩

theorem gatherOne_steady (h : J s.cache s.drawn) (r : Resource) :
    J (s.gatherOne C clock r).2.cache (s.gatherOne C clock r).2.drawn := by
  have ht := hJ.take r.ask h
  unfold gatherOne
  dsimp only
  split
  next => exact ht
  next kind e _ =>
    obtain ⟨hc, hd⟩ := claim_cache (C := C) clock r e { s with cache := (s.cache.take r.ask).2 }
    rw [hc, hd]
    exact ht

theorem gather_steady (h : J s.cache s.drawn) (rs : List Resource) :
    J (s.gather C clock rs).2.cache (s.gather C clock rs).2.drawn := by
  induction rs generalizing s with
  | nil => exact h
  | cons r rs ih => exact ih (gatherOne_steady hJ clock h r)

theorem reserve_steady (h : J s.cache s.drawn) (rs : List Resource) :
    J (s.reserve C clock rs).2.2.cache (s.reserve C clock rs).2.2.drawn := by
  have hg := gather_steady (C := C) hJ clock h rs
  unfold reserve
  split
  · dsimp only
    split
    · exact hg
    · split
      · exact hg
      · dsimp only
        split
        · exact hg
        · exact hg
  · exact h

theorem keep_steady (h : J s.cache s.drawn) (r : Resource) :
    J (s.keep C mint clock r).2.cache (s.keep C mint clock r).2.drawn := by
  unfold keep
  split
  · exact h
  · dsimp only
    split
    · exact hJ.store clock r h
    · exact hJ.draw h

theorem keepAll_steady (h : J s.cache s.drawn) (rs : List Resource) :
    J (s.keepAll C mint clock rs).2.cache (s.keepAll C mint clock rs).2.drawn := by
  induction rs generalizing s with
  | nil => exact h
  | cons r rs ih => exact ih (keep_steady hJ clock h r)

theorem release_steady (h : J s.cache s.drawn) (rs : List Resource) (noCache : Bool) :
    J (s.release C mint clock rs noCache).2.cache (s.release C mint clock rs noCache).2.drawn := by
  have hk := keepAll_steady (C := C) hJ clock h rs
  unfold release
  split
  · exact h
  · dsimp only
    split
    · exact hk
    · exact hk

theorem incoming_steady (h : J s.cache s.drawn) (cs : List Change) :
    J (s.incoming C cs).cache (s.incoming C cs).drawn := hJ.invalidateAll h _

/-- A batch is lifted from the connector below, or it is the report of the hits. -/
theorem passing_steady {rs : List Resource} {x : Delivery (CachedConnector σ)}
    (hx : x ∈ (s.reserve C clock rs).2.1) {s' : CachedConnector σ} (h : J s'.cache s'.drawn) :
    J (x.passing s').cache (x.passing s').drawn := by
  have hlift : ∀ {xs : List (Delivery σ)}, x ∈ xs.map lift →
      J (x.passing s').cache (x.passing s').drawn := by
    intro xs hx
    obtain ⟨d, -, rfl⟩ := List.mem_map.1 hx
    exact hJ.invalidateAll h _
  have hhit : ∀ {hits}, x ∈ hitDelivery hits → J (x.passing s').cache (x.passing s').drawn := by
    intro hits hx
    unfold hitDelivery at hx
    split at hx
    · simp at hx
    · rw [List.mem_singleton.1 hx]
      exact h
  unfold reserve at hx
  split at hx
  · dsimp only at hx
    split at hx
    · exact hhit hx
    · split at hx
      · rcases List.mem_append.1 hx with hx | hx
        · exact hlift hx
        · exact hhit hx
      · exact hlift hx
  · simp at hx

omit hJ in
theorem register_cache (q : QueueName) (s : CachedConnector σ) :
    (s.register C q).2.cache = s.cache ∧ (s.register C q).2.drawn = s.drawn := by
  unfold register
  dsimp only
  split
  · exact ⟨rfl, rfl⟩
  · exact ⟨rfl, rfl⟩

end CachedConnector

namespace Tier

variable {σ : Type} {C : Connector σ} {mint : Nat → ResourceId} {J : Cache → Nat → Prop}

/-- There is a cache, and it has the property. -/
def Has (J : Cache → Nat → Prop) (t : Tier σ) : Prop := ∃ s, t = .cached s ∧ J s.cache s.drawn

theorem connector_keeps (hJ : Cache.Steady mint J) :
    (Tier.connector C mint).Keeps (Has J) := by
  constructor
  · rintro _ q ⟨s, rfl, h⟩
    obtain ⟨hc, hd⟩ := CachedConnector.register_cache (C := C) q s
    exact ⟨_, rfl, by rwa [hc, hd]⟩
  · rintro _ ⟨s, rfl, h⟩
    exact ⟨_, rfl, h⟩
  · rintro _ t rs ⟨s, rfl, h⟩
    exact ⟨_, rfl, CachedConnector.reserve_steady hJ t h rs⟩
  · rintro s t rs x hx _ ⟨s', rfl, h⟩
    cases s with
    | plain s =>
      obtain ⟨y, -, rfl⟩ := List.mem_map.1 hx
      exact ⟨_, rfl, h⟩
    | cached s =>
      obtain ⟨y, hy, rfl⟩ := List.mem_map.1 hx
      exact ⟨_, rfl, CachedConnector.passing_steady hJ t hy h⟩
  · rintro _ t rs n ⟨s, rfl, h⟩
    exact ⟨_, rfl, CachedConnector.release_steady hJ t h rs n⟩
  · rintro _ cs ⟨s, rfl, h⟩
    exact ⟨_, rfl, CachedConnector.incoming_steady hJ h cs⟩

/-- If there is a cache, it has the property. -/
def Every (J : Cache → Nat → Prop) (t : Tier σ) : Prop := ∀ s, t = .cached s → J s.cache s.drawn

theorem Every.plain (J : Cache → Nat → Prop) (s : σ) : (Tier.plain s).Every J := nofun

theorem Has.every {t : Tier σ} (h : t.Has J) : t.Every J := by
  obtain ⟨s, rfl, hs⟩ := h
  intro s' he
  obtain rfl := Tier.cached.inj he
  exact hs

theorem Every.has {s : CachedConnector σ} (h : (Tier.cached s).Every J) : (Tier.cached s).Has J :=
  ⟨s, rfl, h s rfl⟩

theorem connector_keeps_every (hJ : Cache.Steady mint J) :
    (Tier.connector C mint).Keeps (Every J) := by
  have hK := connector_keeps (C := C) hJ
  constructor
  · rintro (s | s) q h
    · exact .plain J _
    · exact (hK.register q h.has).every
  · rintro (s | s) h
    · exact .plain J _
    · exact (hK.nodes h.has).every
  · rintro (s | s) t rs h
    · exact .plain J _
    · exact (hK.reserve t rs h.has).every
  · intro s t rs x hx s' h
    cases s' with
    | plain s' =>
      cases s with
      | plain s =>
        obtain ⟨y, -, rfl⟩ := List.mem_map.1 hx
        exact .plain J _
      | cached s =>
        obtain ⟨y, -, rfl⟩ := List.mem_map.1 hx
        exact .plain J _
    | cached s' => exact (hK.passing s t rs x hx h.has).every
  · rintro (s | s) t rs n h
    · exact .plain J _
    · exact (hK.release t rs n h.has).every
  · rintro (s | s) cs h
    · exact .plain J _
    · exact (hK.incoming cs h.has).every

end Tier

end ClusterBroker
