import ClusterBroker.Cache.Tier
import ClusterBroker.ScriptedManager

/-!
# What connectors report while a submission fails

Reports are about resources that were submitted before. So while a submission fails nothing should
be reported about the resources that were to be submitted. A connector that reports nothing at all
then stays so behind a cache, since the cache reports its hits only when everything went well.

A cache reports allocations and nothing else, so a connector that reports nothing else stays so
behind it.
-/
namespace ClusterBroker

variable {σ : Type}

/-- While a submission fails, nothing is reported about the resources that were to be submitted. -/
def Connector.Discreet (C : Connector σ) : Prop :=
  ∀ t rs s f, (C.reserve t rs s).1 = .error f →
    ∀ x ∈ (C.reserve t rs s).2.1, ∀ c ∈ x.changes, c.resource ∉ rs.map Resource.id

/-- While a submission fails, nothing is reported. -/
def Connector.Silent (C : Connector σ) : Prop :=
  ∀ t rs s f, (C.reserve t rs s).1 = .error f → (C.reserve t rs s).2.1 = []

theorem Connector.Silent.discreet {C : Connector σ} (h : C.Silent) : C.Discreet := by
  intro t rs s f hf x hx
  rw [h t rs s f hf] at hx
  simp at hx

theorem ScriptedManager.connector_silent : ScriptedManager.connector.Silent := by
  intro t rs m f hf
  change (m.reserve rs).1 = .error f at hf
  change (m.reserve rs).2.1 = []
  unfold ScriptedManager.reserve at hf ⊢
  split
  next => rfl
  next h =>
    rw [h] at hf
    split
    next => rfl
    next h' => simp [h'] at hf

theorem CachedConnector.reserve_silent {C : Connector σ} (h : C.Silent) (t : Time)
    (rs : List Resource) (s : CachedConnector σ) {f : ConnectorFault}
    (hf : (s.reserve C t rs).1 = .error f) : (s.reserve C t rs).2.1 = [] := by
  unfold CachedConnector.reserve at hf ⊢
  split
  next hr =>
    rw [if_pos hr] at hf
    dsimp only at hf ⊢
    split
    next hm =>
      rw [if_pos hm] at hf
      simp at hf
    next hm =>
      rw [if_neg hm] at hf
      split
      next ha =>
        rw [ha] at hf
        simp at hf
      next g ha =>
        rw [h t _ _ g ha]
        rfl
  next => rfl

theorem Tier.connector_silent {C : Connector σ} (h : C.Silent) (mint : Nat → ResourceId) :
    (Tier.connector C mint).Silent := by
  intro t rs s f hf
  cases s with
  | plain s =>
    have hs := h t rs s f hf
    change ((C.reserve t rs s).2.1.map Tier.liftPlain) = []
    rw [hs, List.map_nil]
  | cached c =>
    have hc := CachedConnector.reserve_silent h t rs c hf
    change ((c.reserve C t rs).2.1.map Tier.liftCached) = []
    rw [hc, List.map_nil]

/-! ### Nothing but allocations -/

/-- While resources are submitted, nothing but allocations is reported. -/
def Connector.Granting (C : Connector σ) : Prop :=
  ∀ t rs s, ∀ x ∈ (C.reserve t rs s).2.1, ∀ c ∈ x.changes, c.status = .allocated

/-- The connector without what it reports while resources are submitted: it answers, and no more. -/
def Connector.muted (C : Connector σ) : Connector σ :=
  { C with reserve := fun t rs s => ((C.reserve t rs s).1, [], (C.reserve t rs s).2.2) }

theorem Connector.muted_granting (C : Connector σ) : C.muted.Granting := nofun

theorem CachedConnector.hitDelivery_granting {hits : List (Resource × CacheEntry)}
    {x : Delivery (CachedConnector σ)} (hx : x ∈ hitDelivery hits) :
    ∀ c ∈ x.changes, c.status = .allocated := by
  unfold hitDelivery at hx
  split at hx
  next => simp at hx
  next =>
    rw [List.mem_singleton.1 hx]
    intro c hc
    obtain ⟨h, -, rfl⟩ := List.mem_map.1 hc
    rfl

theorem CachedConnector.reserve_granting {C : Connector σ} (h : C.Granting) (t : Time)
    (rs : List Resource) (s : CachedConnector σ) {x : Delivery (CachedConnector σ)}
    (hx : x ∈ (s.reserve C t rs).2.1) : ∀ c ∈ x.changes, c.status = .allocated := by
  have hlift : ∀ {rs : List Resource} {s : σ}, x ∈ (C.reserve t rs s).2.1.map lift →
      ∀ c ∈ x.changes, c.status = .allocated := by
    intro rs s hx
    obtain ⟨d, hd, rfl⟩ := List.mem_map.1 hx
    exact h t rs s d hd
  unfold reserve at hx
  split at hx
  next =>
    dsimp only at hx
    split at hx
    next => exact hitDelivery_granting hx
    next =>
      split at hx
      next =>
        rcases List.mem_append.1 hx with hx | hx
        · exact hlift hx
        · exact hitDelivery_granting hx
      next => exact hlift hx
  next => simp at hx

theorem Tier.connector_granting {C : Connector σ} (h : C.Granting) (mint : Nat → ResourceId) :
    (Tier.connector C mint).Granting := by
  intro t rs s x hx
  cases s with
  | plain s =>
    obtain ⟨d, hd, rfl⟩ := List.mem_map.1 hx
    exact h t rs s d hd
  | cached c =>
    obtain ⟨d, hd, rfl⟩ := List.mem_map.1 hx
    exact CachedConnector.reserve_granting h t rs c hd

end ClusterBroker
