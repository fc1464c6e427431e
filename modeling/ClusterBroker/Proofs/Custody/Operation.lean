import ClusterBroker.Proofs.Custody.Desk

/-!
# Custody through a run of a desk

Between two operations the cache may be swept or emptied, and what lies below the log may change in
any way. Every operation is a move of the stock, and so is what happens after any moment of it.
-/
namespace ClusterBroker.Desk

variable {σ : Type} {C : Connector σ} {u : Supply} (clock : Time)
  {hits : List (Resource × CacheEntry)} {d : Desk (Tier (Traced σ))}

/-! ### Start, stop of the manager, upkeep -/

theorem start_shifts (h : Guards u hits d) :
    Shifts u hits hits d (d.start (Tier.connector C.traced u.mint)).2 := by
  refine h.connector (f := fun t =>
    ((Tier.connector C.traced u.mint).register d.registry.queue t).2) fun c hk => ⟨_, rfl, ?_⟩
  have hst : (c.register C.traced d.registry.queue).2.stock d.ledger.resources hits =
      c.stock d.ledger.resources hits := by
    unfold CachedConnector.register
    dsimp only
    split <;> rfl
  rw [hst]
  exact hk.refl

theorem nodes_shifts (h : Guards u hits d) :
    Shifts u hits hits d (d.nodes (Tier.connector C.traced u.mint)).2 :=
  h.connector (f := fun t => ((Tier.connector C.traced u.mint).nodes t).2)
    fun _ hk => ⟨_, rfl, hk.refl⟩

theorem onHaltedIn_shifts (h : Guards u hits d) (order : Ledger → List ResourceId) :
    Shifts u hits hits d (d.onHaltedIn order (Tier.connector C.traced u.mint) clock).1 := by
  obtain ⟨reg, conn⟩ := d
  obtain ⟨c, hc⟩ := h.cached
  change conn = Tier.cached c at hc
  subst hc
  have hlost : ∀ x ∈ (order reg.ledger).map Change.lost, x.status ≠ .allocated := by
    intro x hx
    obtain ⟨id, -, rfl⟩ := List.mem_map.1 hx
    simp [Change.status]
  obtain ⟨gone, hp⟩ :=
    Ledger.Batch.foldl_resources clock hlost (b := { ledger := reg.ledger }) h.sound
  -- what torn-down reservations held is not given back
  unfold Ledger.Batch.resources at hp
  rw [List.append_nil, List.append_assoc] at hp
  exact ⟨⟨_, rfl⟩, (Ledger.midway_succeeds h.sound clock _).sound,
    h.kept.halt hp c.cache.drain_sheds⟩

/-- What may happen to a connector by itself. -/
inductive Upkeep (C : Connector σ) (clock : Time) : (Tier (Traced σ) → Tier (Traced σ)) → Prop
  | sweep : Upkeep C clock (Tier.modifyCached (CachedConnector.evict C.traced clock))
  | drain : Upkeep C clock (Tier.modifyCached (CachedConnector.stop C.traced clock))
  | inner (f : σ → σ) : Upkeep C clock (Tier.modifyInner fun s => { s with state := f s.state })

theorem Upkeep.shifts {f : Tier (Traced σ) → Tier (Traced σ)} (hf : Upkeep C clock f)
    (h : Guards u hits d) : Shifts u hits hits d { d with connector := f d.connector } := by
  refine h.connector fun c hk => ?_
  cases hf with
  | sweep => exact ⟨_, rfl, CachedConnector.evict_moves clock hk⟩
  | drain => exact ⟨_, rfl, CachedConnector.stop_moves clock hk⟩
  | inner f => exact ⟨_, rfl, hk.refl⟩

/-! ### One operation -/

/-- The ids that a request asks for are not minted by a cache. -/
def Unminted (u : Supply) (q : Request) : Prop :=
  ∀ a ∈ q.asks, ∀ n < u.size, a.resource ≠ u.mint n

instance (u : Supply) (q : Request) : Decidable (Unminted u q) :=
  inferInstanceAs (Decidable (∀ a ∈ q.asks, ∀ n < u.size, a.resource ≠ u.mint n))

theorem placeable_ofRequest {q : Request} (hq : Unminted u q) (hf : q.fault? = none)
    (id : ReservationId) (t : Time) : Placeable u (.ofRequest id q t) := by
  refine ⟨Reservation.fresh_ofRequest id t hf, fun k hk => ?_⟩
  unfold Reservation.resourceIds Reservation.ofRequest at hk
  rw [List.map_map] at hk
  obtain ⟨a, ha, rfl⟩ := List.mem_map.1 hk
  exact hq a ha

/-- Clients keep off the ids of the cache, and the connector changes by upkeep only. -/
def Op.Orderly (C : Connector σ) (u : Supply) (clock : Time) :
    Op (Tier (Traced σ)) → Prop
  | .reserve _ q => Unminted u q
  | .place r => Placeable u r
  | .tend f => Upkeep C clock f
  | _ => True

/-- The moments of an operation. -/
def Op.moments (C : Connector σ) (u : Supply) (clock : Time) :
    Op (Tier (Traced σ)) → Desk (Tier (Traced σ)) → List Moment
  | .reserve id q, d =>
    if q.fault? = none then d.placeMoments clock C u (.ofRequest id q clock) else []
  | .place r, d => d.placeMoments clock C u r
  | .deliver cs, d => d.moments clock [] cs
  | _, _ => []

theorem Op.run_follows (hC : C.Silent) (h : Guards u [] d)
    {op : Op (Tier (Traced σ))} (hop : op.Orderly C u clock)
    (hs : ∀ m ∈ op.moments C u clock d, m.Spared) :
    Follows u [] [] (op.moments C u clock d) d
      (op.run (Tier.connector C.traced u.mint) clock d).1 := by
  cases op with
  | reserve id q =>
    unfold moments at hs ⊢
    unfold run Desk.reserve
    dsimp only at hs ⊢
    cases hf : q.fault? with
    | some f =>
      rw [if_neg (by simp)]
      exact h.refl.follows
    | none =>
      rw [hf, if_pos rfl] at hs
      rw [if_pos rfl]
      exact place_follows clock hC h (placeable_ofRequest hop hf id clock) hs
  | place r => exact place_follows clock hC h hop hs
  | release hd id n => exact (release_shifts clock h hd id n).follows
  | releaseHandle hd n => exact (releaseWhere_shifts clock h _ n).follows
  | releaseQueue q n => exact (releaseWhere_shifts clock h _ n).follows
  | start => exact (start_shifts h).follows
  | nodes => exact (nodes_shifts h).follows
  | deliver cs =>
    exact receive_follows clock h (incoming_passing cs) hs
  | halt order => exact (onHaltedIn_shifts clock h order).follows
  | stop => exact (stop_shifts clock h).follows
  | tend f => exact (Upkeep.shifts clock hop h).follows

/-! ### Several operations -/

/-- The moments of a run. -/
def runMoments (C : Connector σ) (u : Supply) :
    List (Time × Op (Tier (Traced σ))) → Desk (Tier (Traced σ)) → List Moment
  | [], _ => []
  | e :: run, d => e.2.moments C u e.1 d ++
      runMoments C u run (e.2.run (Tier.connector C.traced u.mint) e.1 d).1

theorem after_follows (hC : C.Silent) (h : Guards u [] d)
    {run : List (Time × Op (Tier (Traced σ)))} (hrun : ∀ e ∈ run, e.2.Orderly C u e.1)
    (hs : ∀ m ∈ runMoments C u run d, m.Spared) :
    Follows u [] [] (runMoments C u run d) d (after (Tier.connector C.traced u.mint) run d) := by
  induction run generalizing d with
  | nil => exact h.refl.follows
  | cons e run ih =>
    have hone := Op.run_follows e.1 hC h (hrun e (List.mem_cons_self ..))
      fun m hm => hs m (List.mem_append_left _ hm)
    have hrest := ih hone.shifts.guards (fun x hx => hrun x (List.mem_cons_of_mem _ hx))
      fun m hm => hs m (List.mem_append_right _ hm)
    exact hone.trans hrest

end ClusterBroker.Desk
