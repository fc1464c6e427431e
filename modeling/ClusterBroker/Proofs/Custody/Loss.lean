import ClusterBroker.Proofs.Custody.Run
import ClusterBroker.Proofs.Custody.Avoidance

/-!
# What was taken back stays out of the cache

The manager may report a resource as preempted or lost although its reservation stays. The ledger
then keeps the resource with its allocation, so a release that may use the cache offers something
that the manager has taken back. If no such release takes that reservation, and the manager does
not hand the same out again, it is never kept and never handed to another resource: whatever else
happens, the manager is not asked to rename it.
-/
namespace ClusterBroker.Desk

variable {σ : Type} {C : Connector σ} {mint : Nat → ResourceId} (clock : Time) {m : ManagerId}
  {k : ResourceId} {d : Desk (Tier (Traced σ))}

/-! ### The report -/

/-- What the manager calls `m` is held by the resource `k`, tracked or kept, or by nothing. -/
structure Solely (m : ManagerId) (k : ResourceId) (d : Desk (Tier (Traced σ))) : Prop where
  sound : d.ledger.Sound
  only : d.ledger.Only m k
  cached : ∃ c, d.connector = .cached c ∧ c.cache.Solely m k

/-- The manager reports that it took back what it gave to the resource `k`. It does not hand out
the same meanwhile, and no reservation that the batch tears down held it. -/
def Op.TakesBack (m : ManagerId) (k : ResourceId) (clock : Time) (d : Desk (Tier (Traced σ))) :
    Op (Tier (Traced σ)) → Prop
  | .deliver cs => (∃ c ∈ cs, c.Takes k) ∧ (∀ c ∈ cs, c.grants m = false) ∧
      ∀ x ∈ (d.ledger.midway clock cs).toRelease, x.holds m = false
  | .halt order => k ∈ order d.ledger
  | _ => False

theorem Solely.takenBack (h : d.Solely m k) {op : Op (Tier (Traced σ))}
    (hop : op.TakesBack m k clock d) :
    (op.run (Tier.connector C.traced mint) clock d).1.Barred m k (renamings m d.traffic) := by
  obtain ⟨c, hc, hcache⟩ := h.cached
  have hlog : d.traffic = c.inner.log := by
    unfold traffic
    rw [hc]
    rfl
  cases op with
  | deliver cs =>
    obtain ⟨hk, hgrants, hrel⟩ := hop
    have hids : k ∈ cs.map Change.resource := by
      obtain ⟨x, hx, hxk⟩ := hk
      refine List.mem_map.2 ⟨x, hx, ?_⟩
      rcases hxk with rfl | rfl <;> rfl
    -- A kept entry is dropped while the batch passes, a tracked one stays with its reservation.
    apply onChanges_barred_of (d := { d with
      connector := (Tier.connector C.traced mint).incoming cs d.connector }) clock h.sound
    · exact Ledger.Batch.foldl_only h.only h.sound hgrants
    · exact Ledger.Batch.foldl_takes h.only h.sound hgrants hk
    · exact hrel
    · refine ⟨c.incoming C.traced cs, ?_, hcache.invalidateAll hids, ?_⟩
      · dsimp only
        rw [hc]
        rfl
      · rw [hlog]
        exact renamings_reported m c.inner.log cs
  | halt order =>
    apply onHaltedIn_barred_of clock h.sound h.only
    · apply Ledger.Batch.foldl_takes h.only h.sound
      · intro x hx
        obtain ⟨id, -, rfl⟩ := List.mem_map.1 hx
        rfl
      · exact ⟨.lost k, List.mem_map_of_mem hop, .inr rfl⟩
    · rw [hlog]
      exact ⟨c, hc, rfl⟩
  | _ => exact hop.elim

/-- In a desk in order, what is held is held by one only. -/
theorem Guards.solely {u : Supply} (h : Guards u [] d) (hw : d.drawn ≤ u.size)
    (hheld : (m, k) ∈ d.holdings) : d.Solely m k := by
  have hnamed := (h.kept (by rw [stock_drawn]; exact hw)).named
  rw [stock_held] at hnamed
  have hone : ∀ p ∈ d.holdings, p.1 = m → p.2 = k := by
    intro p hp hm
    have hname := hnamed.known p hp
    rw [hm, hnamed.known _ hheld] at hname
    exact (Option.some.inj hname).symm
  obtain ⟨c, hc⟩ := h.cached
  unfold holdings at hone
  rw [hc] at hone
  constructor
  · exact h.sound
  · intro id r hr x hx hm
    apply hone (m, x.id) _ rfl
    apply List.mem_append_left
    refine List.mem_filterMap.2 ⟨x, Ledger.mem_resources.2 ⟨id, r, hr, hx⟩, ?_⟩
    obtain ⟨a, ha, ham⟩ := Option.any_eq_true _ _ |>.1 hm
    unfold Resource.holding
    rw [ha, ← of_decide_eq_true ham]
    rfl
  · refine ⟨c, hc, fun id e he hm => ?_⟩
    have hkeyed : c.cache.Keyed := by
      have hk := (h.kept (by rw [stock_drawn]; exact hw)).orderly.keyed
      rw [stock_cached hc] at hk
      exact hk
    rw [← hkeyed id e he]
    apply hone e.holding _ hm
    apply List.mem_append_right
    exact List.mem_map_of_mem (Table.mem_values.2 ⟨id, he⟩)

/-- A desk over a cached connector that has not been used. -/
def cachedOver (policy : EvictionPolicy) (queue : QueueName) (s : σ) : Desk (Tier (Traced σ)) :=
  opened queue (.cached { inner := ⟨s, []⟩, cache := { policy } })

/-- At some point of a run, what the manager calls `m` goes by the id `k`, and then the manager
reports that it took that back. From then on the cache does not have it, and the manager is not
asked for a new name for it: neither to keep it nor to hand it out again. For this, no release may
offer it to the cache, and the manager must not hand it out again itself. -/
theorem taken_back_kept_out {u : Supply} (hC : C.Silent) (policy : EvictionPolicy)
    (queue : QueueName) (s : σ) {first run : List (Time × Op (Tier (Traced σ)))}
    {op : Op (Tier (Traced σ))} (hfirst : ∀ e ∈ first, e.2.Orderly C u e.1)
    (hspared : ∀ x ∈ runMoments C u first (cachedOver policy queue s), x.Spared) :
    let d := after (Tier.connector C.traced u.mint) first (cachedOver policy queue s)
    d.drawn ≤ u.size → (m, k) ∈ d.holdings → op.TakesBack m k clock d →
    Avoids C u.mint m k run (op.run (Tier.connector C.traced u.mint) clock d).1 →
    ∃ c, (after (Tier.connector C.traced u.mint) ((clock, op) :: run) d).connector = .cached c ∧
      c.cache.Lacks m ∧ renamings m c.inner.log = renamings m d.traffic := by
  intro d hw hheld hop hrun
  have hguards := (after_follows hC (opened_guards u policy queue s) hfirst hspared).shifts.guards
  have hbarred : Barred m k (renamings m d.traffic)
      (op.run (Tier.connector C.traced u.mint) clock d).1 :=
    (hguards.solely hw hheld).takenBack clock hop
  obtain ⟨c, hc, hb⟩ := (after_barred hbarred hrun).connector
  exact ⟨c, hc, hb.lacks, hb.count_eq⟩

/-! ### A loss, with and without the cache -/

theorem hundreds_distinct (m n : Nat) (hm : m < 4) (hn : n < 4)
    (h : (Id.ofNat (100 + m) : ResourceId) = .ofNat (100 + n)) : m = n := by
  simp only [Id.ofNat, Id.mk.injEq, idRange] at h
  omega

/-- The first four ids from 100 on. -/
def hundreds : Supply := ⟨fun n => .ofNat (100 + n), 4, hundreds_distinct⟩

/-- One resource of the queue, for the handle 3. -/
def askFor (k : ResourceId) : Request :=
  ⟨⟨3, by decide⟩, ⟨"queue"⟩, false, [⟨k, ⟨"node"⟩, .dontCare, 1, 512⟩]⟩

/-- The reservation 7 asks for the resource 1 and is given what the manager calls `m`. -/
def given : List (Time × Op (Tier (Traced ScriptedManager))) := [
  (.ofMillis 0, .start),
  (.ofMillis 1, .reserve ⟨7, by decide⟩ (askFor ⟨1, by decide⟩)),
  (.ofMillis 2, .deliver [.allocated ⟨1, by decide⟩ ⟨1, 512, ⟨"node"⟩, ⟨"m"⟩⟩])]

/-- What was lost is released, but not to the cache, so the next resource does not get it. -/
theorem taken_back_kept_out_released :
    let T := Tier.connector ScriptedManager.connector.traced hundreds.mint
    let d := after T given (cachedOver .never ⟨"queue"⟩ {})
    ∃ c, (after T [
        (.ofMillis 3, .deliver [.lost ⟨1, by decide⟩]),
        (.ofMillis 4, .release ⟨3, by decide⟩ ⟨7, by decide⟩ true),
        (.ofMillis 5, .reserve ⟨8, by decide⟩ (askFor ⟨2, by decide⟩))] d).connector = .cached c ∧
      c.cache.Lacks ⟨"m"⟩ ∧ renamings ⟨"m"⟩ c.inner.log = renamings ⟨"m"⟩ d.traffic := by
  intro T d
  have hfirst : ∀ e ∈ given, e.2.Orderly ScriptedManager.connector hundreds e.1 := by
    have hun : Unminted hundreds (askFor ⟨1, by decide⟩) := by decide +kernel
    simp [given, Op.Orderly, hun]
  apply taken_back_kept_out (.ofMillis 3) ScriptedManager.connector_silent .never ⟨"queue"⟩ {}
    (k := ⟨1, by decide⟩) hfirst (by decide +kernel)
  · decide +kernel
  · decide +kernel
  · exact ⟨⟨_, List.mem_singleton_self _, .inr rfl⟩, by decide +kernel, by decide +kernel⟩
  · refine ⟨.inl rfl, ?_, trivial⟩
    dsimp only [Op.Avoids]
    decide +kernel

/-- If the same is released to the cache, then it is kept, and the next resource is given what the
manager has taken back. -/
theorem taken_back_handed_out :
    let T := Tier.connector ScriptedManager.connector.traced hundreds.mint
    let lost := after T (given ++ [(.ofMillis 3, .deliver [.lost ⟨1, by decide⟩])])
      (cachedOver .never ⟨"queue"⟩ {})
    let kept := after T [(.ofMillis 4, .release ⟨3, by decide⟩ ⟨7, by decide⟩ false)] lost
    let handed := after T [(.ofMillis 5, .reserve ⟨8, by decide⟩ (askFor ⟨2, by decide⟩))] kept
    lost.holdings = [(⟨"m"⟩, ⟨1, by decide⟩)] ∧ renamings ⟨"m"⟩ lost.traffic = 0 ∧
      (kept.connector.cached?.map fun c => c.cache.entries.values.map CacheEntry.holding) =
        some [(⟨"m"⟩, hundreds.mint 0)] ∧
      handed.holdings = [(⟨"m"⟩, ⟨2, by decide⟩)] ∧ renamings ⟨"m"⟩ handed.traffic = 2 := by
  decide +kernel

/-- Even without a client's release: a batch that first tears down a gang gives back what the gang
has at its end, also what was lost in the same batch. -/
example :
    let q : Request := ⟨⟨3, by decide⟩, ⟨"queue"⟩, true,
      [⟨⟨1, by decide⟩, ⟨"node"⟩, .dontCare, 1, 512⟩,
        ⟨⟨2, by decide⟩, ⟨"node"⟩, .dontCare, 1, 512⟩]⟩
    let T := Tier.connector ScriptedManager.connector.traced fun n => .ofNat (100 + n)
    let d := after T [
        (.ofMillis 0, .start),
        (.ofMillis 1, .reserve ⟨7, by decide⟩ q),
        (.ofMillis 2, .deliver [.allocated ⟨1, by decide⟩ ⟨1, 512, ⟨"node"⟩, ⟨"m"⟩⟩]),
        (.ofMillis 3, .deliver [.lost ⟨2, by decide⟩, .lost ⟨1, by decide⟩])]
      (opened ⟨"queue"⟩ (.cached { inner := ⟨{}, []⟩, cache := { policy := .never } }))
    d.holdings = [(⟨"m"⟩, .ofNat 100)] := by
  decide +kernel

end ClusterBroker.Desk
