import ClusterBroker.Proofs.Custody.Errands

/-!
# Custody through a run of a broker

A broker over a cached connector, with or without a supervisor, keeps what the manager hands out in
at most one place, under the id by which the manager knows it. It gives everything back at most
once, and by that id, and it loses nothing that the manager has not taken away by that id.
-/
namespace ClusterBroker

variable {σ : Type} {C : Connector σ} {u : Supply} (clock : Time)

namespace Desk

variable {d : Desk (Tier (Traced σ))}

/-- What tracked resources were allocated, and what the cache keeps. -/
def holdings (d : Desk (Tier (Traced σ))) : List Holding :=
  d.ledger.resources.filterMap Resource.holding ++
    match d.connector with
    | .plain _ => []
    | .cached c => c.cache.entries.values.map CacheEntry.holding

def traffic (d : Desk (Tier (Traced σ))) : List Traffic := d.connector.inner.log

/-- How many ids the cache has drawn. -/
def drawn (d : Desk (Tier (Traced σ))) : Nat :=
  match d.connector with
  | .plain _ => 0
  | .cached c => c.drawn

theorem stock_held (d : Desk (Tier (Traced σ))) : (d.stock []).held = d.holdings := by
  have hr : ∀ rs : List Resource, rs.filterMap (Resource.held []) = rs.filterMap Resource.holding :=
    fun rs => List.filterMap_congr fun x _ => x.held_nil
  unfold stock holdings Stock.held
  rw [← hr]
  cases d.connector <;> rfl

theorem stock_log (d : Desk (Tier (Traced σ))) : (d.stock []).log = d.traffic := by
  unfold stock traffic
  cases d.connector <;> rfl

theorem stock_drawn (d : Desk (Tier (Traced σ))) : (d.stock []).drawn = d.drawn := by
  unfold stock drawn
  cases d.connector <;> rfl

theorem Shifts.drawn_le {d' : Desk (Tier (Traced σ))} (h : Shifts u [] [] d d') :
    d.drawn ≤ d'.drawn := by
  have hd := h.moves.drawn_le
  rwa [stock_drawn, stock_drawn] at hd

theorem Shifts.conserves {d' : Desk (Tier (Traced σ))} (h : Shifts u [] [] d d')
    (hw : d'.drawn ≤ u.size) : Conserves d.holdings d.traffic d'.holdings d'.traffic := by
  rw [← stock_drawn] at hw
  have hc := h.moves.conserves hw
  rwa [stock_held, stock_held, stock_log, stock_log] at hc

/-- A desk over an empty cache is in order. -/
theorem opened_guards (u : Supply) (policy : EvictionPolicy) (queue : QueueName) (s : σ) :
    Guards u [] (opened queue (Tier.cached { inner := ⟨s, []⟩, cache := { policy } })) := by
  refine ⟨⟨_, rfl⟩, Ledger.sound_empty,
    fun hw => ⟨hw, ⟨List.nodup_nil, List.forall_mem_nil _, ?_, ?_⟩, ?_⟩⟩
  · intro id e he
    simp [opened, stock, CachedConnector.stock] at he
  · intro id e he
    simp [opened, stock, CachedConnector.stock] at he
  · exact ⟨List.nodup_nil, List.forall_mem_nil _⟩

end Desk

namespace Broker

open Desk (Guards Shifts Follows Placeable)

variable {b : Broker (Tier (Traced σ))}

/-! ### One operation -/

/-- Clients keep off the ids of the supply, and the connector changes by upkeep only. -/
def Op.Orderly (C : Connector σ) (u : Supply) (clock : Time) : Op (Tier (Traced σ)) → Prop
  | .reserve _ q => Desk.Unminted u q
  | .tend f => Desk.Upkeep C clock f
  | _ => True

/-- The moments of an operation. -/
def Op.moments (C : Connector σ) (u : Supply) (clock : Time) (op : Op (Tier (Traced σ)))
    (b : Broker (Tier (Traced σ))) : List Moment :=
  Desk.runMoments C u
    ((op.errands (Tier.connector C.traced u.mint) clock b).map (Prod.mk clock)) b.desk

/-- The manager hands out only what is not in stock. -/
structure Op.Cared (C : Connector σ) (u : Supply) (clock : Time) (op : Op (Tier (Traced σ)))
    (b : Broker (Tier (Traced σ))) : Prop where
  orderly : op.Orderly C u clock
  spared : ∀ m ∈ op.moments C u clock b, m.Spared

/-- The desk is in order, and what the supervisor places again can be placed. -/
structure Guarded (u : Supply) (b : Broker (Tier (Traced σ))) : Prop where
  guards : Guards u [] b.desk
  watched : b.Watched (Placeable u)

theorem Watched.errands_orderly (h : b.Watched (Placeable u)) {op : Op (Tier (Traced σ))}
    (hop : op.Orderly C u clock) : ∀ e ∈ op.errands (Tier.connector C.traced u.mint) clock b,
      e.Orderly C u clock := by
  have hplace : ∀ id q, op = .reserve id q → q.fault? = none →
      Placeable u (.ofRequest id q clock) := by
    rintro id q rfl hf
    exact Desk.placeable_ofRequest hop hf id clock
  intro e he
  rcases Op.errand_cases _ clock h hplace he with hd | ⟨_, _, rfl⟩ | ⟨r, hr, rfl⟩
  · cases op with
    | avoidDeadlock | retry | turn | roll | addClient | removeClient => simp [Op.direct] at hd
    | reserve | tend =>
      rw [← Option.some.inj hd]
      exact hop
    | release | releaseHandle | releaseQueue | start | nodes | deliver | halt | stop =>
      rw [← Option.some.inj hd]
      trivial
  · trivial
  · exact hr

theorem Op.run_follows (hC : C.Silent) (h : Guarded u b) {op : Op (Tier (Traced σ))}
    (hop : op.Cared C u clock b) :
    Guarded u (op.run (Tier.connector C.traced u.mint) clock b) ∧
      Follows u [] [] (op.moments C u clock b) b.desk
        (op.run (Tier.connector C.traced u.mint) clock b).desk := by
  have hf : Follows u [] [] (op.moments C u clock b) b.desk
      (op.run (Tier.connector C.traced u.mint) clock b).desk := by
    rw [Op.run_desk]
    refine Desk.after_follows hC h.guards (fun e he => ?_) hop.spared
    obtain ⟨o, ho, rfl⟩ := List.mem_map.1 he
    exact h.watched.errands_orderly clock hop.orderly o ho
  refine ⟨⟨hf.shifts.guards, h.watched.run _ clock fun id q he hq => ?_⟩, hf⟩
  have hun := hop.orderly
  rw [he] at hun
  exact Desk.placeable_ofRequest hun hq id clock

/-! ### Whole runs -/

def Careful (C : Connector σ) (u : Supply) :
    List (Time × Op (Tier (Traced σ))) → Broker (Tier (Traced σ)) → Prop
  | [], _ => True
  | e :: run, b => e.2.Cared C u e.1 b ∧
      Careful C u run (e.2.run (Tier.connector C.traced u.mint) e.1 b)

theorem careful_cons (e : Time × Op (Tier (Traced σ))) (run : List (Time × Op (Tier (Traced σ))))
    (b : Broker (Tier (Traced σ))) : Careful C u (e :: run) b ↔ e.2.Cared C u e.1 b ∧
      Careful C u run (e.2.run (Tier.connector C.traced u.mint) e.1 b) := Iff.rfl

theorem careful_append {run run' : List (Time × Op (Tier (Traced σ)))} :
    Careful C u (run ++ run') b ↔ Careful C u run b ∧
      Careful C u run' (after (Tier.connector C.traced u.mint) run b) := by
  induction run generalizing b with
  | nil => exact ⟨fun h => ⟨trivial, h⟩, fun h => h.2⟩
  | cons e run ih =>
    rw [List.cons_append, careful_cons, careful_cons, ih, and_assoc, after_cons]

theorem after_shifts (hC : C.Silent) (h : Guarded u b)
    {run : List (Time × Op (Tier (Traced σ)))} (hrun : Careful C u run b) :
    Guarded u (after (Tier.connector C.traced u.mint) run b) ∧
      Shifts u [] [] b.desk (after (Tier.connector C.traced u.mint) run b).desk := by
  induction run generalizing b with
  | nil => exact ⟨h, h.guards.refl⟩
  | cons e run ih =>
    obtain ⟨hop, hrest⟩ := hrun
    obtain ⟨hg, hf⟩ := Op.run_follows e.1 hC h hop
    obtain ⟨hg', hs⟩ := ih hg hrest
    exact ⟨hg', hf.shifts.trans hs⟩

/-- A broker over a cached connector that has not been used, with or without a supervisor. -/
def stacked (o : Option DeadlockOptions) (policy : EvictionPolicy) (queue : QueueName) (s : σ) :
    Broker (Tier (Traced σ)) :=
  let b := ofDesk (Desk.opened queue (Tier.cached { inner := ⟨s, []⟩, cache := { policy } }))
  match o with
  | none => b
  | some o => b.supervise o clock

theorem stacked_guarded (o : Option DeadlockOptions) (policy : EvictionPolicy) (queue : QueueName)
    (s : σ) : Guarded u (stacked clock o policy queue s) := by
  cases o with
  | none =>
    refine ⟨Desk.opened_guards u policy queue s, fun c hc => ?_⟩
    have hnone : (none : Option GangControl) = some c := hc
    simp at hnone
  | some o =>
    refine ⟨Desk.opened_guards u policy queue s, fun c hc id r hr => ?_⟩
    rw [← Option.some.inj hc] at hr
    have hnone : (none : Option Reservation) = some r := hr
    simp at hnone

theorem stacked_desk (o : Option DeadlockOptions) (policy : EvictionPolicy) (queue : QueueName)
    (s : σ) : (stacked clock o policy queue s).desk =
      Desk.opened queue (Tier.cached { inner := ⟨s, []⟩, cache := { policy } }) := by
  cases o <;> rfl

/-- The supply lasts for the run and nobody else uses its ids; a submission that fails reports
nothing, and the manager hands out nothing that is still held. Then, at any point of the run, what
is held is held once and by its name, and so was everything in a release. From then on, and from any
moment in the middle of an operation, whatever was held is held still, or it was given back or taken
away by the name that it had, or lost with the manager. -/
theorem custody_conserved (hC : C.Silent) (o : Option DeadlockOptions) (policy : EvictionPolicy)
    (queue : QueueName) (s : σ) {first rest : List (Time × Op (Tier (Traced σ)))}
    (hrun : Careful C u (first ++ rest) (stacked clock o policy queue s))
    (hdrawn : (after (Tier.connector C.traced u.mint) (first ++ rest)
      (stacked clock o policy queue s)).desk.drawn ≤ u.size) :
    let b := after (Tier.connector C.traced u.mint) first (stacked clock o policy queue s)
    let b' := after (Tier.connector C.traced u.mint) rest b
    Named (naming b.desk.traffic) b.desk.holdings ∧ AllHonest b.desk.traffic (fun _ => none) ∧
      Conserves b.desk.holdings b.desk.traffic b'.desk.holdings b'.desk.traffic ∧
      ∀ e later, rest = e :: later → ∀ m ∈ e.2.moments C u e.1 b,
        Conserves m.stock.held m.stock.log b'.desk.holdings b'.desk.traffic := by
  intro b b'
  obtain ⟨hfirst, hrest⟩ := careful_append.1 hrun
  obtain ⟨hg, hs⟩ := after_shifts hC (stacked_guarded clock o policy queue s) hfirst
  obtain ⟨hg', hs'⟩ := after_shifts hC hg hrest
  rw [after_append] at hdrawn
  have hpast := hs.conserves (Nat.le_trans hs'.drawn_le hdrawn)
  obtain ⟨new, hnew, hhonest, -⟩ := hpast.accounts
  -- An unused stack has no traffic, so all that there is was added in `first`.
  rw [stacked_desk] at hnew hhonest
  have hlog : b.desk.traffic = new := hnew
  refine ⟨hpast.named, ?_, hs'.conserves hdrawn, fun e later he m hm => ?_⟩
  · rw [hlog]
    exact hhonest
  · subst he
    obtain ⟨hop, hlater⟩ := hrest
    obtain ⟨hg₁, hf⟩ := Op.run_follows e.1 hC hg hop
    have hmoves := (hf.moments m hm).trans (after_shifts hC hg₁ hlater).2.moves
    have hend := hmoves.conserves (by rw [Desk.stock_drawn]; exact hdrawn)
    rw [Desk.stock_held, Desk.stock_log] at hend
    exact hend

/-- What a gang gave back is kept, and another gang gets it from the cache. -/
theorem custody_conserved_reuse :
    let u : Supply := ⟨fun n => .ofNat (100 + n), 4, fun m n hm hn h => by
      simp only [Id.ofNat, Id.mk.injEq, idRange] at h
      omega⟩
    let q := fun k : ResourceId => (⟨⟨3, by decide⟩, ⟨"queue"⟩, true,
      [⟨k, ⟨"node"⟩, .dontCare, 1, 512⟩]⟩ : Request)
    let k₁ : ResourceId := ⟨1, by decide⟩
    let k₂ : ResourceId := ⟨2, by decide⟩
    let m : ScriptedManager := { batches := [[.allocated k₁ ⟨1, 512, ⟨"node"⟩, ⟨"m"⟩⟩]] }
    let T := Tier.connector ScriptedManager.connector.traced u.mint
    let b := after T [
      (.ofMillis 0, .start),
      (.ofMillis 1, .reserve ⟨7, by decide⟩ (q k₁)),
      (.ofMillis 2, .release ⟨3, by decide⟩ ⟨7, by decide⟩ false)]
      (stacked (.ofMillis 0) (some {}) .never ⟨"queue"⟩ m)
    let b' := after T [(.ofMillis 3, .reserve ⟨8, by decide⟩ (q k₂))] b
    b.desk.holdings = [(⟨"m"⟩, u.mint 0)] ∧ b'.desk.holdings = [(⟨"m"⟩, k₂)] ∧
      Conserves b.desk.holdings b.desk.traffic b'.desk.holdings b'.desk.traffic := by
  intro u q k₁ k₂ m T b b'
  have hq : Desk.Unminted u (q k₁) ∧ Desk.Unminted u (q k₂) := by decide +kernel
  have hrun : Careful ScriptedManager.connector u ([
      (.ofMillis 0, .start),
      (.ofMillis 1, .reserve ⟨7, by decide⟩ (q k₁)),
      (.ofMillis 2, .release ⟨3, by decide⟩ ⟨7, by decide⟩ false)] ++
        [(.ofMillis 3, .reserve ⟨8, by decide⟩ (q k₂))])
      (stacked (.ofMillis 0) (some {}) .never ⟨"queue"⟩ m) :=
    ⟨⟨trivial, by decide +kernel⟩, ⟨hq.1, by decide +kernel⟩, ⟨trivial, by decide +kernel⟩,
      ⟨hq.2, by decide +kernel⟩, trivial⟩
  have hall := custody_conserved (.ofMillis 0) ScriptedManager.connector_silent (some {}) .never
    ⟨"queue"⟩ m hrun (by decide +kernel)
  exact ⟨by decide +kernel, by decide +kernel, hall.2.2.1⟩

end Broker

end ClusterBroker
