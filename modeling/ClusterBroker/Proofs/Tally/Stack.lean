import ClusterBroker.Proofs.Broker.Standing
import ClusterBroker.Proofs.Custody.Loss
import ClusterBroker.Proofs.Tally.Cache

/-!
# What a stack counts

A supervised broker over a cached connector. Through every run the registry, the controller and the
cache count what comes in and what becomes of it, and the gauges tell what is there. What the cache
is drained of, and which gangs a client gives up while they wait, nobody counts, so a run keeps
these two numbers itself.
-/
namespace ClusterBroker

namespace CachedConnector

variable {σ : Type} (C : Connector σ) (clock : Time) (s : CachedConnector σ)

theorem evict_cache : (s.evict C clock).cache = (s.cache.evict clock).2 ∧
    (s.evict C clock).drawn = s.drawn := by
  unfold evict
  dsimp only
  split <;> exact ⟨rfl, rfl⟩

theorem stop_cache : (s.stop C clock).cache = s.cache.drain.2 ∧
    (s.stop C clock).drawn = s.drawn := by
  unfold stop
  dsimp only
  split <;> exact ⟨rfl, rfl⟩

theorem unregister_cache : (s.unregister C clock).2.cache = s.cache.drain.2 ∧
    (s.unregister C clock).2.drawn = s.drawn := stop_cache C clock s

end CachedConnector

namespace Tier

variable {σ : Type}

/-- What is done to the connector past the broker. -/
inductive Care (σ : Type) where
  | evict
  | stop
  | unregister
  | inner (f : σ → σ)

def Care.act (C : Connector σ) (clock : Time) : Care σ → Tier σ → Tier σ
  | .evict => modifyCached (CachedConnector.evict C clock)
  | .stop => modifyCached (CachedConnector.stop C clock)
  | .unregister => modifyCached fun s => (s.unregister C clock).2
  | .inner f => modifyInner f

/-- How many entries there are. -/
def entries (t : Tier σ) : Nat :=
  match t with
  | .plain _ => 0
  | .cached s => s.cache.size

end Tier

/-- An operation of the broker, or care for its connector. -/
inductive StackOp (σ : Type) where
  | broker (op : Broker.Op (Tier σ))
  | care (k : Tier.Care σ)

namespace StackOp

open Broker

variable {σ : Type} (C : Connector σ) (clock : Time)

def op : StackOp σ → Op (Tier σ)
  | .broker op => op
  | .care k => .tend (k.act C clock)

/-- The connector does not change but through calls and care. -/
def Proper : StackOp σ → Prop
  | .broker op => ∀ f, op ≠ .tend f
  | .care _ => True

/-- How many entries the cache is drained of. -/
def drains (e : StackOp σ) (b : Broker (Tier σ)) : Nat :=
  match e with
  | .broker .stop => if b.registry.stopped then 0 else b.desk.connector.entries
  | .broker (.halt _) | .care .stop | .care .unregister => b.desk.connector.entries
  | _ => 0

end StackOp

namespace Broker

variable {σ : Type} {C : Connector σ} {u : Supply} (clock : Time) {b : Broker (Tier σ)} {k : Nat}

/-! ### The cache -/

/-- There is a cache, and its balance is right as long as the supply lasts. -/
def CacheCounted (u : Supply) (drained : Nat) (b : Broker (Tier σ)) : Prop :=
  Tier.Has (fun c n => n ≤ u.size → c.Balanced u.mint drained n) b.desk.connector

theorem stop_connector (hs : b.registry.stopped = false) {s : CachedConnector σ}
    (hc : b.desk.connector = .cached s) : ∃ s' : CachedConnector σ,
      (b.stop (Tier.connector C u.mint) clock).2.desk.connector =
        .cached (s'.unregister C clock).2 ∧ s'.cache = s.cache ∧ s'.drawn = s.drawn := by
  have hback : ∀ {d : Desk (Tier σ)} {s}, d.connector = .cached s → ∀ removed, ∃ s',
      (d.giveBack (Tier.connector C u.mint) clock removed true).2.connector = .cached s' ∧
        s'.cache = s.cache ∧ s'.drawn = s.drawn := by
    intro d s hd removed
    unfold Desk.giveBack
    dsimp only
    split
    · exact ⟨s, hd, rfl, rfl⟩
    · rw [hd]
      exact ⟨_, rfl, rfl, rfl⟩
  unfold Broker.stop Desk.stop
  rw [show b.desk.registry.stopped = false from hs]
  dsimp only
  obtain ⟨s', hs', hcache⟩ := hback (d := ({ b.desk with registry := { b.desk.registry with
    stopped := true } } : Desk (Tier σ)).setLedger
      (b.desk.registry.ledger.removeWhere fun _ => true).2)
    hc (b.desk.registry.ledger.removeWhere fun _ => true).1
  refine ⟨s', ?_, hcache⟩
  change ((Tier.connector C u.mint).unregister clock (Desk.connector _)).2 = _
  unfold Desk.releaseWhere
  dsimp only
  rw [hs']
  rfl

theorem CacheCounted.entries_eq {s : CachedConnector σ} (hs : b.desk.connector = .cached s) :
    b.desk.connector.entries = s.cache.size := by
  rw [hs]
  rfl

theorem CacheCounted.act (h : b.CacheCounted u k) (a : Tier.Care σ) :
    Tier.Has (fun c n => n ≤ u.size → c.Balanced u.mint (k + (StackOp.care a).drains b) n)
      (a.act C clock b.desk.connector) := by
  obtain ⟨s, hs, hb⟩ := h
  have hentries := CacheCounted.entries_eq hs
  rw [hs]
  cases a with
  | evict =>
    obtain ⟨hc, hd⟩ := s.evict_cache C clock
    refine ⟨_, rfl, ?_⟩
    rw [hc, hd]
    exact fun hw => (hb hw).evict clock
  | stop =>
    obtain ⟨hc, hd⟩ := s.stop_cache C clock
    refine ⟨_, rfl, ?_⟩
    rw [hc, hd]
    unfold StackOp.drains
    rw [hentries]
    exact fun hw => (hb hw).drain
  | unregister =>
    obtain ⟨hc, hd⟩ := s.unregister_cache C clock
    refine ⟨_, rfl, ?_⟩
    rw [hc, hd]
    unfold StackOp.drains
    rw [hentries]
    exact fun hw => (hb hw).drain
  | inner f => exact ⟨_, rfl, hb⟩

/-- The first stop unregisters, and the cache is drained; a second one does nothing. -/
theorem CacheCounted.stop (h : b.CacheCounted u k) :
    (b.stop (Tier.connector C u.mint) clock).2.CacheCounted u
      (k + (StackOp.broker (.stop : Op (Tier σ)) : StackOp σ).drains b) := by
  unfold StackOp.drains
  dsimp only
  cases hst : b.registry.stopped with
  | true =>
    have hsame : (b.stop (Tier.connector C u.mint) clock).2.desk = b.desk := by
      unfold Broker.stop Desk.stop
      rw [show b.desk.registry.stopped = true from hst]
      rfl
    unfold CacheCounted
    rw [hsame]
    exact h
  | false =>
    obtain ⟨s, hs, hb⟩ := h
    obtain ⟨s', hs', hcache, hdrawn⟩ := stop_connector (C := C) (u := u) clock hst hs
    obtain ⟨hc, hd⟩ := s'.unregister_cache C clock
    refine ⟨_, hs', ?_⟩
    rw [hc, hd, hcache, hdrawn, CacheCounted.entries_eq hs]
    exact fun hw => (hb hw).drain

theorem StackOp.run_cacheCounted {e : StackOp σ} (he : e.Proper) (h : b.CacheCounted u k) :
    ((e.op C clock).run (Tier.connector C u.mint) clock b).CacheCounted u (k + e.drains b) := by
  have hkeeps : (Tier.connector C u.mint).Keeps
      (Tier.Has fun c n => n ≤ u.size → c.Balanced u.mint k n) :=
    Tier.connector_keeps (Cache.balanced_steady u k)
  cases e with
  | care a => exact h.act clock a
  | broker op =>
    cases op with
    | halt order =>
      obtain ⟨s, hs, hb⟩ := h
      refine ⟨s.halted C, ?_, ?_⟩
      · change (Tier.connector C u.mint).halted b.desk.connector = _
        rw [hs]
        rfl
      · unfold StackOp.drains
        rw [CacheCounted.entries_eq hs]
        exact fun hw => (hb hw).drain
    | stop => exact h.stop clock
    | tend f => exact absurd rfl (he f)
    | reserve | release | releaseHandle | releaseQueue | start | nodes | deliver | avoidDeadlock
    | retry | turn | roll | addClient | removeClient => exact Op.run_connector clock hkeeps h rfl

/-! ### The controller -/

/-- The gauge is right, and `gone` of the gangs that stepped back were given up while they
waited. -/
def ControlCounted (gone : Nat) (b : Broker (Tier σ)) : Prop :=
  ∃ c, b.control? = some c ∧ c.tally.waiting = c.backoff.size ∧
    c.tally.backedOff = c.tally.resubmitted + c.tally.resubmissionsFailed + c.tally.waiting + gone

theorem Noted.counted {b b' : Broker (Tier σ)} {restart : Bool} {gone : Nat}
    (h : Noted clock restart gone 0 0 b b') (hb : b.ControlCounted k) :
    b'.ControlCounted (k + gone) := by
  obtain ⟨c, c', hc, hc', hn⟩ := h
  obtain ⟨c₁, hc₁, hw, hb⟩ := hb
  rw [hc] at hc₁
  obtain rfl := Option.some.inj hc₁
  have hw' := hn.waiting_eq hw
  have hbal := hn.balance
  unfold GangControl.accounted at hbal
  refine ⟨c', hc', hw', ?_⟩
  omega

/-! ### Whole runs -/

/-- The operations of the broker in a run. -/
def opsOf (C : Connector σ) (run : List (Time × StackOp σ)) : List (Time × Op (Tier σ)) :=
  run.map fun e => (e.1, e.2.op C e.1)

/-- How many entries the cache was drained of. -/
def drained (C : Connector σ) (mint : Nat → ResourceId) :
    List (Time × StackOp σ) → Broker (Tier σ) → Nat
  | [], _ => 0
  | e :: run, b =>
    e.2.drains b + drained C mint run ((e.2.op C e.1).run (Tier.connector C mint) e.1 b)

/-- How many gangs clients gave up while they waited. -/
def givenUp (C : Connector σ) (mint : Nat → ResourceId) :
    List (Time × StackOp σ) → Broker (Tier σ) → Nat
  | [], _ => 0
  | e :: run, b => (e.2.op C e.1).givesUp b +
      givenUp C mint run ((e.2.op C e.1).run (Tier.connector C mint) e.1 b)

/-- Everything that a stack counts is right. -/
structure Counted (u : Supply) (gone drained : Nat) (b : Broker (Tier σ)) : Prop where
  registry : b.registry.Counted 0 0
  control : b.ControlCounted gone
  cache : b.CacheCounted u drained

theorem after_counted (hC : C.Silent) {s : Supervisor} (h : Stands b s [])
    (hw : b.Watched Reservation.Fresh) (hl : b.desk.ledger.Sound) {gone drained : Nat}
    (hb : b.Counted u gone drained) {run : List (Time × StackOp σ)}
    (hrun : ∀ e ∈ run, e.2.Proper) (hnovel : Novel (Tier.connector C u.mint) (opsOf C run) b) :
    (after (Tier.connector C u.mint) (opsOf C run) b).Counted u
      (gone + givenUp C u.mint run b) (drained + Broker.drained C u.mint run b) := by
  induction run generalizing b s gone drained with
  | nil => exact hb
  | cons e run ih =>
    obtain ⟨hop, hrest⟩ := List.forall_mem_cons.1 hrun
    obtain ⟨hfirst, hlater⟩ := hnovel
    have hT := Tier.connector_silent hC u.mint
    obtain ⟨s', h'⟩ := Op.run_stands (Tier.connector C u.mint) e.1 h hfirst
    have hboth := Op.run_proper e.1 (C := Tier.connector C u.mint)
      (P := fun d => d.ledger.Sound ∧ d.registry.Counted 0 0)
      (fun ho hd => ⟨(Desk.Op.run_keeps _ e.1 ho hd.1).sound,
        Desk.Op.run_counted _ e.1 hT ho hd.1 hd.2⟩) hw ⟨hl, hb.registry⟩ (e.2.op C e.1)
    have hall := ih h' (hw.run _ e.1 fun id q _ hf => Reservation.fresh_ofRequest id e.1 hf) hboth.1
      ⟨hboth.2, Noted.counted e.1 (Op.run_noted _ e.1 h hfirst) hb.control,
        StackOp.run_cacheCounted e.1 hop hb.cache⟩ hrest hlater
    rw [Nat.add_assoc, Nat.add_assoc] at hall
    exact hall

/-- Through every run in which requests come under new ids, whatever the manager answers, if only it
is silent while a submission fails: the gauges tell how many reservations are tracked, how many
gangs wait and how many entries there are, and what came in is there or is counted by what became of
it. -/
theorem metrics_conserved (hC : C.Silent) (o : DeadlockOptions) (policy : EvictionPolicy)
    (queue : QueueName) (s : σ) (opened : Time) {run : List (Time × StackOp σ)}
    (hrun : ∀ e ∈ run, e.2.Proper) (hnovel : Novel (Tier.connector C u.mint) (opsOf C run)
      (supervised opened o queue (.cached { inner := s, cache := { policy } }))) :
    let start := supervised opened o queue (.cached { inner := s, cache := { policy } })
    let b := after (Tier.connector C u.mint) (opsOf C run) start
    (b.registry.tally.active = b.registry.size ∧ b.registry.tally.placed =
        b.registry.tally.active + b.registry.tally.released + b.registry.tally.tornDown) ∧
      (∃ c, b.control? = some c ∧ c.tally.waiting = c.backoff.size ∧
        c.tally.backedOff = c.tally.resubmitted + c.tally.resubmissionsFailed + c.tally.waiting +
          givenUp C u.mint run start) ∧
      ∃ t, b.desk.connector = .cached t ∧ (t.drawn ≤ u.size →
        t.cache.tally.size = t.cache.size ∧ t.cache.tally.inserted =
          t.cache.tally.size + t.cache.tally.hits + t.cache.tally.evicted +
            t.cache.tally.invalidated + drained C u.mint run start) := by
  intro start b
  have hempty : start.Counted u 0 0 :=
    ⟨⟨rfl, rfl⟩, ⟨_, rfl, rfl, rfl⟩, _, rfl, fun _ => ⟨rfl, rfl, nofun⟩⟩
  have hall := after_counted hC (.serving (supervised_at opened o queue _))
    (supervised_watched opened _ o queue _) (Desk.sound_opened queue _) hempty hrun hnovel
  rw [Nat.zero_add, Nat.zero_add] at hall
  obtain ⟨hreg, hctl, t, ht, hcache⟩ := hall
  refine ⟨⟨hreg.active_eq, hreg.placed_eq⟩, hctl, t, ht, fun hw => ⟨(hcache hw).size_eq, ?_⟩⟩
  rw [(hcache hw).size_eq]
  exact (hcache hw).inserted_eq

/-- What a gang gave back is kept until the cache is drained, and another gang is given up while it
waits. -/
theorem metrics_conserved_drained :
    let request := fun (k : ResourceId) (memory : UInt64) =>
      (⟨⟨3, by decide⟩, ⟨"queue"⟩, true, [⟨k, ⟨"node"⟩, .dontCare, 1, memory⟩]⟩ : Request)
    let run : List (Time × StackOp ScriptedManager) := [
      (.ofMillis 0, .broker .start),
      (.ofMillis 1, .broker (.reserve ⟨7, by decide⟩ (request ⟨1, by decide⟩ 512))),
      (.ofMillis 2, .broker (.deliver [.allocated ⟨1, by decide⟩ ⟨1, 512, ⟨"node"⟩, ⟨"m"⟩⟩])),
      (.ofMillis 3, .broker (.release ⟨3, by decide⟩ ⟨7, by decide⟩ false)),
      (.ofMillis 4, .broker (.reserve ⟨8, by decide⟩ (request ⟨2, by decide⟩ 1024))),
      (.ofMillis 40000, .broker (.avoidDeadlock (.ofMillis 40000))),
      (.ofMillis 40001, .broker (.release ⟨3, by decide⟩ ⟨8, by decide⟩ false)),
      (.ofMillis 40002, .care .stop)]
    let b := after (Tier.connector ScriptedManager.connector Desk.hundreds.mint)
      (opsOf ScriptedManager.connector run) (supervised (.ofMillis 0) { backoffPercent := 100 }
        ⟨"queue"⟩ (.cached { inner := {}, cache := { policy := .never } }))
    (∃ c, b.control? = some c ∧ c.tally.backedOff =
        c.tally.resubmitted + c.tally.resubmissionsFailed + c.tally.waiting + 1) ∧
      ∃ t, b.desk.connector = .cached t ∧ t.cache.tally.inserted =
        t.cache.tally.size + t.cache.tally.hits + t.cache.tally.evicted +
          t.cache.tally.invalidated + 1 := by
  intro request run b
  have hrun : ∀ e ∈ run, e.2.Proper := by
    intro e he
    simp only [run, List.mem_cons, List.not_mem_nil, or_false] at he
    rcases he with rfl | rfl | rfl | rfl | rfl | rfl | rfl | rfl <;> simp [StackOp.Proper]
  have hnovel : Novel (Tier.connector ScriptedManager.connector Desk.hundreds.mint)
      (opsOf ScriptedManager.connector run) (supervised (.ofMillis 0) { backoffPercent := 100 }
        ⟨"queue"⟩ (.cached { inner := {}, cache := { policy := .never } })) := by
    refine ⟨nofun, fun id hid => ?_, nofun, nofun, fun id hid => ?_, nofun, nofun, nofun, trivial⟩
    · rw [← Option.some.inj hid]
      decide +kernel
    · rw [← Option.some.inj hid]
      decide +kernel
  obtain ⟨-, ⟨c, hc, -, hback⟩, t, ht, hcache⟩ := metrics_conserved (u := Desk.hundreds)
    ScriptedManager.connector_silent { backoffPercent := 100 } .never ⟨"queue"⟩ {} (.ofMillis 0)
    hrun hnovel
  have hgone : givenUp ScriptedManager.connector Desk.hundreds.mint run (supervised (.ofMillis 0)
      { backoffPercent := 100 } ⟨"queue"⟩
      (.cached { inner := {}, cache := { policy := .never } })) = 1 := by decide +kernel
  have hdrained : drained ScriptedManager.connector Desk.hundreds.mint run (supervised (.ofMillis 0)
      { backoffPercent := 100 } ⟨"queue"⟩
      (.cached { inner := {}, cache := { policy := .never } })) = 1 := by decide +kernel
  have hdrawn : (b.desk.connector.cached?.all fun t => decide (t.drawn ≤ 4)) = true := by
    decide +kernel
  rw [show b.desk.connector = .cached t from ht] at hdrawn
  rw [hgone] at hback
  rw [hdrained] at hcache
  exact ⟨⟨c, hc, hback⟩, t, ht, (hcache (of_decide_eq_true hdrawn)).2⟩

end Broker

end ClusterBroker
