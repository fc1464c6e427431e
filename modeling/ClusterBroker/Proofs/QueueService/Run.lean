import ClusterBroker.Proofs.QueueService.Apart
import ClusterBroker.QueueService

/-!
# Runs of a service

A run of a service is a list of operations, each at its own reading of the clock: something is
asked of the broker or done to its connector, the registry is called past the supervisor, or time
passes and the background work that falls due is done. Whatever the options and whatever the
connector does, a service that was started serves, and as long as clients keep off the ids of the
supply, what it tracks and what it caches go by different ids.
-/
namespace ClusterBroker.QueueService

variable {σ : Type}

inductive Op (σ : Type) where
  | call (op : Broker.Op (Tier σ))
  /-- The registry is called, past the supervisor. -/
  | direct (o : Desk.Op (Tier σ))
  | sleep (millis : Nat)

variable (C : Connector σ) (mint : Nat → ResourceId) (clock : Time)

def Op.run : Op σ → QueueService σ → QueueService σ
  | .call op, s => { s with broker := op.run (Tier.connector C mint) clock s.broker }
  | .direct o, s =>
    let a := o.run (Tier.connector C mint) clock s.broker.desk
    { s with broker := s.broker.follow clock a.2 a.1 }
  | .sleep millis, s => s.sleep C mint clock millis

/-- Clients keep off the ids of the supply, and the connector changes by care only. -/
def Op.Heeds (u : Supply) : Op σ → Prop
  | .call op => op.Heeds C u clock
  | .direct o => o.Heeds C u clock
  | .sleep _ => True

/-- The service after a run. -/
def after (run : List (Time × Op σ)) (s : QueueService σ) : QueueService σ :=
  run.foldl (fun s e => e.2.run C mint e.1 s) s

/-- The service is up, and its two kinds of ids are apart. -/
structure Serving (u : Supply) (s : QueueService σ) : Prop where
  apart : s.broker.Apart u
  up : s.down = false

variable {C clock} {u : Supply} {s : QueueService σ}

/-! ### Background work -/

theorem Serving.sweep (h : s.Serving u) : (s.sweep C clock).Serving u := by
  have hop : Broker.Op.Heeds C u clock (.tend (Tier.Care.evict.act C clock)) := ⟨.evict, rfl⟩
  exact ⟨h.apart.run clock hop, h.up⟩

theorem Serving.turn (h : s.Serving u) : (s.turn (Tier.connector C u.mint) clock).Serving u := by
  have hop : Broker.Op.Heeds C u clock .turn := trivial
  exact ⟨h.apart.run clock hop, h.up⟩

theorem Serving.runUntil (h : s.Serving u) (target n : Nat) :
    (runUntil C u.mint clock target n s).Serving u := by
  induction n generalizing s with
  | zero => exact h
  | succ n ih =>
    unfold QueueService.runUntil
    split
    next => exact h
    next due _ =>
      split
      next => exact ih (Serving.sweep (s := { s with elapsed := due }) ⟨h.apart, h.up⟩)
      next => exact h
    next due _ =>
      split
      next => exact ih (Serving.turn (s := { s with elapsed := due }) ⟨h.apart, h.up⟩)
      next => exact h

/-! ### A whole run -/

theorem Op.run_serving (h : s.Serving u) {op : Op σ} (hop : op.Heeds C clock u) :
    (op.run C u.mint clock s).Serving u := by
  cases op with
  | call op => exact ⟨h.apart.run clock hop, h.up⟩
  | direct o => exact ⟨h.apart.follow clock hop, h.up⟩
  | sleep millis =>
    have hall : (QueueService.runUntil C u.mint clock (s.elapsed + millis) (2 * millis)
      s).Serving u := h.runUntil _ _
    exact ⟨hall.apart, hall.up⟩

theorem after_serving (h : s.Serving u) {run : List (Time × Op σ)}
    (hrun : ∀ e ∈ run, e.2.Heeds C e.1 u) : (after C u.mint run s).Serving u := by
  induction run generalizing s with
  | nil => exact h
  | cons e run ih =>
    obtain ⟨hop, hrest⟩ := List.forall_mem_cons.1 hrun
    exact ih (Op.run_serving h hop) hrest

/-! ### Start -/

theorem opened_apart (o : BrokerOptions) (inner : σ) :
    (Broker.ofDesk (Desk.opened o.queue (Tier.ofOptions o.cache inner))).Apart u := by
  refine ⟨⟨Ledger.sound_empty, Ledger.goesBy_empty _, ?_⟩, nofun⟩
  change (Tier.ofOptions o.cache inner).Every _
  unfold Tier.ofOptions
  split
  next => exact Tier.Has.every ⟨_, rfl, Cache.minted_empty _ _ _⟩
  next => exact .plain _ _

theorem supervise_apart {b : Broker (Tier σ)} (h : b.Apart u) (o : DeadlockOptions)
    (clock : Time) : (b.supervise o clock).Apart u := by
  refine ⟨h.desk, fun c hc id r hr => ?_⟩
  rw [← Option.some.inj hc] at hr
  simp at hr

/-- Whatever parts the options switch on, what starts serves. -/
theorem start_serving {o : BrokerOptions} {inner : σ} (h : start C u.mint clock o inner = .ok s) :
    s.Serving u := by
  have hop : Broker.Op.Heeds C u clock .start := trivial
  have hstart := (opened_apart (u := u) o inner).run clock hop
  unfold start at h
  split at h
  next => simp at h
  next =>
    dsimp only at h
    split at h
    next => simp at h
    next =>
      obtain rfl := Except.ok.inj h
      split
      next => exact Serving.turn ⟨supervise_apart hstart _ clock, rfl⟩
      next => exact ⟨hstart, rfl⟩

end ClusterBroker.QueueService
