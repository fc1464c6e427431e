import ClusterBroker.Proofs.Broker.Standing
import ClusterBroker.Proofs.GangControl.Share

/-!
# Progress and rounds

A round begins when nothing was heard of an allocation for too long. What is heard of a gang is
that it is complete; that it got one of its resources is not heard. So the wait for an allocation
starts over when a batch completes a gang, and when a round ends, and at no other time: a gang
that gets one resource after the other is not spared.
-/
namespace ClusterBroker

theorem Time.since_le_since {t u : Time} (h : u ≤ t) (now : Time) : now.since t ≤ now.since u := by
  change (now.millis - t.millis) * 1000000 ≤ (now.millis - u.millis) * 1000000
  have hm : u.millis ≤ t.millis := h
  omega

namespace Broker

variable {σ : Type} (C : Connector σ) (clock now : Time) {b : Broker σ} {s : Supervisor}

/-- When the wait for an allocation last started over: a batch completed a gang then, or a round
ended. -/
def lastProgress (limit : Span) : List (Time × Op σ) → Broker σ → Time → Time
  | [], _, t => t
  | e :: run, b, t => lastProgress limit run (e.2.run C e.1 b)
      (if e.2.completes C e.1 b || e.2.endsRound limit e.1 t then e.1 else t)

/-- When the operations of a run completed a gang. -/
def completions : List (Time × Op σ) → Broker σ → List Time
  | [], _ => []
  | e :: run, b =>
    (if e.2.completes C e.1 b then [e.1] else []) ++ completions run (e.2.run C e.1 b)

theorem le_lastProgress {limit : Span} {run : List (Time × Op σ)} {t u : Time}
    (hrun : ∀ e ∈ run, u ≤ e.1) (ht : u ≤ t) (b : Broker σ) : u ≤ lastProgress C limit run b t := by
  induction run generalizing t b with
  | nil => exact ht
  | cons e run ih =>
    obtain ⟨he, hrest⟩ := List.forall_mem_cons.1 hrun
    unfold lastProgress
    refine ih hrest ?_ _
    split
    · exact he
    · exact ht

/-- On a clock that is never set back no completed gang is later than the last progress. -/
theorem completion_le_lastProgress (limit : Span) {run : List (Time × Op σ)}
    (hrun : run.Pairwise fun e e' => e.1 ≤ e'.1) {u : Time} (hu : u ∈ completions C run b)
    (t : Time) : u ≤ lastProgress C limit run b t := by
  induction run generalizing t b with
  | nil => simp [completions] at hu
  | cons e run ih =>
    obtain ⟨hlater, hrest⟩ := List.pairwise_cons.1 hrun
    unfold completions at hu
    unfold lastProgress
    rcases List.mem_append.1 hu with hu | hu
    · split at hu
      next hc =>
        rw [hc, List.mem_singleton.1 hu]
        exact le_lastProgress C hlater (Nat.le_refl _) _
      next => simp at hu
    · exact ih hrest hu _

/-- After a run the controller has noted the last progress. -/
theorem after_progress {run : List (Time × Op σ)} (h : Stands b s []) (hrun : Novel C run b) :
    ∃ s', Stands (after C run b) s' [] ∧ s'.control.options = s.control.options ∧
      s'.control.lastAllocation = lastProgress C s.control.options.noAllocationLimit run b
        s.control.lastAllocation := by
  induction run generalizing b s with
  | nil => exact ⟨s, h, rfl, rfl⟩
  | cons e run ih =>
    obtain ⟨hop, hrest⟩ := hrun
    obtain ⟨s₁, h₁⟩ := Op.run_stands C e.1 h hop
    obtain ⟨c, c₁, hc, hc₁, hn⟩ := Op.run_noted C e.1 h hop
    rw [h.manned.control?] at hc
    rw [h₁.manned.control?] at hc₁
    obtain rfl := Option.some.inj hc
    obtain rfl := Option.some.inj hc₁
    obtain ⟨s₂, h₂, ho, hl⟩ := ih h₁ hrest
    refine ⟨s₂, h₂, ho.trans hn.options_eq, ?_⟩
    rw [hl, hn.options_eq, hn.lastAllocation_eq]
    rfl

/-- After any run, stopped or not: as long as the last progress is less than the limit ago nothing
happens, and after that a round begins, which takes someone exactly if the submitted gangs have
enough resources for a share. On a clock that is never set back no round begins within the limit
after a batch that completed a gang. -/
theorem starvation_begins_round (o : DeadlockOptions) (queue : QueueName) (s : σ) (opened : Time)
    {run : List (Time × Op σ)} (hrun : Novel C run (supervised opened o queue s)) :
    let start := supervised opened o queue s
    let b := after C run start
    let last := lastProgress C o.noAllocationLimit run start opened
    ∃ c, b.control? = some c ∧
      (now.since last < o.noAllocationLimit →
        b.avoidDeadlock C clock now = (some (o.noAllocationLimit.sub (now.since last)), b)) ∧
      (o.noAllocationLimit ≤ now.since last →
        b.avoidDeadlock C clock now = (some o.noAllocationLimit, b.backOffRound C clock now c) ∧
          (c.pickVictims.1 ≠ [] ↔ 0 < c.target)) ∧
      ((run.Pairwise fun e e' => e.1 ≤ e'.1) →
        ∀ u ∈ completions C run start, now.since u < o.noAllocationLimit →
          (b.avoidDeadlock C clock now).2 = b) := by
  intro start b last
  obtain ⟨s', h, ho, hl⟩ := after_progress C (.serving (supervised_at opened o queue s)) hrun
  have hc : b.control? = some s'.control := h.manned.control?
  have hopt : s'.control.options = o := ho
  have hlast : s'.control.lastAllocation = last := hl
  have hwait : now.since last < o.noAllocationLimit →
      b.avoidDeadlock C clock now = (some (o.noAllocationLimit.sub (now.since last)), b) := by
    intro hlt
    unfold avoidDeadlock
    rw [hc]
    dsimp only
    rw [hopt, hlast, if_pos hlt]
  refine ⟨s'.control, hc, hwait, fun hle => ⟨?_, h.neat.pickVictims_ne_nil⟩,
    fun hmono u hu hlt => ?_⟩
  · have hn : ¬ now.since last < o.noAllocationLimit := Nat.not_lt.2 hle
    unfold avoidDeadlock
    rw [hc]
    dsimp only
    rw [hopt, hlast, if_neg hn]
  · have hle := completion_le_lastProgress C o.noAllocationLimit hmono hu opened
    rw [hwait (Nat.lt_of_le_of_lt (Time.since_le_since hle now) hlt)]

/-- One gang is complete after twenty seconds, another one is not: no round fifteen seconds
later. -/
theorem starvation_begins_round_spared :
    let request := fun n : Nat => fun h : n < idRange =>
      (⟨⟨3, by decide⟩, ⟨"queue"⟩, true, [⟨⟨n, h⟩, ⟨"node"⟩, .dontCare, 1, 512⟩]⟩ : Request)
    let run : List (Time × Op ScriptedManager) := [
      (.ofMillis 1, .reserve ⟨7, by decide⟩ (request 1 (by decide))),
      (.ofMillis 2, .reserve ⟨8, by decide⟩ (request 2 (by decide))),
      (.ofMillis 20000, .deliver [.allocated ⟨1, by decide⟩ ⟨1, 512, ⟨"node"⟩, ⟨"held"⟩⟩])]
    let b := after ScriptedManager.connector run
      (supervised (.ofMillis 0) { backoffPercent := 100 } ⟨"queue"⟩ {})
    (b.avoidDeadlock ScriptedManager.connector (.ofMillis 35000) (.ofMillis 35000)).2 = b := by
  intro request run b
  have hrun : Novel ScriptedManager.connector run
      (supervised (.ofMillis 0) { backoffPercent := 100 } ⟨"queue"⟩ {}) := by
    refine ⟨fun id hid => ?_, fun id hid => ?_, nofun, trivial⟩
    · rw [← Option.some.inj hid]
      decide +kernel
    · rw [← Option.some.inj hid]
      decide +kernel
  obtain ⟨c, hc, hwait, hround, hcomplete⟩ := starvation_begins_round ScriptedManager.connector
    (.ofMillis 35000) (.ofMillis 35000) { backoffPercent := 100 } ⟨"queue"⟩ {} (.ofMillis 0) hrun
  exact hcomplete (by decide +kernel) (.ofMillis 20000) (by decide +kernel) (by decide +kernel)

/-- A gang of two gets one of its resources after twenty seconds. The registry applies the
allocation, and the gang is still submitted; fifteen seconds later it has to step back, though the
limit is thirty seconds. -/
theorem round_despite_allocation :
    let request : Request := ⟨⟨3, by decide⟩, ⟨"queue"⟩, true,
      [⟨⟨1, by decide⟩, ⟨"node"⟩, .dontCare, 1, 512⟩,
        ⟨⟨2, by decide⟩, ⟨"node"⟩, .dontCare, 1, 512⟩]⟩
    let options : DeadlockOptions := { backoffPercent := 100 }
    let change : Change := .allocated ⟨1, by decide⟩ ⟨1, 512, ⟨"node"⟩, ⟨"held"⟩⟩
    let before := after ScriptedManager.connector
      [(.ofMillis 1, .reserve ⟨7, by decide⟩ request)]
      (supervised (.ofMillis 0) options ⟨"queue"⟩ {})
    let b := before.deliver ScriptedManager.connector (.ofMillis 20000) [change]
    let round := b.avoidDeadlock ScriptedManager.connector (.ofMillis 35000) (.ofMillis 35000)
    (before.registry.ledger.apply (.ofMillis 20000) change).2 ≠ none ∧
      (b.control?.map fun c => c.submitted.contains ⟨7, by decide⟩) = some true ∧
      (Time.ofMillis 35000).since (.ofMillis 20000) < options.noAllocationLimit ∧
      (b.control?.map fun c => c.pickVictims.1) = some [(⟨7, by decide⟩, ⟨3, by decide⟩)] ∧
      (round.2.control?.map fun c => c.tally.rounds) = some 1 ∧
      round.2.registry.get? ⟨7, by decide⟩ = none := by
  decide +kernel

end Broker

end ClusterBroker
