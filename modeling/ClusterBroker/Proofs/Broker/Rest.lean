import ClusterBroker.Proofs.Broker.Resting
import ClusterBroker.Proofs.GangControl.Share
import ClusterBroker.ScriptedManager

/-!
# How long the supervisor rests

After a turn the supervisor rests, and not too long: it is back when the first gang wakes up and
when a round might begin. It does rest, since nothing that is due is left in the queue. Points in
time are whole milliseconds and spans are nanoseconds, so the sums are made in nanoseconds here.
-/
namespace ClusterBroker

open GangControl (Settles)

namespace Time

/-- Nanoseconds since the epoch. -/
def nanos (t : Time) : Nat := t.millis * 1000000

variable {t u : Time} {d e : Span}

theorem nanos_since (t u : Time) : (t.since u).nanos = t.nanos - u.nanos :=
  Nat.sub_mul t.millis u.millis 1000000

theorem nanos_lt (h : t < u) : t.nanos < u.nanos := by
  have hm : t.millis < u.millis := h
  unfold nanos
  omega

/-- A point later by a span is rounded down and kept in range, so it is no later than the sum. -/
theorem add_le (h : t.nanos + d.nanos ≤ u.nanos) : t.add d ≤ u := by
  change Nat.min (t.millis + d.nanos / 1000000) (wordRange - 1) ≤ u.millis
  unfold nanos at h
  exact Nat.le_trans (Nat.min_le_left ..) (by omega)

theorem add_le_add (h : t.nanos + d.nanos ≤ u.nanos + e.nanos) : t.add d ≤ u.add e := by
  change Nat.min (t.millis + d.nanos / 1000000) (wordRange - 1) ≤
    Nat.min (u.millis + e.nanos / 1000000) (wordRange - 1)
  unfold nanos at h
  exact Nat.le_min.2 ⟨Nat.le_trans (Nat.min_le_left ..) (by omega), Nat.min_le_right ..⟩

end Time

theorem Span.min_eq_or (a b : Span) : a.min b = a ∨ a.min b = b := by
  unfold Span.min
  split
  · exact .inl rfl
  · exact .inr rfl

theorem Span.min_le (a b : Span) : a.min b ≤ a ∧ a.min b ≤ b := by
  unfold Span.min
  split
  next h => exact ⟨Nat.le_refl _, h⟩
  next h => exact ⟨Nat.le_of_lt (Nat.not_le.1 h), Nat.le_refl _⟩

namespace GangControl

/-- What placing leaves as it is: the options, and the timers that are left. The wait for an
allocation may start over. -/
structure Rests (clock : Time) (c c' : GangControl) : Prop where
  options_eq : c'.options = c.options
  lastAllocation : c'.lastAllocation = c.lastAllocation ∨ c'.lastAllocation = clock
  timers : ∀ t ∈ c'.backoff.timers, t ∈ c.backoff.timers

theorem settles_rests (clock : Time) (c : GangControl) : Settles clock (Rests clock c) := by
  refine ⟨fun h => ⟨h.options_eq, .inr rfl, h.timers⟩, fun {c'} id h => ?_, fun {c'} ok h => ?_⟩
  · have hq := forget_quiet id c'
    refine ⟨hq.options_eq.trans h.options_eq, ?_, fun t ht => h.timers t ?_⟩
    · rw [hq.lastAllocation_eq]
      exact h.lastAllocation
    · rcases forget_backoff id c' with he | he
      · rwa [he] at ht
      · rw [he] at ht
        exact List.mem_of_mem_filter ht
  · cases ok with
    | true => exact ⟨h.options_eq, h.lastAllocation, h.timers⟩
    | false => exact ⟨h.options_eq, h.lastAllocation, h.timers⟩

end GangControl

namespace Broker

variable {σ : Type} (C : Connector σ) (clock now : Time) {b : Broker σ} {c c' : GangControl}

/-! ### A round or none -/

/-- What is left of the limit is told exactly. -/
theorem avoidDeadlock_waits (hc : b.control? = some c)
    (he : clock.since c.lastAllocation < c.options.noAllocationLimit) : ∃ rest,
      b.avoidDeadlock C clock clock = (some rest, b) ∧
      rest.nanos + (clock.since c.lastAllocation).nanos = c.options.noAllocationLimit.nanos := by
  unfold avoidDeadlock
  rw [hc]
  dsimp only
  rw [if_pos he]
  exact ⟨_, rfl, Nat.sub_add_cancel (Nat.le_of_lt he)⟩

/-- The supervisor would be back when the limit is reached. -/
theorem avoidDeadlock_rest (hc : b.control? = some c)
    (hlimit : 0 < c.options.noAllocationLimit.nanos) : ∃ rest,
      (b.avoidDeadlock C clock clock).1 = some rest ∧ 0 < rest.nanos ∧
      rest ≤ c.options.noAllocationLimit ∧
      ∀ c', (b.avoidDeadlock C clock clock).2.control? = some c' →
        clock.nanos + rest.nanos ≤ c'.lastAllocation.nanos + c.options.noAllocationLimit.nanos := by
  by_cases he : clock.since c.lastAllocation < c.options.noAllocationLimit
  · obtain ⟨rest, ha, hrest⟩ := avoidDeadlock_waits C clock hc he
    have hlt : (clock.since c.lastAllocation).nanos < c.options.noAllocationLimit.nanos := he
    rw [ha]
    refine ⟨rest, rfl, by omega, ?_, fun c' hc' => ?_⟩
    · exact (show rest.nanos ≤ c.options.noAllocationLimit.nanos by omega)
    · obtain rfl := Option.some.inj (hc.symm.trans hc')
      rw [Time.nanos_since] at hrest
      omega
  · have ha : b.avoidDeadlock C clock clock =
        (some c.options.noAllocationLimit, b.backOffRound C clock clock c) := by
      unfold avoidDeadlock
      rw [hc]
      exact if_neg he
    rw [ha]
    refine ⟨_, rfl, hlimit, Nat.le_refl _, ?_⟩
    -- the wait for an allocation starts over at the end of a round
    have hround : (b.backOffRound C clock clock c).Controls fun c' => c'.lastAllocation = clock :=
      .modifyControl fun _ _ => rfl
    intro c' hc'
    exact Nat.add_le_add_right (Nat.le_of_eq (congrArg Time.nanos (hround c' hc').symm)) _

/-! ### Second chances -/

/-- What is left in the queue when gangs were placed again is not due yet. -/
theorem retry_rest (hc : b.control? = some c) :
    (b.retry C clock now).2.Controls fun c' => c'.options = c.options ∧
      (c'.lastAllocation = c.lastAllocation ∨ c'.lastAllocation = clock) ∧
      ∀ t ∈ c'.backoff.timers, now < t.wakeUp := by
  have hall : (b.retry C clock now).2.Controls (GangControl.Rests clock (c.wake now).2) := by
    unfold retry
    rw [hc]
    exact Controls.placeAgains C clock (GangControl.settles_rests clock _)
      (.modifyControl fun _ _ => ⟨rfl, .inl rfl, fun _ ht => ht⟩) _
  have hquiet := GangControl.wake_quiet now c
  intro c' hc'
  obtain ⟨ho, hl, ht⟩ := hall c' hc'
  refine ⟨ho.trans hquiet.options_eq, ?_, fun t hmem => ?_⟩
  · rwa [hquiet.lastAllocation_eq] at hl
  · have hleft := ht t hmem
    rw [GangControl.wake_backoff, DelayQueue.drain_left] at hleft
    exact of_decide_eq_true (List.mem_filter.1 hleft).2

/-- The answer is about the queue as it is left. -/
theorem retry_answer (hc' : (b.retry C clock now).2.control? = some c') : ∃ c,
    b.control? = some c ∧ (b.retry C clock now).1 = c'.backoff.untilNext? clock := by
  unfold retry at hc' ⊢
  cases hc : b.control? with
  | none =>
    rw [hc] at hc'
    dsimp only at hc'
    rw [hc] at hc'
    simp at hc'
  | some c =>
    rw [hc] at hc'
    dsimp only at hc' ⊢
    rw [hc']
    exact ⟨c, rfl, rfl⟩

/-! ### A whole turn -/

/-- How long the supervisor rests after a turn, and why that is right: what is left in its queue
wakes up later, but not before the next turn, and the next turn is not later than a round might
begin. -/
structure RestsInTime (clock : Time) (limit d : Span) (c' : GangControl) : Prop where
  positive : 0 < d.nanos
  le_limit : d ≤ limit
  not_due : ∀ t ∈ c'.backoff.timers, clock < t.wakeUp
  before_timers : ∀ t ∈ c'.backoff.timers,
    clock.nanos + d.nanos ≤ t.wakeUp.nanos ∧ clock.add d ≤ t.wakeUp
  before_limit : clock.nanos + d.nanos ≤ c'.lastAllocation.nanos + limit.nanos ∧
    clock.add d ≤ c'.lastAllocation.add limit

theorem RestsInTime.of_nanos {limit d : Span} (hpos : 0 < d.nanos) (hle : d ≤ limit)
    (hdue : ∀ t ∈ c'.backoff.timers, clock < t.wakeUp)
    (htimers : ∀ t ∈ c'.backoff.timers, clock.nanos + d.nanos ≤ t.wakeUp.nanos)
    (hlimit : clock.nanos + d.nanos ≤ c'.lastAllocation.nanos + limit.nanos) :
    RestsInTime clock limit d c' :=
  ⟨hpos, hle, hdue, fun t ht => ⟨htimers t ht, Time.add_le (htimers t ht)⟩, hlimit,
    Time.add_le_add hlimit⟩

theorem supervisionTurn_rests (hc : b.control? = some c)
    (hlimit : 0 < c.options.noAllocationLimit.nanos)
    (hc' : (b.supervisionTurn C clock).2.control? = some c') : ∃ d,
      (b.supervisionTurn C clock).1 = some d ∧
        RestsInTime clock c.options.noAllocationLimit d c' := by
  obtain ⟨rest, ha, hpos, hle, hround⟩ := avoidDeadlock_rest C clock hc hlimit
  obtain ⟨c₁, hc₁, hnext⟩ := retry_answer C clock clock hc'
  obtain ⟨-, hlast, hdue⟩ := retry_rest C clock clock hc₁ c' hc'
  -- an allocation heard of meanwhile only moves the limit away
  have hrest : clock.nanos + rest.nanos ≤
      c'.lastAllocation.nanos + c.options.noAllocationLimit.nanos := by
    rcases hlast with he | he
    · rw [he]
      exact hround c₁ hc₁
    · have hn : rest.nanos ≤ c.options.noAllocationLimit.nanos := hle
      rw [he]
      omega
  unfold supervisionTurn
  dsimp only
  rw [ha, hnext]
  cases hw : c'.backoff.nextWakeUp? with
  | none =>
    have hnil := DelayQueue.nextWakeUp?_eq_none.1 hw
    refine ⟨rest, by simp [DelayQueue.untilNext?, hw], .of_nanos clock hpos hle hdue ?_ hrest⟩
    simp [hnil]
  | some t =>
    obtain ⟨⟨u, hu, hut⟩, hleast⟩ := DelayQueue.nextWakeUp?_some hw
    have hlt := Time.nanos_lt (hdue u hu)
    rw [hut] at hlt
    have hsince := Time.nanos_since t clock
    obtain ⟨hmin, hmin'⟩ := Span.min_le rest (t.since clock)
    have hmin : (rest.min (t.since clock)).nanos ≤ rest.nanos := hmin
    have hmin' : (rest.min (t.since clock)).nanos ≤ (t.since clock).nanos := hmin'
    refine ⟨rest.min (t.since clock), by simp [DelayQueue.untilNext?, hw], .of_nanos clock ?_
      (Nat.le_trans hmin hle) hdue (fun v hv => ?_) (by omega)⟩
    · rcases Span.min_eq_or rest (t.since clock) with he | he
      · rw [he]
        exact hpos
      · rw [he]
        omega
    · have htv : t.nanos ≤ v.wakeUp.nanos := Nat.mul_le_mul_right 1000000 (hleast v hv)
      omega

/-- After any run and at any reading of the clock, also one before the last allocation, the
supervisor rests in time after a turn. Nothing is subtracted from less on the way: what is left of
the limit is told exactly, and whatever delay is drawn is within its bounds. -/
theorem turn_rests_in_time (opened : Time) {o : DeadlockOptions}
    (hlimit : 0 < o.noAllocationLimit.nanos) (queue : QueueName) (state : σ)
    (run : List (Time × Op σ)) :
    let b := after C run (supervised opened o queue state)
    ∃ c d c', b.control? = some c ∧ (b.supervisionTurn C clock).1 = some d ∧
      (b.supervisionTurn C clock).2.control? = some c' ∧
      RestsInTime clock o.noAllocationLimit d c' ∧
      (clock.since c.lastAllocation < o.noAllocationLimit → ∃ rest,
        b.avoidDeadlock C clock clock = (some rest, b) ∧
        rest.nanos + (clock.since c.lastAllocation).nanos = o.noAllocationLimit.nanos) ∧
      ∀ k : GangControl, k.options = o → o.Allows k.drawDelay.1 := by
  intro b
  obtain ⟨s, h⟩ := after_resting C opened o queue state run
  obtain ⟨s', h'⟩ := after_resting C opened o queue state (run ++ [(clock, .turn)])
  rw [after_append] at h'
  have hc' : (b.supervisionTurn C clock).2.control? = some s'.control := h'.control?
  have hlimit' : 0 < s.control.options.noAllocationLimit.nanos := by
    rw [h.options_eq]
    exact hlimit
  obtain ⟨d, hd, hrest⟩ := supervisionTurn_rests C clock h.control? hlimit' hc'
  rw [h.options_eq] at hrest
  refine ⟨s.control, d, s'.control, h.control?, hd, hc', hrest, fun he => ?_, fun k hk => ?_⟩
  · rw [← h.options_eq] at he ⊢
    exact avoidDeadlock_waits C clock h.control? he
  · rw [← hk]
    exact k.drawDelay_allowed

/-- One of two gangs steps back, and the supervisor rests until it wakes up. -/
theorem turn_rests_until_wake_up :
    let o : DeadlockOptions := { backoffPercent := 50 }
    let ask := fun n : Nat => fun h : n < idRange =>
      ([⟨⟨n, h⟩, ⟨"node"⟩, .dontCare, 1, 512⟩] : List Ask)
    let run : List (Time × Op ScriptedManager) := [
      (.ofMillis 0, .start),
      (.ofMillis 1, .reserve ⟨7, by decide⟩ ⟨⟨3, by decide⟩, ⟨"queue"⟩, true, ask 1 (by decide)⟩),
      (.ofMillis 2, .reserve ⟨8, by decide⟩ ⟨⟨3, by decide⟩, ⟨"queue"⟩, true, ask 2 (by decide)⟩)]
    let b := after ScriptedManager.connector run (supervised (.ofMillis 0) o ⟨"queue"⟩ {})
    let turn := b.supervisionTurn ScriptedManager.connector (.ofMillis 40000)
    0 < o.noAllocationLimit.nanos ∧ turn.1 = some (.ofSecs 10) ∧
      ∃ c', turn.2.control? = some c' ∧ c'.backoff.toList = [(.ofMillis 50000, ⟨7, by decide⟩)] ∧
        RestsInTime (.ofMillis 40000) o.noAllocationLimit (.ofSecs 10) c' := by
  intro o ask run b turn
  have hlimit : 0 < o.noAllocationLimit.nanos := by decide
  obtain ⟨c, d, c', -, hd, hc', hrest, -⟩ := turn_rests_in_time ScriptedManager.connector
    (.ofMillis 40000) (.ofMillis 0) hlimit ⟨"queue"⟩ {} run
  have hrun : turn.1 = some (.ofSecs 10) ∧ (turn.2.control?.map fun c => c.backoff.toList) =
      some [(.ofMillis 50000, ⟨7, by decide⟩)] := by decide +kernel
  have hd : turn.1 = some d := hd
  have hc' : turn.2.control? = some c' := hc'
  rw [hd, hc'] at hrun
  obtain ⟨he, hb⟩ := hrun
  rw [Option.some.inj he] at hrest hd
  exact ⟨hlimit, hd, c', hc', Option.some.inj hb, hrest⟩

end Broker

end ClusterBroker
