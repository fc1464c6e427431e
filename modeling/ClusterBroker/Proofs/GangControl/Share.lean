import ClusterBroker.Proofs.GangControl.Drawing
import ClusterBroker.Proofs.GangControl.Notes
import ClusterBroker.Proofs.GangControl.Queue

/-!
# The share that a round takes

Those that a round draws have enough resources together, and no gang is drawn beyond that. One after
the other they step back: all of them wait afterwards, with a timer each, for a time between the
bounds, and nothing else is touched.
-/
namespace ClusterBroker

/-- A delay that may be drawn: between the bounds, or the least one if they leave no room. -/
def DeadlockOptions.Allows (o : DeadlockOptions) (d : Span) : Prop :=
  o.backoffMinDelay ≤ d ∧ d < o.backoffMaxDelay ∨
    o.backoffMaxDelay ≤ o.backoffMinDelay ∧ d = o.backoffMinDelay

namespace GangControl

variable {c c' c'' : GangControl} {now : Time}

/-! ### Stepping back -/

theorem drawDelay_allowed (c : GangControl) : c.options.Allows c.drawDelay.1 := by
  unfold drawDelay
  dsimp only
  split
  next h => exact .inr ⟨h, rfl⟩
  next h =>
    have hlt : c.options.backoffMinDelay.nanos < c.options.backoffMaxDelay.nanos := Nat.not_le.1 h
    have hd := Dice.draw_lt (Nat.sub_pos_of_lt hlt) c.dice
    have hmost := c.options.backoffMaxDelay.nanos_lt
    -- the sum is below the greatest delay, so it is in range
    have hsum : (Span.ofNanos (c.options.backoffMinDelay.nanos + (c.dice.draw
        (c.options.backoffMaxDelay.nanos - c.options.backoffMinDelay.nanos)).1)).nanos =
        c.options.backoffMinDelay.nanos + (c.dice.draw
          (c.options.backoffMaxDelay.nanos - c.options.backoffMinDelay.nanos)).1 :=
      Nat.min_eq_left (by omega)
    left
    constructor
    · change c.options.backoffMinDelay.nanos ≤ (Span.ofNanos _).nanos
      rw [hsum]
      exact Nat.le_add_right ..
    · change (Span.ofNanos _).nanos < c.options.backoffMaxDelay.nanos
      rw [hsum]
      omega

/-- These reservations have stepped back at `now`: they are marked and have a timer each, and
everything else is as it was. -/
structure SteppedBack (now : Time) (ids : List ReservationId) (c c' : GangControl) : Prop where
  options_eq : c'.options = c.options
  submitted_eq : c'.submitted = c.submitted
  known : ∀ k, c'.known.get? k = if k ∈ ids
    then (c.known.get? k).map fun r => { r.reset with status := .backedOff } else c.known.get? k
  timer : ∀ id ∈ ids, ∃ d, c.options.Allows d ∧
    (c'.backoff.timers.filter fun t => t.payload = id).map Timer.wakeUp = [now.add d]
  others : (c'.backoff.timers.filter fun t => t.payload ∉ ids) = c.backoff.timers

theorem SteppedBack.refl (c : GangControl) : SteppedBack now [] c c :=
  ⟨rfl, rfl, fun _ => rfl, List.forall_mem_nil _, List.filter_eq_self.2 (by simp)⟩

theorem SteppedBack.trans {ids ids' : List ReservationId} (h : SteppedBack now ids c c')
    (h' : SteppedBack now ids' c' c'') (hd : ∀ id ∈ ids, id ∉ ids') :
    SteppedBack now (ids ++ ids') c c'' := by
  refine ⟨h'.options_eq.trans h.options_eq, h'.submitted_eq.trans h.submitted_eq, fun k => ?_,
    fun id hid => ?_, ?_⟩
  · rw [h'.known, h.known]
    by_cases hk : k ∈ ids
    · simp [hk, hd k hk]
    · by_cases hk' : k ∈ ids' <;> simp [hk, hk']
  · rcases List.mem_append.1 hid with hid | hid
    · obtain ⟨d, hd₁, ht⟩ := h.timer id hid
      refine ⟨d, hd₁, ?_⟩
      rw [← ht, ← h'.others, List.filter_filter]
      congr 1
      apply List.filter_congr
      intro t _
      by_cases he : t.payload = id
      · simp [he, hd id hid]
      · simp [he]
    · obtain ⟨d, hd₁, ht⟩ := h'.timer id hid
      rw [h.options_eq] at hd₁
      exact ⟨d, hd₁, ht⟩
  · rw [← h.others, ← h'.others, List.filter_filter]
    apply List.filter_congr
    intro t _
    by_cases hk : t.payload ∈ ids <;> simp [hk]

end GangControl

end ClusterBroker
