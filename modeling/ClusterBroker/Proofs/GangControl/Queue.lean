import ClusterBroker.Proofs.DelayQueue.Order
import ClusterBroker.Proofs.GangControl.Books

/-!
# The timers of the controller

Striking reservations out takes their timers away and leaves the others as they lie; drawing a delay
leaves all of them; waking up takes those that are due.
-/
namespace ClusterBroker

namespace DelayQueue

variable {α : Type}

theorem filter_eq_self {q : DelayQueue α} {p : α → Bool} (h : ∀ a ∈ q.payloads, p a = true) :
    q.filter p = q := by
  have ht : (q.timers.filter fun t => p t.payload) = q.timers :=
    List.filter_eq_self.2 fun t ht => h t.payload (List.mem_map_of_mem ht)
  unfold filter
  rw [ht]

theorem filter_filter (q : DelayQueue α) (p p' : α → Bool) :
    (q.filter p).filter p' = q.filter fun a => p' a && p a := by
  unfold filter
  dsimp only
  rw [List.filter_filter]

end DelayQueue

namespace GangControl

variable {c : GangControl}

theorem forget_backoff (id : ReservationId) (c : GangControl) :
    (c.forget id).2.backoff = c.backoff ∨
    (c.forget id).2.backoff = c.backoff.filter fun k => k ≠ id := by
  unfold forget
  dsimp only
  split
  next => exact .inl rfl
  next =>
    split
    · exact .inr rfl
    · exact .inl rfl

theorem drawDelay_backoff (c : GangControl) : c.drawDelay.2.backoff = c.backoff := by
  obtain ⟨d, hd⟩ := drawDelay_eq c
  rw [hd]

theorem go_backoff (ids : List ReservationId) (c : GangControl) :
    (wake.go ids c).2.backoff = c.backoff := by
  induction ids generalizing c with
  | nil => rfl
  | cons id ids ih =>
    unfold wake.go
    split
    next => exact ih c
    next r _ => exact ih (c.submit r.reset)

theorem wake_backoff (now : Time) (c : GangControl) :
    (c.wake now).2.backoff = (c.backoff.drain now).2 := go_backoff _ _

/-! ### Striking out -/

/-- A timer is taken away with the reservation that it is for. -/
theorem Tidy.forget_backoff (h : c.Tidy) (id : ReservationId) :
    (c.forget id).2.backoff = c.backoff.filter fun k => k ≠ id := by
  have hw := (forget_struck h id).waiting
  rcases GangControl.forget_backoff id c with he | he
  · rw [he, DelayQueue.filter_eq_self]
    intro k hk
    have hwait : (c.forget id).2.waiting = c.waiting := congrArg DelayQueue.payloads he
    have hmem : k ∈ (c.forget id).2.waiting := hwait ▸ hk
    rw [hw, List.mem_filter] at hmem
    simpa using hmem.2
  · exact he

theorem Tidy.forgetAll_backoff (h : c.Tidy) (ids : List ReservationId) :
    (forgetAll ids c).2.backoff = c.backoff.filter fun k => k ∉ ids := by
  induction ids generalizing c with
  | nil =>
    refine (DelayQueue.filter_eq_self ?_).symm
    simp
  | cons id ids ih =>
    have hnext := ih ((forget_struck h id).tidy h)
    rw [h.forget_backoff, DelayQueue.filter_filter] at hnext
    refine hnext.trans ?_
    congr 1
    funext k
    simp [Bool.and_comm]

theorem Tidy.learn_backoff (h : c.Tidy) (clock : Time) (e : Event) :
    (c.learn clock e).backoff = c.backoff.filter fun k => k ∉ e.settled := by
  unfold learn
  dsimp only
  split
  · exact Tidy.forgetAll_backoff (c := { c with lastAllocation := clock }) h _
  · exact h.forgetAll_backoff _

theorem Tidy.foldl_learn_backoff (h : c.Tidy) (clock : Time) (es : List Event) :
    (es.foldl (fun c e => c.learn clock e) c).backoff =
      c.backoff.filter fun k => k ∉ settledIn es := by
  induction es generalizing c with
  | nil =>
    refine (DelayQueue.filter_eq_self ?_).symm
    simp
  | cons e es ih =>
    have hnext := ih ((learn_struck h clock e).tidy h)
    rw [h.learn_backoff, DelayQueue.filter_filter] at hnext
    refine hnext.trans ?_
    congr 1
    funext k
    simp [settledIn_cons, Bool.and_comm]

end GangControl

end ClusterBroker
