import Mathlib.Data.List.Perm.Basic
import ClusterBroker.DelayQueue

/-!
# The payloads of a delay queue

Taking timers out and putting them in, as far as payloads go. No operation loses or doubles one.
-/
namespace ClusterBroker.DelayQueue

variable {α : Type}

def payloads (q : DelayQueue α) : List α := q.timers.map Timer.payload

@[simp] theorem payloads_filter (q : DelayQueue α) (p : α → Bool) :
    (q.filter p).payloads = q.payloads.filter p := by
  unfold payloads filter
  rw [List.filter_map]
  rfl

@[simp] theorem length_payloads (q : DelayQueue α) : q.payloads.length = q.size :=
  List.length_map _

theorem isEmpty_iff {q : DelayQueue α} : q.isEmpty = true ↔ q.payloads = [] := by
  unfold isEmpty payloads
  rw [List.isEmpty_iff, List.map_eq_nil_iff]

/-! ### Taking out -/

theorem extractLeast_perm (t : Timer α) (l : List (Timer α)) :
    ((extractLeast t l).1 :: (extractLeast t l).2).Perm (t :: l) := by
  induction l generalizing t with
  | nil => exact .refl _
  | cons u rest ih =>
    unfold extractLeast
    dsimp only
    split
    · exact .refl _
    · exact (List.Perm.swap t _ _).trans ((ih u).cons t)

theorem pop_none {now : Time} {q : DelayQueue α} (h : (q.pop now).1 = none) :
    (q.pop now).2 = q := by
  obtain ⟨ts, n⟩ := q
  cases ts with
  | nil => rfl
  | cons u rest =>
    simp only [pop, popEarliest?] at h ⊢
    split at h
    next => simp at h
    next hd => rw [if_neg hd]

theorem pop_some {now : Time} {q : DelayQueue α} {t : Timer α} (h : (q.pop now).1 = some t) :
    (t.payload :: (q.pop now).2.payloads).Perm q.payloads := by
  obtain ⟨ts, n⟩ := q
  cases ts with
  | nil => simp [pop, popEarliest?] at h
  | cons u rest =>
    have hp := (extractLeast_perm u rest).map Timer.payload
    simp only [pop, popEarliest?] at h ⊢
    split at h
    next hd =>
      rw [if_pos hd, ← Option.some.inj h]
      exact hp
    next => simp at h

theorem drainUpTo_perm (now : Time) (n : Nat) (q : DelayQueue α) :
    ((q.drainUpTo now n).1 ++ (q.drainUpTo now n).2.payloads).Perm q.payloads := by
  induction n generalizing q with
  | zero => exact .refl _
  | succ n ih =>
    unfold drainUpTo
    split
    next q' h =>
      have hq := pop_none (congrArg Prod.fst h)
      rw [h] at hq
      rw [show q' = q from hq]
      exact .refl _
    next t q' h =>
      have ht := pop_some (congrArg Prod.fst h)
      rw [h] at ht
      exact ((ih q').cons t.payload).trans ht

theorem drain_perm (now : Time) (q : DelayQueue α) :
    ((q.drain now).1 ++ (q.drain now).2.payloads).Perm q.payloads :=
  drainUpTo_perm now q.size q

end ClusterBroker.DelayQueue
