import ClusterBroker.Proofs.DelayQueue

/-!
# The order of a delay queue

What is due comes out by wake-up time, and what wakes up at one time comes out as it went in. What
is left is not due, and lies as it lay before. The second half of the order needs sequence numbers
that were given out in turn, which `InOrder` says; every operation keeps it.
-/
namespace ClusterBroker

variable {α : Type}

theorem Time.not_le {t u : Time} : ¬ t ≤ u ↔ u < t := Nat.not_le

/-- One timer goes off before another. -/
def Timer.Before (t u : Timer α) : Prop :=
  t.wakeUp < u.wakeUp ∨ t.wakeUp = u.wakeUp ∧ t.seq < u.seq

theorem Timer.compare_isLT {t u : Timer α} : (t.compare u).isLT = true ↔ t.Before u := by
  have hwake : t.wakeUp = u.wakeUp ↔ t.wakeUp.millis = u.wakeUp.millis :=
    ⟨congrArg Time.millis, Time.ext_millis⟩
  unfold Timer.compare Timer.Before
  rw [hwake, Ordering.isLT_iff_eq_lt, Ordering.then_eq_lt, Nat.compare_eq_lt, Nat.compare_eq_eq,
    Nat.compare_eq_lt]
  rfl

namespace Timer

variable {t u v : Timer α}

theorem Before.wakeUp_le (h : t.Before u) : t.wakeUp ≤ u.wakeUp := by
  rcases h with h | ⟨h, -⟩
  · exact Nat.le_of_lt h
  · rw [h]
    exact Nat.le_refl _

theorem Before.trans (h : t.Before u) (h' : u.Before v) : t.Before v := by
  rcases h with h | ⟨h, hs⟩
  · exact .inl (Nat.lt_of_lt_of_le h h'.wakeUp_le)
  · rcases h' with h' | ⟨h', hs'⟩
    · exact .inl (h ▸ h')
    · exact .inr ⟨h.trans h', Nat.lt_trans hs hs'⟩

/-- Of two timers that are told apart by their numbers one comes first. -/
theorem before_of_not (h : ¬ t.Before u) (hs : t.seq ≠ u.seq) : u.Before t := by
  unfold Before at h ⊢
  rw [not_or, not_and] at h
  obtain ⟨hw, ht⟩ := h
  have hw : u.wakeUp.millis ≤ t.wakeUp.millis := Nat.not_lt.1 hw
  rcases Nat.lt_or_eq_of_le hw with hlt | heq
  · exact .inl hlt
  · have he : u.wakeUp = t.wakeUp := Time.ext_millis heq
    have := ht he.symm
    exact .inr ⟨he, by omega⟩

theorem wakeUp_le_of_not (h : ¬ t.Before u) : u.wakeUp ≤ t.wakeUp := by
  unfold Before at h
  rw [not_or] at h
  exact Nat.not_lt.1 h.1

end Timer

namespace DelayQueue

variable {q : DelayQueue α} {now : Time}

/-- The timers lie newest first, and no number is given out twice. -/
structure InOrder (q : DelayQueue α) : Prop where
  newest_first : q.timers.Pairwise fun t u => u.seq < t.seq
  seq_lt : ∀ t ∈ q.timers, t.seq < q.nextSeq

theorem inOrder_empty : InOrder ({} : DelayQueue α) := ⟨.nil, List.forall_mem_nil _⟩

theorem InOrder.push (h : q.InOrder) (wakeUp : Time) (a : α) : (q.push wakeUp a).InOrder := by
  refine ⟨List.pairwise_cons.2 ⟨h.seq_lt, h.newest_first⟩, List.forall_mem_cons.2 ⟨?_, ?_⟩⟩
  · exact Nat.lt_succ_self _
  · exact fun t ht => Nat.lt_succ_of_lt (h.seq_lt t ht)

/-- Timers may be taken away. -/
theorem InOrder.sublist (h : q.InOrder) {q' : DelayQueue α} (hs : q'.timers.Sublist q.timers)
    (hn : q'.nextSeq = q.nextSeq) : q'.InOrder := by
  refine ⟨h.newest_first.sublist hs, fun t ht => ?_⟩
  rw [hn]
  exact h.seq_lt t (hs.subset ht)

theorem InOrder.filter (h : q.InOrder) (p : α → Bool) : (q.filter p).InOrder :=
  h.sublist List.filter_sublist rfl

/-! ### The earliest timer -/

theorem extractLeast_splits (t : Timer α) (l : List (Timer α)) : ∃ l₁ l₂,
    t :: l = l₁ ++ (extractLeast t l).1 :: l₂ ∧ (extractLeast t l).2 = l₁ ++ l₂ ∧
      ∀ u ∈ l₁ ++ l₂, ¬ u.Before (extractLeast t l).1 := by
  induction l generalizing t with
  | nil => exact ⟨[], [], rfl, rfl, List.forall_mem_nil _⟩
  | cons u rest ih =>
    obtain ⟨l₁, l₂, hl, hrest, hleast⟩ := ih u
    unfold extractLeast
    dsimp only
    split
    next ht =>
      rw [Timer.compare_isLT] at ht
      refine ⟨[], u :: rest, rfl, rfl, fun v hv hb => ?_⟩
      -- the first is before the least of the others, so before each of them
      have hv : v = (extractLeast u rest).1 ∨ v ∈ l₁ ++ l₂ := by
        rw [List.nil_append, hl, List.mem_append, List.mem_cons] at hv
        rw [List.mem_append]
        tauto
      rcases hv with rfl | hv
      · exact absurd (hb.trans ht) fun h => by rcases h with h | ⟨-, h⟩ <;> exact Nat.lt_irrefl _ h
      · exact hleast v hv (hb.trans ht)
    next ht =>
      rw [Timer.compare_isLT] at ht
      refine ⟨t :: l₁, l₂, by rw [List.cons_append, ← hl], by rw [hrest]; rfl, ?_⟩
      rw [List.cons_append]
      exact List.forall_mem_cons.2 ⟨ht, hleast⟩

/-- The earliest timer is taken out from among the others, which stay as they lie. -/
theorem popEarliest?_some {t : Timer α} {q' : DelayQueue α} (h : q.popEarliest? = some (t, q')) :
    ∃ l₁ l₂, q.timers = l₁ ++ t :: l₂ ∧ q' = { q with timers := l₁ ++ l₂ } ∧
      ∀ u ∈ l₁ ++ l₂, ¬ u.Before t := by
  obtain ⟨ts, n⟩ := q
  cases ts with
  | nil => simp [popEarliest?] at h
  | cons u rest =>
    obtain ⟨l₁, l₂, hl, hrest, hleast⟩ := extractLeast_splits u rest
    unfold popEarliest? at h
    obtain ⟨rfl, rfl⟩ := Prod.mk.inj (Option.some.inj h)
    exact ⟨l₁, l₂, hl, by rw [hrest], hleast⟩

theorem popEarliest?_eq_none : q.popEarliest? = none ↔ q.timers = [] := by
  unfold popEarliest?
  cases q.timers <;> simp

theorem nextWakeUp?_eq_none : q.nextWakeUp? = none ↔ q.timers = [] := by
  unfold nextWakeUp?
  rw [Option.map_eq_none_iff, popEarliest?_eq_none]

/-- A queue tells the least of its wake-up times. -/
theorem nextWakeUp?_some {t : Time} (h : q.nextWakeUp? = some t) :
    (∃ u ∈ q.timers, u.wakeUp = t) ∧ ∀ u ∈ q.timers, t ≤ u.wakeUp := by
  obtain ⟨⟨u, q'⟩, hu, rfl⟩ := Option.map_eq_some_iff.1 h
  obtain ⟨l₁, l₂, hl, -, hleast⟩ := popEarliest?_some hu
  have hmem : ∀ v, v ∈ q.timers ↔ v = u ∨ v ∈ l₁ ++ l₂ := by
    intro v
    rw [hl, List.perm_middle.mem_iff, List.mem_cons]
  refine ⟨⟨u, (hmem u).2 (.inl rfl), rfl⟩, fun v hv => ?_⟩
  rcases (hmem v).1 hv with rfl | hv
  · exact Nat.le_refl _
  · exact Timer.wakeUp_le_of_not (hleast v hv)

/-! ### Everything that is due -/

/-- From `q` to `q'` these timers are taken out: all that are due and no others. -/
structure Drains (now : Time) (q : DelayQueue α) (ts : List (Timer α)) (q' : DelayQueue α) :
    Prop where
  due : ts.Perm (q.timers.filter fun t => t.wakeUp ≤ now)
  left : q' = { q with timers := q.timers.filter fun t => now < t.wakeUp }
  sorted : q.InOrder → ts.Pairwise Timer.Before

/-- Nothing is due. -/
theorem Drains.refl (h : ∀ t ∈ q.timers, now < t.wakeUp) : Drains now q [] q := by
  have hdue : (q.timers.filter fun t => t.wakeUp ≤ now) = [] := by
    rw [List.filter_eq_nil_iff]
    exact fun t ht hd => Time.not_le.2 (h t ht) (of_decide_eq_true hd)
  have hleft : (q.timers.filter fun t => now < t.wakeUp) = q.timers := by
    rw [List.filter_eq_self]
    exact fun t ht => decide_eq_true (h t ht)
  refine ⟨?_, ?_, fun _ => .nil⟩
  · rw [hdue]
  · rw [hleft]

theorem Drains.cons {t : Timer α} {l₁ l₂ ts : List (Timer α)} {q' : DelayQueue α}
    (hq : q.timers = l₁ ++ t :: l₂) (hleast : ∀ u ∈ l₁ ++ l₂, ¬ u.Before t) (ht : t.wakeUp ≤ now)
    (h : Drains now { q with timers := l₁ ++ l₂ } ts q') : Drains now q (t :: ts) q' := by
  have hdue : (q.timers.filter fun u => u.wakeUp ≤ now).Perm
      (t :: (l₁ ++ l₂).filter fun u => u.wakeUp ≤ now) := by
    rw [hq, ← List.filter_cons_of_pos (p := fun u : Timer α => u.wakeUp ≤ now)
      (decide_eq_true ht)]
    exact List.perm_middle.filter _
  have hleft : (q.timers.filter fun u => now < u.wakeUp) =
      (l₁ ++ l₂).filter fun u => now < u.wakeUp := by
    have hn : ¬ now < t.wakeUp := fun hlt => Time.not_le.2 hlt ht
    rw [hq, List.filter_append, List.filter_cons_of_neg (by simpa using hn), List.filter_append]
  refine ⟨(h.due.cons t).trans hdue.symm, ?_, fun ho => ?_⟩
  · rw [hleft]
    exact h.left
  · have hsub : (l₁ ++ l₂).Sublist q.timers := by
      rw [hq]
      exact .append_left (List.sublist_cons_self ..) l₁
    refine List.pairwise_cons.2 ⟨fun u hu => ?_, h.sorted (ho.sublist hsub rfl)⟩
    have hu : u ∈ l₁ ++ l₂ := List.mem_of_mem_filter (h.due.mem_iff.1 hu)
    refine Timer.before_of_not (hleast u hu) fun he => ?_
    have hn : (t :: (l₁ ++ l₂)).Pairwise fun a b => a.seq ≠ b.seq := by
      rw [← List.Perm.pairwise_iff (fun h => Ne.symm h) List.perm_middle, ← hq]
      exact ho.newest_first.imp fun h => Ne.symm (Nat.ne_of_lt h)
    exact (List.pairwise_cons.1 hn).1 u hu he.symm

theorem drainUpTo_drains (now : Time) (n : Nat) (q : DelayQueue α) (h : q.size ≤ n) :
    ∃ ts, (q.drainUpTo now n).1 = ts.map Timer.payload ∧
      Drains now q ts (q.drainUpTo now n).2 := by
  induction n generalizing q with
  | zero =>
    have hnil : q.timers = [] := List.length_eq_zero_iff.1 (Nat.le_zero.1 h)
    exact ⟨[], rfl, .refl (by simp [hnil])⟩
  | succ n ih =>
    unfold drainUpTo pop
    cases hp : q.popEarliest? with
    | none =>
      refine ⟨[], rfl, .refl ?_⟩
      simp [popEarliest?_eq_none.1 hp]
    | some r =>
      obtain ⟨t, q'⟩ := r
      obtain ⟨l₁, l₂, hl, rfl, hleast⟩ := popEarliest?_some hp
      by_cases ht : t.wakeUp ≤ now
      · simp only [if_pos ht]
        have hsize : ({ q with timers := l₁ ++ l₂ } : DelayQueue α).size ≤ n := by
          unfold size at h ⊢
          rw [hl, List.length_append, List.length_cons] at h
          rw [List.length_append]
          omega
        obtain ⟨ts, hts, hd⟩ := ih _ hsize
        exact ⟨t :: ts, by rw [hts, List.map_cons], hd.cons hl hleast ht⟩
      · simp only [if_neg ht]
        refine ⟨[], rfl, .refl fun u hu => ?_⟩
        have hlt : now < t.wakeUp := Time.not_le.1 ht
        rw [hl, List.perm_middle.mem_iff, List.mem_cons] at hu
        rcases hu with rfl | hu
        · exact hlt
        · exact Nat.lt_of_lt_of_le hlt (Timer.wakeUp_le_of_not (hleast u hu))

/-- What is due comes out, by wake-up time and then as it went in, and nothing else does. -/
theorem drain_drains (now : Time) (q : DelayQueue α) : ∃ ts,
    (q.drain now).1 = ts.map Timer.payload ∧ Drains now q ts (q.drain now).2 :=
  drainUpTo_drains now q.size q (Nat.le_refl _)

theorem drain_left (now : Time) (q : DelayQueue α) :
    (q.drain now).2 = { q with timers := q.timers.filter fun t => now < t.wakeUp } := by
  obtain ⟨ts, -, h⟩ := drain_drains now q
  exact h.left

theorem InOrder.drain (h : q.InOrder) (now : Time) : (q.drain now).2.InOrder := by
  rw [drain_left]
  exact h.sublist List.filter_sublist rfl

/-- Two timers that are due at once come out as they went in. -/
example : ((ofList [(.ofMillis 5, 1), (.ofMillis 3, 2), (.ofMillis 5, 3), (.ofMillis 9, 4)]).drain
    (.ofMillis 5)).1 = [2, 1, 3] := by decide

end DelayQueue

end ClusterBroker
