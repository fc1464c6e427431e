import ClusterBroker.Proofs.DelayQueue.Order

/-!
# A delay queue is an agenda

An agenda is a list by wake-up time, in which the entries for one time stand as they were put down.
A delay queue keeps its timers in no such order, but their numbers tell which went in first. Read in
the order of times and numbers its timers are an agenda, and every operation does to this agenda
what it should.
-/
namespace ClusterBroker

/-- Wake-up times and payloads, earliest first. -/
abbrev Agenda (α : Type) := List (Time × α)

namespace Agenda

variable {α : Type}

/-- Puts an entry down after all that are not later. -/
def put (wakeUp : Time) (a : α) : Agenda α → Agenda α
  | [] => [(wakeUp, a)]
  | e :: rest => if wakeUp < e.1 then (wakeUp, a) :: e :: rest else e :: put wakeUp a rest

def ofList (l : List (Time × α)) : Agenda α := l.foldl (fun g e => put e.1 e.2 g) []

/-- Takes the first entry if it is due. -/
def pop (now : Time) : Agenda α → Option (Time × α) × Agenda α
  | [] => (none, [])
  | e :: rest => if e.1 ≤ now then (some e, rest) else (none, e :: rest)

/-- The entries in front that are due. -/
def due (now : Time) (g : Agenda α) : Agenda α := g.takeWhile fun e => e.1 ≤ now

/-- What is left without them. -/
def later (now : Time) (g : Agenda α) : Agenda α := g.dropWhile fun e => e.1 ≤ now

variable {g : Agenda α}

theorem put_perm (wakeUp : Time) (a : α) (g : Agenda α) :
    (put wakeUp a g).Perm ((wakeUp, a) :: g) := by
  induction g with
  | nil => exact .refl _
  | cons e rest ih =>
    unfold put
    split
    · exact .refl _
    · exact (ih.cons e).trans (.swap _ _ _)

theorem ofList_perm (l : List (Time × α)) : (ofList l).Perm l := by
  have hfold : ∀ g : Agenda α, (l.foldl (fun g e => put e.1 e.2 g) g).Perm (l ++ g) := by
    induction l with
    | nil => exact fun g => .refl g
    | cons e l ih =>
      intro g
      exact (ih (put e.1 e.2 g)).trans
        (((put_perm e.1 e.2 g).append_left l).trans List.perm_middle)
  have h := hfold []
  rwa [List.append_nil] at h

theorem pop_of_due {now : Time} {e : Time × α} (h : e.1 ≤ now) (rest : Agenda α) :
    pop now (e :: rest) = (some e, rest) := if_pos h

theorem pop_of_early {now : Time} {e : Time × α} (h : ¬ e.1 ≤ now) (rest : Agenda α) :
    pop now (e :: rest) = (none, e :: rest) := if_neg h

theorem pop_perm (now : Time) (g : Agenda α) : ((pop now g).1.toList ++ (pop now g).2).Perm g := by
  cases g with
  | nil => exact .refl _
  | cons e rest =>
    by_cases he : e.1 ≤ now
    · rw [pop_of_due he]
      exact .refl _
    · rw [pop_of_early he]
      exact .refl _

theorem le_of_mem_due {now : Time} {e : Time × α} (h : e ∈ due now g) : e.1 ≤ now :=
  of_decide_eq_true (List.all_eq_true.1 List.all_takeWhile e h)

theorem le_of_pop {now : Time} {e : Time × α} (h : (pop now g).1 = some e) : e.1 ≤ now := by
  cases g with
  | nil => simp [pop] at h
  | cons f rest =>
    by_cases hf : f.1 ≤ now
    · rw [pop_of_due hf] at h
      rwa [← Option.some.inj h]
    · rw [pop_of_early hf] at h
      simp at h

/-- What is due is found without looking further than the first entry that is not. -/
theorem due_eq_filter (h : g.Pairwise fun e f => e.1 ≤ f.1) (now : Time) :
    due now g = g.filter fun e => e.1 ≤ now := by
  unfold due
  induction g with
  | nil => rfl
  | cons e rest ih =>
    obtain ⟨hfirst, hrest⟩ := List.pairwise_cons.1 h
    by_cases he : e.1 ≤ now
    · simp [he, ih hrest]
    · have hnone : (rest.filter fun f => f.1 ≤ now) = [] := by
        rw [List.filter_eq_nil_iff]
        intro f hf hd
        exact he (Nat.le_trans (hfirst f hf) (of_decide_eq_true hd))
      simp [he, hnone]

theorem later_eq_filter (h : g.Pairwise fun e f => e.1 ≤ f.1) (now : Time) :
    later now g = g.filter fun e => now < e.1 := by
  unfold later
  induction g with
  | nil => rfl
  | cons e rest ih =>
    obtain ⟨hfirst, hrest⟩ := List.pairwise_cons.1 h
    by_cases he : e.1 ≤ now
    · have hn : ¬ now < e.1 := fun hlt => Time.not_le.2 hlt he
      simp [he, hn, ih hrest]
    · have hall : (rest.filter fun f => now < f.1) = rest := by
        rw [List.filter_eq_self]
        intro f hf
        exact decide_eq_true (Nat.lt_of_lt_of_le (Time.not_le.1 he) (hfirst f hf))
      simp [he, Time.not_le.1 he, hall]

end Agenda

/-- What an agenda has of a timer. -/
def Timer.entry {α : Type} (t : Timer α) : Time × α := (t.wakeUp, t.payload)

theorem Timer.not_before_self {α : Type} (t : Timer α) : ¬ t.Before t := by
  rintro (h | ⟨-, h⟩)
  · exact Nat.lt_irrefl _ h
  · exact Nat.lt_irrefl _ h

namespace DelayQueue

variable {α : Type} {q : DelayQueue α} {t : Timer α} {ts : List (Timer α)} {g : Agenda α}

/-! ### The timers of a queue in their order -/

structure Lists (q : DelayQueue α) (ts : List (Timer α)) : Prop where
  inOrder : q.InOrder
  perm : ts.Perm q.timers
  sorted : ts.Pairwise Timer.Before

theorem lists_empty : Lists ({} : DelayQueue α) [] := ⟨inOrder_empty, .refl _, .nil⟩

/-- A timer with a new number has its place after all that are not later. -/
theorem exists_put (hs : ts.Pairwise Timer.Before) (ht : ∀ u ∈ ts, u.seq < t.seq) :
    ∃ ts' : List (Timer α), ts'.Perm (t :: ts) ∧ ts'.Pairwise Timer.Before ∧
      ts'.map Timer.entry = Agenda.put t.wakeUp t.payload (ts.map Timer.entry) := by
  induction ts with
  | nil => exact ⟨[t], .refl _, List.pairwise_singleton _ _, rfl⟩
  | cons u rest ih =>
    obtain ⟨hfirst, hrest⟩ := List.pairwise_cons.1 hs
    unfold Agenda.put
    by_cases hlt : t.wakeUp < u.wakeUp
    · refine ⟨t :: u :: rest, .refl _, List.pairwise_cons.2 ⟨fun v hv => .inl ?_, hs⟩, ?_⟩
      · rcases List.mem_cons.1 hv with rfl | hv
        · exact hlt
        · exact Nat.lt_of_lt_of_le hlt (hfirst v hv).wakeUp_le
      · exact (if_pos hlt).symm
    · obtain ⟨ts', hperm, hsorted, hmap⟩ := ih hrest fun v hv => ht v (List.mem_cons_of_mem _ hv)
      have hut : u.Before t := Timer.before_of_not
        (fun h => h.elim hlt fun h => Nat.lt_asymm h.2 (ht u List.mem_cons_self))
        (Nat.ne_of_gt (ht u List.mem_cons_self))
      refine ⟨u :: ts', (hperm.cons u).trans (.swap _ _ _), ?_, ?_⟩
      · refine List.pairwise_cons.2 ⟨fun v hv => ?_, hsorted⟩
        rcases List.mem_cons.1 (hperm.mem_iff.1 hv) with rfl | hv
        · exact hut
        · exact hfirst v hv
      · exact (congrArg (u.entry :: ·) hmap).trans (if_neg hlt).symm

theorem Lists.popEarliest? (h : Lists q (t :: ts)) :
    ∃ q', q.popEarliest? = some (t, q') ∧ Lists q' ts := by
  cases hp : q.popEarliest? with
  | none =>
    have hperm := h.perm
    rw [popEarliest?_eq_none.1 hp] at hperm
    exact absurd hperm.length_eq (by simp)
  | some r =>
    obtain ⟨u, q'⟩ := r
    obtain ⟨l₁, l₂, hl, rfl, hleast⟩ := popEarliest?_some hp
    obtain ⟨hfirst, hrest⟩ := List.pairwise_cons.1 h.sorted
    have hperm : (t :: ts).Perm (u :: (l₁ ++ l₂)) := by
      have hall := h.perm
      rw [hl] at hall
      exact hall.trans List.perm_middle
    -- the first of the list and the earliest of the queue are not after one another
    obtain rfl : t = u := by
      rcases List.mem_cons.1 (hperm.mem_iff.1 List.mem_cons_self) with heq | ht
      · exact heq
      rcases List.mem_cons.1 (hperm.mem_iff.2 List.mem_cons_self) with heq | hu
      · exact heq.symm
      · exact absurd (hfirst u hu) (hleast t ht)
    have hsub : (l₁ ++ l₂).Sublist q.timers := by
      rw [hl]
      exact .append_left (List.sublist_cons_self ..) l₁
    exact ⟨_, rfl, h.inOrder.sublist hsub rfl, hperm.cons_inv, hrest⟩

theorem Lists.popEarliest?_nil (h : Lists q []) : q.popEarliest? = none :=
  popEarliest?_eq_none.2 h.perm.nil_eq.symm

theorem Lists.filter (h : Lists q ts) (p : α → Bool) :
    Lists (q.filter p) (ts.filter fun t => p t.payload) :=
  ⟨h.inOrder.filter p, h.perm.filter _, h.sorted.filter _⟩

theorem Lists.drain (h : Lists q ts) (now : Time) :
    (q.drain now).1 = (ts.filter fun t => t.wakeUp ≤ now).map Timer.payload ∧
      Lists (q.drain now).2 (ts.filter fun t => now < t.wakeUp) := by
  obtain ⟨out, hout, hd⟩ := drain_drains now q
  have heq : out = ts.filter fun t => t.wakeUp ≤ now :=
    List.Perm.eq_of_pairwise (fun t u _ _ htu hut => absurd (htu.trans hut) t.not_before_self)
      (hd.sorted h.inOrder) (h.sorted.filter _) (hd.due.trans (h.perm.filter _).symm)
  refine ⟨by rw [hout, heq], h.inOrder.drain now, ?_, h.sorted.filter _⟩
  rw [drain_left]
  exact h.perm.filter _

/-! ### A queue read as an agenda -/

def Reads (q : DelayQueue α) (g : Agenda α) : Prop := ∃ ts, Lists q ts ∧ ts.map Timer.entry = g

theorem Reads.push (h : Reads q g) (wakeUp : Time) (a : α) :
    Reads (q.push wakeUp a) (g.put wakeUp a) := by
  obtain ⟨ts, hts, rfl⟩ := h
  have hnew : ∀ u ∈ ts, u.seq < q.nextSeq :=
    fun u hu => hts.inOrder.seq_lt u (hts.perm.mem_iff.1 hu)
  obtain ⟨ts', hperm, hsorted, hmap⟩ :=
    exists_put (t := ⟨wakeUp, q.nextSeq, a⟩) hts.sorted hnew
  exact ⟨ts', ⟨hts.inOrder.push wakeUp a, hperm.trans (hts.perm.cons _), hsorted⟩, hmap⟩

theorem reads_ofList (l : List (Time × α)) : Reads (ofList l) (Agenda.ofList l) := by
  have hfold : ∀ (q : DelayQueue α) (g : Agenda α), Reads q g →
      Reads (l.foldl (fun q e => q.push e.1 e.2) q) (l.foldl (fun g e => g.put e.1 e.2) g) := by
    induction l with
    | nil => exact fun q g h => h
    | cons e l ih => exact fun q g h => ih _ _ (h.push e.1 e.2)
  exact hfold {} [] ⟨[], lists_empty, rfl⟩

theorem Reads.pop (h : Reads q g) (now : Time) :
    (q.pop now).1.map Timer.entry = (g.pop now).1 ∧ Reads (q.pop now).2 (g.pop now).2 := by
  obtain ⟨ts, hts, rfl⟩ := h
  unfold DelayQueue.pop
  cases ts with
  | nil =>
    rw [hts.popEarliest?_nil]
    exact ⟨rfl, [], hts, rfl⟩
  | cons t ts =>
    obtain ⟨q', hq', hrest⟩ := hts.popEarliest?
    rw [hq', List.map_cons]
    by_cases ht : t.entry.1 ≤ now
    · rw [Agenda.pop_of_due ht]
      simp only [if_pos (show t.wakeUp ≤ now from ht)]
      exact ⟨rfl, ts, hrest, rfl⟩
    · rw [Agenda.pop_of_early ht]
      simp only [if_neg (show ¬ t.wakeUp ≤ now from ht)]
      exact ⟨rfl, t :: ts, hts, rfl⟩

theorem Lists.chronological (h : Lists q ts) :
    (ts.map Timer.entry).Pairwise fun e f => e.1 ≤ f.1 :=
  List.pairwise_map.2 (h.sorted.imp Timer.Before.wakeUp_le)

theorem Reads.drain (h : Reads q g) (now : Time) :
    (q.drain now).1 = (g.due now).map Prod.snd ∧ Reads (q.drain now).2 (g.later now) := by
  obtain ⟨ts, hts, rfl⟩ := h
  obtain ⟨hout, hleft⟩ := hts.drain now
  rw [Agenda.due_eq_filter hts.chronological, Agenda.later_eq_filter hts.chronological,
    List.filter_map, List.filter_map, List.map_map]
  exact ⟨hout, _, hleft, rfl⟩

theorem Reads.filter (h : Reads q g) (p : α → Bool) :
    Reads (q.filter p) (g.filter fun e => p e.2) := by
  obtain ⟨ts, hts, rfl⟩ := h
  rw [List.filter_map]
  exact ⟨_, hts.filter p, rfl⟩

theorem Reads.nextWakeUp? (h : Reads q g) : q.nextWakeUp? = g.head?.map Prod.fst := by
  obtain ⟨ts, hts, rfl⟩ := h
  unfold DelayQueue.nextWakeUp?
  cases ts with
  | nil =>
    rw [hts.popEarliest?_nil]
    rfl
  | cons t ts =>
    obtain ⟨q', hq', -⟩ := hts.popEarliest?
    rw [hq']
    rfl

theorem Reads.toList_perm (h : Reads q g) : q.toList.Perm g := by
  obtain ⟨ts, hts, rfl⟩ := h
  exact (hts.perm.map Timer.entry).symm

theorem Reads.size_eq (h : Reads q g) : q.size = g.length := by
  rw [← h.toList_perm.length_eq]
  exact (List.length_map _).symm

end DelayQueue

end ClusterBroker
