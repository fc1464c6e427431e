import ClusterBroker.Proofs.DelayQueue.Agenda

/-!
# Every history of a delay queue

Whatever was put into a delay queue, taken out and dropped, and whichever way the clock went
meanwhile, the queue answers as an agenda to which the same was done. An agenda has no numbers and
nothing to search, so what can be said of it is plain: what fires is due, and nothing is lost or
fires twice.
-/
namespace ClusterBroker.DelayQueue

variable {α : Type} {q : DelayQueue α} {g : Agenda α}

/-- What can be done with a queue. -/
inductive Op (α : Type) where
  | push (wakeUp : Time) (a : α)
  | pop (now : Time)
  | drain (now : Time)
  | filter (p : α → Bool)

/-- What is answered to it. -/
inductive Reply (α : Type) where
  | done
  | popped (e : Option (Time × α))
  | drained (l : List α)

/-- The way in which an entry leaves. -/
inductive Exit where
  | fired (now : Time)
  | dropped

theorem pop_nextSeq (now : Time) (q : DelayQueue α) : (q.pop now).2.nextSeq = q.nextSeq := by
  unfold DelayQueue.pop
  cases hp : q.popEarliest? with
  | none => rfl
  | some r =>
    obtain ⟨t, q'⟩ := r
    obtain ⟨l₁, l₂, -, rfl, -⟩ := popEarliest?_some hp
    dsimp only
    split <;> rfl

/-- Entries that are said to have fired at one time. -/
theorem mem_fired {l : List (Time × α)} {now now' : Time} {e : Time × α} :
    (Exit.fired now, e) ∈ l.map (Prod.mk (.fired now')) ↔ now' = now ∧ e ∈ l := by
  rw [List.mem_map]
  constructor
  · rintro ⟨_, he, heq⟩
    obtain ⟨hnow, rfl⟩ := Prod.mk.inj heq
    exact ⟨Exit.fired.inj hnow, he⟩
  · rintro ⟨rfl, he⟩
    exact ⟨e, he, rfl⟩

namespace Op

def run : Op α → DelayQueue α → Reply α × DelayQueue α
  | .push wakeUp a, q => (.done, q.push wakeUp a)
  | .pop now, q => (.popped ((q.pop now).1.map Timer.entry), (q.pop now).2)
  | .drain now, q => (.drained (q.drain now).1, (q.drain now).2)
  | .filter p, q => (.done, q.filter p)

/-- The same with an agenda. -/
def plan : Op α → Agenda α → Reply α × Agenda α
  | .push wakeUp a, g => (.done, g.put wakeUp a)
  | .pop now, g => (.popped (g.pop now).1, (g.pop now).2)
  | .drain now, g => (.drained ((g.due now).map Prod.snd), g.later now)
  | .filter p, g => (.done, g.filter fun e => p e.2)

def entering : Op α → List (Time × α)
  | .push wakeUp a => [(wakeUp, a)]
  | _ => []

def leaving : Op α → Agenda α → List (Exit × Time × α)
  | .push .., _ => []
  | .pop now, g => (g.pop now).1.toList.map (Prod.mk (.fired now))
  | .drain now, g => (g.due now).map (Prod.mk (.fired now))
  | .filter p, g => (g.filter fun e => !p e.2).map (Prod.mk .dropped)

theorem run_reads (h : Reads q g) (op : Op α) :
    (op.run q).1 = (op.plan g).1 ∧ Reads (op.run q).2 (op.plan g).2 := by
  cases op with
  | push wakeUp a => exact ⟨rfl, h.push wakeUp a⟩
  | pop now =>
    obtain ⟨hout, hleft⟩ := h.pop now
    exact ⟨congrArg Reply.popped hout, hleft⟩
  | drain now =>
    obtain ⟨hout, hleft⟩ := h.drain now
    exact ⟨congrArg Reply.drained hout, hleft⟩
  | filter p => exact ⟨rfl, h.filter p⟩

theorem run_nextSeq (op : Op α) (q : DelayQueue α) :
    (op.run q).2.nextSeq = q.nextSeq + op.entering.length := by
  cases op with
  | push => rfl
  | pop now => exact pop_nextSeq now q
  | drain now =>
    change (q.drain now).2.nextSeq = q.nextSeq
    rw [drain_left]
  | filter => rfl

theorem plan_account (op : Op α) (g : Agenda α) :
    (op.entering ++ g).Perm ((op.leaving g).map Prod.snd ++ (op.plan g).2) := by
  have hmap : ∀ (x : Exit) (l : List (Time × α)), (l.map (Prod.mk x)).map Prod.snd = l := by
    intro x l
    rw [List.map_map]
    exact List.map_id l
  cases op with
  | push wakeUp a => exact (Agenda.put_perm wakeUp a g).symm
  | pop now =>
    unfold leaving
    rw [hmap]
    exact (Agenda.pop_perm now g).symm
  | drain now =>
    unfold leaving
    rw [hmap]
    exact .of_eq List.takeWhile_append_dropWhile.symm
  | filter p =>
    unfold leaving
    rw [hmap]
    exact (List.perm_append_comm.trans (List.filter_append_perm _ _)).symm

theorem plan_due {op : Op α} {g : Agenda α} {now : Time} {e : Time × α}
    (h : (.fired now, e) ∈ op.leaving g) : e.1 ≤ now := by
  cases op with
  | push => simp [leaving] at h
  | pop now' =>
    obtain ⟨rfl, he⟩ := mem_fired.1 h
    exact Agenda.le_of_pop (Option.mem_toList.1 he)
  | drain now' =>
    obtain ⟨rfl, he⟩ := mem_fired.1 h
    exact Agenda.le_of_mem_due he
  | filter p => simp [leaving] at h

end Op

def after : List (Op α) → DelayQueue α → DelayQueue α
  | [], q => q
  | op :: ops, q => after ops (op.run q).2

def replies : List (Op α) → DelayQueue α → List (Reply α)
  | [], _ => []
  | op :: ops, q => (op.run q).1 :: replies ops (op.run q).2

end ClusterBroker.DelayQueue

namespace ClusterBroker.Agenda

open DelayQueue

variable {α : Type}

def after : List (Op α) → Agenda α → Agenda α
  | [], g => g
  | op :: ops, g => after ops (op.plan g).2

def replies : List (Op α) → Agenda α → List (Reply α)
  | [], _ => []
  | op :: ops, g => (op.plan g).1 :: replies ops (op.plan g).2

/-- What left an agenda, and how. -/
def departures : List (Op α) → Agenda α → List (Exit × Time × α)
  | [], _ => []
  | op :: ops, g => op.leaving g ++ departures ops (op.plan g).2

theorem after_account (ops : List (Op α)) (g : Agenda α) :
    (ops.flatMap Op.entering ++ g).Perm ((departures ops g).map Prod.snd ++ after ops g) := by
  induction ops generalizing g with
  | nil => exact .refl _
  | cons op ops ih =>
    unfold departures after
    rw [List.flatMap_cons, List.map_append, List.append_assoc, List.append_assoc]
    refine (List.perm_append_comm_assoc _ _ _).trans ?_
    refine ((op.plan_account g).append_left _).trans ?_
    exact (List.perm_append_comm_assoc _ _ _).trans ((ih _).append_left _)

theorem departures_due {ops : List (Op α)} {g : Agenda α} {now : Time} {e : Time × α}
    (h : (.fired now, e) ∈ departures ops g) : e.1 ≤ now := by
  induction ops generalizing g with
  | nil => simp [departures] at h
  | cons op ops ih =>
    rcases List.mem_append.1 h with h | h
    · exact Op.plan_due h
    · exact ih h

end ClusterBroker.Agenda

namespace ClusterBroker.DelayQueue

variable {α : Type} {q : DelayQueue α} {g : Agenda α}

theorem after_reads (h : Reads q g) (ops : List (Op α)) :
    replies ops q = Agenda.replies ops g ∧ Reads (after ops q) (Agenda.after ops g) := by
  induction ops generalizing q g with
  | nil => exact ⟨rfl, h⟩
  | cons op ops ih =>
    obtain ⟨hreply, hnext⟩ := op.run_reads h
    obtain ⟨hreplies, hafter⟩ := ih hnext
    refine ⟨?_, hafter⟩
    unfold replies Agenda.replies
    rw [hreply, hreplies]

theorem after_nextSeq (ops : List (Op α)) (q : DelayQueue α) :
    (after ops q).nextSeq = q.nextSeq + (ops.flatMap Op.entering).length := by
  induction ops generalizing q with
  | nil => rfl
  | cons op ops ih =>
    unfold after
    rw [ih, op.run_nextSeq, List.flatMap_cons, List.length_append, Nat.add_assoc]

theorem ofList_nextSeq (l : List (Time × α)) : (ofList l).nextSeq = l.length := by
  have hfold : ∀ q : DelayQueue α,
      (l.foldl (fun q e => q.push e.1 e.2) q).nextSeq = q.nextSeq + l.length := by
    induction l with
    | nil => exact fun q => rfl
    | cons e l ih =>
      intro q
      rw [List.foldl_cons, ih, List.length_cons]
      change q.nextSeq + 1 + l.length = _
      omega
  exact (hfold {}).trans (Nat.zero_add _)

/-- A queue answers everything as an agenda does, whatever was done before and whichever way the
clock went. So what fires is due, and what was put in has fired or was dropped, once, or is still
there. It takes as many numbers as there were insertions. -/
theorem agenda_followed (init : List (Time × α)) (ops : List (Op α)) :
    let q := after ops (ofList init)
    let g := Agenda.after ops (Agenda.ofList init)
    let gone := Agenda.departures ops (Agenda.ofList init)
    let put := init ++ ops.flatMap Op.entering
    replies ops (ofList init) = Agenda.replies ops (Agenda.ofList init) ∧
      q.nextWakeUp? = g.head?.map Prod.fst ∧
      (∀ now, q.untilNext? now = g.head?.map fun e => e.1.since now) ∧
      q.size = g.length ∧ q.isEmpty = g.isEmpty ∧ q.toList.Perm g ∧
      g.Pairwise (fun e f => e.1 ≤ f.1) ∧
      (∀ now e, (.fired now, e) ∈ gone → e.1 ≤ now) ∧
      put.Perm (gone.map Prod.snd ++ g) ∧ q.nextSeq = put.length := by
  intro q g gone put
  obtain ⟨hreplies, hreads⟩ := after_reads (reads_ofList init) ops
  have hnext : q.nextWakeUp? = g.head?.map Prod.fst := hreads.nextWakeUp?
  have hsize : q.size = g.length := hreads.size_eq
  refine ⟨hreplies, hnext, fun now => ?_, hsize, ?_, hreads.toList_perm, ?_, fun now e =>
    Agenda.departures_due, ?_, ?_⟩
  · unfold untilNext?
    rw [hnext, Option.map_map]
    rfl
  · rw [Bool.eq_iff_iff]
    unfold isEmpty
    rw [List.isEmpty_iff_length_eq_zero, List.isEmpty_iff_length_eq_zero, ← hsize]
    rfl
  · obtain ⟨ts, hts, hg⟩ := hreads
    have hc := hts.chronological
    rwa [hg] at hc
  · refine List.perm_append_comm.trans ?_
    exact ((Agenda.ofList_perm init).symm.append_left _).trans (Agenda.after_account ops _)
  · rw [List.length_append, after_nextSeq, ofList_nextSeq]

/-- A timer that is put in last but for an earlier time, a clock that goes back, and timers for one
time of which the second is dropped. -/
theorem agenda_followed_backwards :
    let init := [(Time.ofMillis 5, 1), (.ofMillis 5, 2), (.ofMillis 5, 3), (.ofMillis 10, 5)]
    let ops : List (Op Nat) := [.push (.ofMillis 3) 4, .pop (.ofMillis 4), .pop (.ofMillis 2),
      .filter (· ≠ 2), .drain (.ofMillis 9)]
    let q := after ops (ofList init)
    let gone := Agenda.departures ops (Agenda.ofList init)
    replies ops (ofList init) =
        [.done, .popped (some (.ofMillis 3, 4)), .popped none, .done, .drained [1, 3]] ∧
      q.nextWakeUp? = some (.ofMillis 10) ∧ q.toList.Perm [(.ofMillis 10, 5)] ∧
      gone = [(.fired (.ofMillis 4), .ofMillis 3, 4), (.dropped, .ofMillis 5, 2),
        (.fired (.ofMillis 9), .ofMillis 5, 1), (.fired (.ofMillis 9), .ofMillis 5, 3)] ∧
      Time.ofMillis 5 ≤ .ofMillis 9 := by
  intro init ops q gone
  obtain ⟨hreplies, hnext, -, -, -, hleft, -, hdue, -, -⟩ := agenda_followed init ops
  have hgone : gone = [(.fired (.ofMillis 4), .ofMillis 3, 4), (.dropped, .ofMillis 5, 2),
    (.fired (.ofMillis 9), .ofMillis 5, 1), (.fired (.ofMillis 9), .ofMillis 5, 3)] := rfl
  have hfired : (.fired (.ofMillis 9), .ofMillis 5, 3) ∈ gone := by
    rw [hgone]
    simp
  exact ⟨hreplies.trans rfl, hnext.trans rfl, hleft, hgone, hdue _ _ hfired⟩

end ClusterBroker.DelayQueue
