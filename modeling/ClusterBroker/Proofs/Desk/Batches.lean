import ClusterBroker.Proofs.Desk.Run
import ClusterBroker.Proofs.Ledger.Accounting
import ClusterBroker.Proofs.Ledger.Interleaving

/-!
# The batches that a desk takes in

Whatever a desk was asked before, and also while a placement is under way, the ledger that takes in
a batch is sound. So the account of every batch is right, and it makes no difference how the manager
cuts its reports into batches, or in which order it reports on different reservations.
-/
namespace ClusterBroker.Desk

variable {σ : Type} {C : Connector σ} {queue : QueueName} {s : σ} {l : Ledger}

/-- A ledger that takes in a batch at some point of some run. -/
def Reached (C : Connector σ) (queue : QueueName) (s : σ) (l : Ledger) : Prop :=
  ∃ (run : List (Time × Op σ)) (clock : Time) (op : Op σ),
    (∀ e ∈ run, e.2.Proper) ∧ op.Proper ∧
      ∃ a ∈ op.arrivals C clock (after C run (opened queue s)), a.2.ledger = l

theorem Reached.sound (h : Reached C queue s l) : l.Sound := by
  obtain ⟨run, clock, op, hrun, hop, a, ha, rfl⟩ := h
  exact Op.arrivals_sound C clock hop (after_sound C hrun (sound_opened queue s)) a ha

/-- A batch can be reported whenever nothing else is going on. -/
theorem reached_after {run : List (Time × Op σ)} (hrun : ∀ e ∈ run, e.2.Proper) :
    Reached C queue s (after C run (opened queue s)).ledger :=
  ⟨run, ⟨0, by decide⟩, .deliver [], hrun, trivial, _, List.mem_singleton_self _, rfl⟩

/-- A gang of two, the first of which was allocated, and a single resource of the same handle. -/
def gangAndSingle : List (Time × Op σ) :=
  let ask := fun x => (⟨x, ⟨"node"⟩, .dontCare, 1, 512⟩ : Ask)
  [(.ofMillis 10, .reserve (.ofNat 7)
      ⟨.ofNat 3, ⟨"queue"⟩, true, [ask (.ofNat 1), ask (.ofNat 2)]⟩),
    (.ofMillis 20, .reserve (.ofNat 8)
      ⟨.ofNat 3, ⟨"queue"⟩, false, [ask (.ofNat 4)]⟩),
    (.ofMillis 30, .deliver [.allocated (.ofNat 1) ⟨1, 512, ⟨"node"⟩, ⟨"held"⟩⟩])]

theorem gangAndSingle_proper : ∀ e ∈ (gangAndSingle : List (Time × Op σ)), e.2.Proper := by
  intro e he
  unfold gangAndSingle at he
  simp only [List.mem_cons, List.not_mem_nil, or_false] at he
  rcases he with rfl | rfl | rfl <;> trivial

/-- Whatever batch is taken in: it counts, tells and gives back what happened. -/
theorem batch_accounts (h : Reached C queue s l) (now : Time) (cs : List Change) :
    (l.reconcile now cs).Accounts now cs l := Ledger.reconcile_accounts h.sound now cs

/-- The gang is torn down by one change, and the other changes about it are ignored. -/
theorem batch_accounts_tornDown :
    let l := (after ScriptedManager.connector gangAndSingle (opened ⟨"queue"⟩ {})).ledger
    let cs : List Change := [.lost ⟨1, by decide⟩,
      .allocated ⟨4, by decide⟩ ⟨1, 512, ⟨"node"⟩, ⟨"other"⟩⟩,
      .allocated ⟨2, by decide⟩ ⟨1, 512, ⟨"node"⟩, ⟨"late"⟩⟩]
    Reached ScriptedManager.connector ⟨"queue"⟩ {} l ∧
      (l.reconcile ⟨40, by decide⟩ cs).tornDown = 1 ∧
      (l.reconcile ⟨40, by decide⟩ cs).toRelease.map Resource.id = [⟨2, by decide⟩] ∧
      l.Ignores ⟨40, by decide⟩ (cs.take 2)
        (.allocated ⟨2, by decide⟩ ⟨1, 512, ⟨"node"⟩, ⟨"late"⟩⟩) := by
  intro l cs
  have hl : Reached ScriptedManager.connector ⟨"queue"⟩ {} l := reached_after gangAndSingle_proper
  have h := batch_accounts hl ⟨40, by decide⟩ cs
  refine ⟨hl, h.tornDown.trans (by decide), ?_, ?_⟩
  · rw [h.toRelease]
    decide
  · exact h.later [] (.lost ⟨1, by decide⟩) [_] _ [] rfl _
      (List.mem_of_mem_head? (l := _) (by rfl)) (by decide)

/-- Changes lead to the same however they are cut into batches, and in whatever order as long as it
is the same for the changes about each tracked reservation. -/
theorem batches_alike (h : Reached C queue s l) (now : Time) {css dss : List (List Change)}
    (hperm : css.flatten.Perm dss.flatten)
    (horder : ∀ {id r}, l.get? id = some r →
      css.flatten.filter (Change.about r) = dss.flatten.filter (Change.about r)) :
    (l.inBatches now css).Alike (l.inBatches now dss) :=
  Ledger.inBatches_alike h.sound now hperm horder

/-- In one batch, or cut in two with the single resource first. -/
theorem batches_alike_cut :
    let l := (after ScriptedManager.connector gangAndSingle (opened ⟨"queue"⟩ {})).ledger
    let single : Change := .allocated ⟨4, by decide⟩ ⟨1, 512, ⟨"node"⟩, ⟨"other"⟩⟩
    let gang : List Change := [.lost ⟨1, by decide⟩,
      .allocated ⟨2, by decide⟩ ⟨1, 512, ⟨"node"⟩, ⟨"late"⟩⟩]
    (l.inBatches ⟨40, by decide⟩ [gang ++ [single]]).Alike
      (l.inBatches ⟨40, by decide⟩ [[single] ++ gang.take 1, gang.drop 1]) := by
  intro l single gang
  have hl : Reached ScriptedManager.connector ⟨"queue"⟩ {} l := reached_after gangAndSingle_proper
  refine batches_alike hl ⟨40, by decide⟩ (by decide) fun {id r} hr => ?_
  have hall : ∀ r ∈ l.reservations.values,
      [gang ++ [single]].flatten.filter (Change.about r) =
        [[single] ++ gang.take 1, gang.drop 1].flatten.filter (Change.about r) := by decide
  exact hall r (Table.mem_values.2 ⟨id, hr⟩)

end ClusterBroker.Desk
