import ClusterBroker.Proofs.Desk.Protocol
import ClusterBroker.Proofs.Ledger.Completion

/-!
# After the end

A registry that was stopped tracks nothing and takes nothing on. Whatever is asked of it or reported
to it from then on, nothing changes and nobody hears anything.
-/
namespace ClusterBroker

namespace Ledger

variable {l : Ledger} (now : Time)

theorem apply_empty (h : l.Sound) (he : ∀ id, l.get? id = none) (c : Change) :
    l.apply now c = (l, none) := by
  have hx : l.index.get? c.resource = none := by
    rw [Option.eq_none_iff_forall_ne_some]
    intro id hid
    obtain ⟨r, hr, -⟩ := h.index_iff.1 hid
    rw [he] at hr
    simp at hr
  unfold apply
  rw [hx]

theorem reconcile_empty (h : l.Sound) (he : ∀ id, l.get? id = none) (cs : List Change) :
    (l.reconcile now cs).ledger = l ∧ (l.reconcile now cs).events = [] := by
  have hfold : ∀ (cs : List Change) (b : Batch), b.ledger = l → b.events = [] →
      (cs.foldl (Batch.step now) b).ledger = l ∧ (cs.foldl (Batch.step now) b).events = [] := by
    intro cs
    induction cs with
    | nil => exact fun _ hl hb => ⟨hl, hb⟩
    | cons c cs ih =>
      intro b hl hb
      subst hl
      apply ih
      · rw [Batch.step_ledger, apply_empty now h he]
      · rw [Batch.step_events, apply_empty now h he]
        exact hb
  obtain ⟨hl, hb⟩ := hfold cs { ledger := l } rfl rfl
  refine ⟨hl, ?_⟩
  unfold reconcile
  dsimp only
  rw [hb]
  rfl

end Ledger

theorem Intake.completes_empty {x : Intake} (he : ∀ id, x.ledger.get? id = none) :
    x.completes = false := by
  unfold completes
  rw [List.any_eq_false]
  intro r hr
  obtain ⟨k, hk⟩ := Table.mem_values.1 hr
  rw [show x.ledger.reservations.get? k = none from he k] at hk
  simp at hk

namespace Desk

variable {σ : Type} (C : Connector σ) (clock : Time) {d : Desk σ}

structure Closed (d : Desk σ) : Prop where
  stopped : d.registry.stopped = true
  sound : d.ledger.Sound
  empty : ∀ id, d.ledger.get? id = none

theorem Closed.of_ledger (h : d.Closed) {d' : Desk σ} (hs : d'.registry.stopped = true)
    (hl : d'.ledger = d.ledger) : d'.Closed := by
  refine ⟨hs, ?_, ?_⟩
  · rw [hl]
    exact h.sound
  · rw [hl]
    exact h.empty

theorem Closed.place (h : d.Closed) (r : Reservation) :
    d.place C clock r = ⟨.error .shutDown, d, []⟩ := by
  unfold Desk.place
  rw [if_pos h.stopped]

theorem Closed.reserve (h : d.Closed) (id : ReservationId) (q : Request) :
    ∃ f, d.reserve C clock id q = ⟨.error f, d, []⟩ := by
  unfold Desk.reserve
  cases q.fault? with
  | some f => exact ⟨_, rfl⟩
  | none => exact ⟨_, h.place C clock _⟩

theorem Closed.onChanges (h : d.Closed) (cs : List Change) :
    (d.onChanges C clock cs).1.Closed ∧ eventsOf (d.onChanges C clock cs).2 = [] := by
  obtain ⟨hl, he⟩ := Ledger.reconcile_empty clock h.sound h.empty cs
  refine ⟨h.of_ledger ((onChanges_stopped C clock cs d).trans h.stopped) ?_, ?_⟩
  · rw [onChanges_ledger, hl]
  · rw [eventsOf_onChanges, he]

/-- A removal finds nothing. -/
theorem Closed.removal (h : d.Closed) {d' : Desk σ} (hs : d'.registry.stopped = true)
    (hl : d'.ledger.Sound) {p : ReservationId → Prop} [DecidablePred p]
    (hg : ∀ k, d'.ledger.get? k = if p k then none else d.ledger.get? k) : d'.Closed := by
  refine ⟨hs, hl, fun k => ?_⟩
  rw [hg, h.empty, ite_self]

theorem Op.run_closed (h : d.Closed) (op : Op σ) :
    (op.run C clock d).1.Closed ∧ eventsOf (op.run C clock d).2 = [] := by
  have hone : ∀ {o : Outcome σ (Except BrokerFault Reservation)}, (∃ f, o = ⟨.error f, d, []⟩) →
      o.desk.Closed ∧ eventsOf o.sent = [] := by
    rintro o ⟨f, rfl⟩
    exact ⟨h, rfl⟩
  cases op with
  | reserve id q => exact hone (h.reserve C clock id q)
  | place r => exact hone ⟨_, h.place C clock r⟩
  | release hd id n =>
    obtain ⟨hl, hg⟩ := release_ledger C clock h.sound hd id n
    exact ⟨h.removal ((release_stopped C clock hd id n d).trans h.stopped) hl hg, rfl⟩
  | releaseHandle hd n =>
    obtain ⟨hl, hg⟩ := releaseWhere_ledger C clock h.sound (fun r => r.handle = hd) n
    exact ⟨h.removal ((releaseWhere_stopped C clock _ n d).trans h.stopped) hl hg, rfl⟩
  | releaseQueue q n =>
    obtain ⟨hl, hg⟩ := releaseWhere_ledger C clock h.sound (fun r => r.queue = q) n
    exact ⟨h.removal ((releaseWhere_stopped C clock _ n d).trans h.stopped) hl hg, rfl⟩
  | start => exact ⟨h.of_ledger h.stopped rfl, rfl⟩
  | nodes => exact ⟨h.of_ledger h.stopped rfl, rfl⟩
  | deliver cs =>
    have hpass : ({ d with connector := C.incoming cs d.connector } : Desk σ).Closed :=
      h.of_ledger h.stopped rfl
    exact hpass.onChanges C clock cs
  | halt order =>
    obtain ⟨hl, he⟩ := Ledger.reconcile_empty clock h.sound h.empty ((order d.ledger).map .lost)
    refine ⟨h.of_ledger h.stopped hl, ?_⟩
    unfold run onHaltedIn
    rw [eventsOf_cons, eventsOf_nil, List.append_nil]
    exact he
  | stop =>
    have hstop : (d.stop C clock).2 = d := by
      unfold Desk.stop
      rw [if_pos h.stopped]
    exact ⟨h.of_ledger ((congrArg (·.registry.stopped) hstop).trans h.stopped)
      (congrArg Desk.ledger hstop), rfl⟩
  | tend f => exact ⟨h.of_ledger h.stopped rfl, rfl⟩

/-- Stopping closes the desk, if that was not done before. -/
theorem stop_closed (h : d.ledger.Sound) (hs : d.registry.stopped = false) :
    (d.stop C clock).2.Closed := by
  obtain ⟨hl, hg⟩ := stop_ledger C clock h
  refine ⟨?_, hl, fun k => ?_⟩
  · unfold Desk.stop
    rw [if_neg (by simp [hs])]
    exact releaseWhere_stopped C clock _ true _
  · rw [hg, hs]
    rfl

theorem Closed.arrivals (h : d.Closed) (op : Op σ) :
    ∀ a ∈ op.arrivals C clock d, a.2.ledger = d.ledger := by
  have hnone : ∀ r, d.placeArrivals C clock r = [] := by
    intro r
    unfold placeArrivals
    rw [if_pos h.stopped]
  intro a ha
  cases op with
  | reserve id q => cases hf : q.fault? <;> simp [Op.arrivals, hf, hnone] at ha
  | place r => simp [Op.arrivals, hnone] at ha
  | deliver cs =>
    rw [List.mem_singleton.1 ha]
    rfl
  | halt order => rw [List.mem_singleton.1 ha]
  | release | releaseHandle | releaseQueue | start | nodes | stop | tend => simp [Op.arrivals] at ha

theorem Closed.intakes (h : d.Closed) (op : Op σ) :
    (op.intakes C clock d).any Intake.completes = false := by
  rw [List.any_eq_false]
  intro x hx
  obtain ⟨a, ha, rfl⟩ := List.mem_map.1 hx
  rw [Intake.completes_empty fun id => ?_]
  · simp
  · rw [h.arrivals C clock op a ha]
    exact h.empty id

end Desk

end ClusterBroker
