import ClusterBroker.Proofs.Broker.Division
import ClusterBroker.Proofs.Broker.Keeping
import ClusterBroker.Proofs.Broker.Shut
import ClusterBroker.Proofs.Broker.Steady
import ClusterBroker.Proofs.GangControl.Queue

/-!
# Between two operations

What holds of a supervised broker after any run at all, whatever ids are asked for and whether or
not the registry was stopped meanwhile. The books of the controller are neat, it knows gangs only,
as they were asked for, its options are the ones that it was given, and its timers lie in order. If
its gangs are divided between it and the registry too, the two agree.
-/
namespace ClusterBroker

open GangControl (Stable Knows)

namespace GangControl

variable {clock : Time} {c : GangControl}

/-- The options are never changed. -/
theorem stable_options (o : DeadlockOptions) (clock : Time) :
    Stable (fun _ => True) clock fun c => c.options = o := by
  refine ⟨⟨id, fun {c} id h => ?_, fun {c} ok h => ?_⟩, fun h _ => h, fun {c r} now h _ => ?_,
    fun {c} now id h => ?_, fun {c} h => ?_, fun {c} now h => ?_, fun _ => id⟩
  · exact (forget_quiet id c).options_eq.trans h
  · have hn : Notes clock false 0 1 0 c (c.noteResubmission ok) := noteResubmission_notes ok c
    exact hn.options_eq.trans h
  · have hn : Notes clock false 0 0 0 c (c.wait now r) := wait_notes now r c
    exact hn.options_eq.trans h
  · have hn : Notes clock false 0 0 0 c (c.stepBack now id) := stepBack_notes now id c
    exact hn.options_eq.trans h
  · have hn : Notes clock false 0 0 0 c _ := noteRound_notes c
    exact hn.options_eq.trans h
  · exact (go_quiet _ { c with backoff := (c.backoff.drain now).2 }.noteWaiting).options_eq.trans h

/-- The timers always lie in order. -/
theorem stable_inOrder (clock : Time) :
    Stable (fun _ => True) clock fun c => c.backoff.InOrder := by
  have hwait : ∀ {c : GangControl} (now : Time) (r : Reservation), c.backoff.InOrder →
      (c.wait now r).backoff.InOrder := by
    intro c now r h
    have hd : c.drawDelay.2.backoff.InOrder := by
      rw [drawDelay_backoff]
      exact h
    exact hd.push (now.add c.drawDelay.1) r.id
  refine ⟨⟨id, fun {c} id h => ?_, fun ok h => h⟩, fun h _ => h, fun now h _ => hwait now _ h,
    fun {c} now id h => ?_, fun {c} h => ?_, fun {c} now h => ?_, fun _ => id⟩
  · rcases forget_backoff id c with he | he
    · rw [he]
      exact h
    · rw [he]
      exact h.filter _
  · unfold stepBack
    split
    · rw [drawDelay_backoff]
      exact h
    · exact hwait now _ h
  · rw [(noteRound_books c).2.2]
    unfold pickVictims
    rw [(pick_quiet c.target c.submitted.size c).2]
    exact h
  · rw [wake_backoff]
    exact h.drain now

end GangControl

namespace Broker

variable {σ : Type} (C : Connector σ) (clock : Time) {b : Broker σ} {s : Supervisor}

/-! ### Stopped or not -/

/-- A supervised broker between two operations. Nothing is known of what the registry tracks if it
was stopped, except that there is nothing. -/
def ShutOrSteady (b : Broker σ) (s : Supervisor) : Prop := Shut b s [] [] ∨ Steady b s [] []

theorem ShutOrSteady.manned (h : ShutOrSteady b s) : Manned b s := h.elim Shut.manned Steady.manned

theorem ShutOrSteady.neat (h : ShutOrSteady b s) : s.control.Neat [] :=
  h.elim Shut.neat fun h => h.backed.neat

theorem ShutOrSteady.sound (h : ShutOrSteady b s) : b.desk.ledger.Sound :=
  h.elim (fun h => h.closed.sound) Steady.sound

theorem Steady.stop (h : Steady b s [] []) : ShutOrSteady (b.stop C clock).2 s := by
  rcases stop_steady C clock h with hd | h'
  · exact .inl ⟨⟨h.manned.supervisor, h.manned.listeners⟩, hd, h.backed.neat,
      List.forall_mem_nil _⟩
  · exact .inr h'

theorem Op.run_shutOrSteady (h : ShutOrSteady b s) (hw : b.Watched Reservation.Fresh) (op : Op σ) :
    ∃ s', ShutOrSteady (op.run C clock b) s' := by
  rcases h with h | h
  · obtain ⟨s', h'⟩ := Op.run_shut C clock h op
    exact ⟨s', .inl h'⟩
  · by_cases hop : op = .stop
    · subst hop
      exact ⟨s, h.stop C clock⟩
    · obtain ⟨s', h'⟩ := Op.run_steady C clock h hw hop
      exact ⟨s', .inr h'⟩

theorem after_shutOrSteady (run : List (Time × Op σ)) (hw : b.Watched Reservation.Fresh)
    (h : ShutOrSteady b s) : ∃ s', ShutOrSteady (after C run b) s' := by
  induction run generalizing b s with
  | nil => exact ⟨s, h⟩
  | cons e run ih =>
    obtain ⟨s₁, h₁⟩ := Op.run_shutOrSteady C e.1 h hw e.2
    exact ih (hw.run C e.1 fun id q _ hf => Reservation.fresh_ofRequest id e.1 hf) h₁

/-! ### After any run -/

/-- What holds of a supervised broker with these options, whatever was run. -/
structure Resting (o : DeadlockOptions) (b : Broker σ) (s : Supervisor) : Prop where
  settled : ShutOrSteady b s
  options_eq : s.control.options = o
  in_order : s.control.backoff.InOrder
  fresh : s.control.Knows Reservation.Fresh
  gangs : s.control.Knows fun r => r.gang = true

theorem Resting.control? {o : DeadlockOptions} (h : Resting o b s) :
    b.control? = some s.control := h.settled.manned.control?

theorem after_resting (opened : Time) (o : DeadlockOptions) (queue : QueueName) (state : σ)
    (run : List (Time × Op σ)) :
    ∃ s, Resting o (after C run (supervised opened o queue state)) s := by
  have hstart := supervised_steady opened o queue state
  have hinit : ∀ {I : GangControl → Prop}, I { options := o, lastAllocation := opened } →
      (supervised opened o queue state).Controls I := by
    intro I hI c hc
    rw [hstart.manned.control?] at hc
    rw [← Option.some.inj hc]
    exact hI
  have hknows : ∀ {p : Reservation → Prop},
      (∀ id {q : Request} t, q.gang = true → q.fault? = none →
        p (Reservation.ofRequest id q t).reset) →
      (after C run (supervised opened o queue state)).Watched p := fun {p} hok =>
    after_controls C (GangControl.keeping_knows p).stable
      (supervised_watched opened p o queue state) fun e _ id _ _ => hok id e.1
  obtain ⟨s, h⟩ := after_shutOrSteady C run
    (supervised_watched opened Reservation.Fresh o queue state) (.inr hstart)
  have hc := h.manned.control?
  refine ⟨s, h, ?_, ?_, ?_, ?_⟩
  · exact after_controls C (GangControl.stable_options o) (hinit rfl)
      (fun _ _ _ _ _ _ _ => trivial) _ hc
  · exact after_controls C GangControl.stable_inOrder (hinit DelayQueue.inOrder_empty)
      (fun _ _ _ _ _ _ _ => trivial) _ hc
  · refine hknows (fun id q t _ hf => ?_) _ hc
    rw [(Reservation.fresh_ofRequest id t hf).reset_eq]
    exact Reservation.fresh_ofRequest id t hf
  · exact hknows (fun _ _ _ hg _ => hg) _ hc

/-- The reservation is as a client asked for it in this run, and just placed. -/
def AskedFor (run : List (Time × Op σ)) (r : Reservation) : Prop :=
  ∃ e ∈ run, ∃ q, e.2 = .reserve r.id q ∧ q.gang = true ∧ r = .ofRequest r.id q e.1

theorem after_askedFor (opened : Time) (o : DeadlockOptions) (queue : QueueName) (state : σ)
    (run : List (Time × Op σ)) :
    (after C run (supervised opened o queue state)).Watched (AskedFor run) := by
  refine after_controls C (GangControl.keeping_knows (AskedFor run)).stable
    (supervised_watched opened _ o queue state) fun e he id q hop hg hf => ?_
  rw [(Reservation.fresh_ofRequest id e.1 hf).reset_eq]
  exact ⟨e, he, q, hop, hg, rfl⟩

/-! ### When the controller and the registry agree -/

/-- The controller's gangs are submitted or wait, and none does both. The registry tracks the
submitted ones, which still wait for allocations, and none of the waiting ones. -/
structure Divided (b : Broker σ) (c : GangControl) : Prop where
  apart : ∀ id, (c.submitted.get? id).isSome = true → id ∉ c.waiting
  known_iff : ∀ id, (c.known.get? id).isSome = true ↔
    (c.submitted.get? id).isSome = true ∨ id ∈ c.waiting
  waiting_nodup : c.waiting.Nodup
  backedOff_iff : ∀ id r, c.known.get? id = some r → (r.status = .backedOff ↔ id ∈ c.waiting)
  submitted_iff : ∀ id, (c.submitted.get? id).isSome = true ↔ ∃ r, b.registry.get? id = some r ∧
    r.gang = true ∧ (r.status = .pending ∨ r.status = .partly)
  waiting_away : ∀ id ∈ c.waiting, b.registry.get? id = none

theorem At.divided (h : At b s [] []) : Divided b s.control where
  apart _ hs := h.disjoint hs
  known_iff := h.known_iff
  waiting_nodup := h.agrees.waiting_nodup
  backedOff_iff id r hr := by simpa using h.agrees.backedOff_iff hr
  submitted_iff := h.submitted_iff
  waiting_away id hw := (h.agrees.waiting_away id hw).1

/-- Whatever the run was, a broker whose gangs are divided agrees with its registry. -/
theorem Resting.at {o : DeadlockOptions} (h : Resting o b s) (hd : Divided b s.control) :
    At b s [] [] := by
  refine ⟨h.settled.manned, h.settled.sound, h.settled.neat.known_id,
    fun hr => ⟨h.gangs _ _ hr, h.fresh _ _ hr⟩, fun {id r t} hr ht => ?_, fun id => ?_,
    fun id => ?_, fun hr => ?_, hd.waiting_nodup,
    fun id hw => ⟨hd.waiting_away id hw, List.not_mem_nil⟩,
    List.nodup_nil, List.forall_mem_nil _, List.nodup_nil, List.forall_mem_nil _⟩
  · have hk : (s.control.known.get? id).isSome = true := by rw [hr]; rfl
    rcases (hd.known_iff id).1 hk with hs | hw
    · rcases h.settled with h | h
      · rw [h.closed.empty id] at ht
        simp at ht
      · obtain ⟨t', ht', -, hc⟩ := (h.backed.backed hr hs).resolve_left List.not_mem_nil
        rw [h.backed.neat.known_id hr, ht] at ht'
        rwa [Option.some.inj ht']
    · have hn : b.desk.ledger.get? id = none := hd.waiting_away id hw
      rw [hn] at ht
      simp at ht
  · have hopen : b.desk.ledger.openGang id = true ↔ _ := openGang_iff_status
    simpa using (hd.submitted_iff id).trans hopen.symm
  · rw [hd.known_iff id]
    simp
  · rw [hd.backedOff_iff _ _ hr]
    simp

end Broker

end ClusterBroker
