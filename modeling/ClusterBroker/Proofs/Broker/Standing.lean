import ClusterBroker.Proofs.Broker.Noting

/-!
# Novel runs

A run may stop the registry and go on after that. All that is asked of it here is that no request
comes under an id that the broker knows at that moment. Operation by operation the broker stands,
serving or shut, and the controller takes its notes.
-/
namespace ClusterBroker.Broker

variable {σ : Type} (C : Connector σ) (clock now : Time) {b : Broker σ} {s : Supervisor}

/-- A request comes under an id that the broker does not know. -/
def Op.Novel (op : Op σ) (b : Broker σ) : Prop := ∀ id, op.reserved = some id → b.get? id = none

/-- So do all the requests of a run. -/
def Novel : List (Time × Op σ) → Broker σ → Prop
  | [], _ => True
  | e :: run, b => e.2.Novel b ∧ Novel run (e.2.run C e.1 b)

theorem Op.Novel.allowed {op : Op σ} (h : op.Novel b) (hs : op ≠ .stop) : op.Allowed b := by
  cases op with
  | reserve id q => exact h id rfl
  | stop => exact absurd rfl hs
  | release | releaseHandle | releaseQueue | start | nodes | deliver | halt | avoidDeadlock | retry
  | turn | roll | addClient | removeClient | tend => trivial

/-! ### One operation -/

theorem Op.run_stands (h : Stands b s []) {op : Op σ} (hop : op.Novel b) :
    ∃ s', Stands (op.run C clock b) s' [] := by
  cases h with
  | shut h =>
    obtain ⟨s', h'⟩ := Op.run_shut C clock h op
    exact ⟨s', .shut h'⟩
  | serving h =>
    by_cases hs : op = .stop
    · subst hs
      cases hst : b.desk.registry.stopped with
      | false => exact ⟨s, .shut (h.stop C clock hst)⟩
      | true =>
        have hd : (b.desk.stop C clock).2 = b.desk := by
          unfold Desk.stop
          rw [if_pos hst]
        have hagrees := h.agrees
        rw [← hd] at hagrees
        exact ⟨s, .serving ⟨⟨h.manned.supervisor, h.manned.listeners⟩, hagrees⟩⟩
    · obtain ⟨s', ids, h'⟩ := Op.run_steps C clock h (hop.allowed hs)
      exact ⟨s', .serving h'.at_rest⟩

theorem Stands.avoidDeadlock (h : Stands b s []) :
    ∃ s', Stands (b.avoidDeadlock C clock now).2 s' [] := by
  have hop : (Op.avoidDeadlock now : Op σ).Novel b := nofun
  exact Op.run_stands C clock h hop

theorem avoidDeadlock_noted (h : Stands b s []) :
    Noted clock (!decide (now.since s.control.lastAllocation < s.control.options.noAllocationLimit))
      0 0 0 b (b.avoidDeadlock C clock now).2 := by
  unfold Broker.avoidDeadlock
  rw [h.manned.control?]
  dsimp only
  split
  next hl =>
    rw [decide_eq_true hl]
    exact .of_control h.manned.control? rfl 0
  next hl =>
    rw [decide_eq_false hl]
    exact backOffRound_noted C now h.manned.control?

/-- Nothing is taken in while gangs step back. -/
theorem releases_intakes (now : Time) (b : Broker σ) (d : Desk σ) :
    Desk.intakes C ((b.releases now).map (Prod.mk clock)) d = [] := by
  have hall : ∀ (vs : List (ReservationId × HandleId)) (d : Desk σ), Desk.intakes C
      ((vs.map fun v => (.release v.2 v.1 false : Desk.Op σ)).map (Prod.mk clock)) d = [] := by
    intro vs
    induction vs with
    | nil => exact fun _ => rfl
    | cons v vs ih => exact fun d => ih _
  unfold releases
  cases b.control? with
  | none => rfl
  | some c =>
    dsimp only
    split
    · rfl
    · exact hall _ _

theorem avoidDeadlock_completes (now : Time) (b : Broker σ) :
    (Op.avoidDeadlock now : Op σ).completes C clock b = false := by
  unfold Op.completes Op.intakes Op.errands
  rw [releases_intakes]
  rfl

theorem intakes_append (run run' : List (Time × Desk.Op σ)) (d : Desk σ) :
    Desk.intakes C (run ++ run') d =
      Desk.intakes C run d ++ Desk.intakes C run' (Desk.after C run d) := by
  induction run generalizing d with
  | nil => rfl
  | cons e run ih =>
    have hcons : ∀ run, Desk.intakes C (e :: run) d =
        e.2.intakes C e.1 d ++ Desk.intakes C run (e.2.run C e.1 d).1 := fun _ => rfl
    rw [List.cons_append, Desk.after_cons, hcons, hcons, ih, List.append_assoc]

/-- What a turn takes in, it takes in while gangs are placed again. -/
theorem turn_intakes (b : Broker σ) : (Op.turn : Op σ).intakes C clock b =
    (Op.retry clock).intakes C clock (b.avoidDeadlock C clock clock).2 := by
  have hd := avoidDeadlock_desk C clock clock b
  unfold serve at hd
  unfold Op.intakes
  rw [hd]
  unfold Op.errands
  rw [List.map_append, intakes_append, releases_intakes, List.nil_append]

theorem turn_noted (h : Stands b s []) : Noted clock ((Op.turn : Op σ).completes C clock b ||
      !decide (clock.since s.control.lastAllocation < s.control.options.noAllocationLimit)) 0 0 0
    b (b.supervisionTurn C clock).2 := by
  obtain ⟨s₁, h₁⟩ := h.avoidDeadlock C clock clock
  have hall := (avoidDeadlock_noted C clock clock h).trans (retry_noted C clock h₁)
  rw [Bool.or_comm] at hall
  unfold Op.completes
  rw [turn_intakes]
  exact hall

/-- A batch that the desk takes in by itself. -/
theorem Stands.desk_noted (h : Stands b s []) {clock : Time} {o : Desk.Op σ}
    (hchain : ∃ l, Intake.Chain clock b.desk.ledger (o.intakes C clock b.desk) l) :
    Noted clock ((o.intakes C clock b.desk).any Intake.completes) 0 0 0 b
      (b.follow clock (o.run C clock b.desk).2 (o.run C clock b.desk).1) := by
  refine follow_noted h.manned (Desk.Op.eventsOf_run C clock o b.desk) ?_ _
  cases h with
  | serving h =>
    obtain ⟨l, hl⟩ := hchain
    exact h.agrees.chain hl
  | shut h =>
    rw [← Desk.Op.eventsOf_run, (Desk.Op.run_closed C clock h.closed o).2,
      h.closed.intakes C clock o]
    exact .refl s.control clock 0

/-- An operation that gives nothing up and ends no round leads to the notes of what it completes. -/
theorem Op.noted_of_completes (op : Op σ) (hgives : ∀ r, op.releases r = false)
    (hround : ∀ now, op ≠ .avoidDeadlock now) (hturn : op ≠ .turn) {limit : Span} {last : Time}
    {b' : Broker σ} (h : Noted clock (op.completes C clock b) 0 0 0 b b') :
    Noted clock (op.completes C clock b || op.endsRound limit clock last) (op.givesUp b) 0 0 b
      b' := by
  rw [Op.givesUp_eq_zero hgives, Op.endsRound_eq_false op hround hturn, Bool.or_false]
  exact h

/-- The notes that an operation leads to. -/
theorem Op.run_noted (h : Stands b s []) {op : Op σ} (hop : op.Novel b) :
    Noted clock (op.completes C clock b ||
        op.endsRound s.control.options.noAllocationLimit clock s.control.lastAllocation)
      (op.givesUp b) 0 0 b (op.run C clock b) := by
  have hc := h.manned.control?
  have hquiet : ∀ {b' : Broker σ}, b'.control? = b.control? → Noted clock false 0 0 0 b b' :=
    fun he => .of_control hc he 0
  cases op with
  | release hd id n => exact (forgetOf_noted h hd id n).same_control rfl
  | releaseHandle hd n => exact (forgetWhere_noted h (.releaseHandle hd n)).same_control rfl
  | releaseQueue q n => exact (forgetWhere_noted h (.releaseQueue q n)).same_control rfl
  | reserve id q =>
    refine Op.noted_of_completes C clock (.reserve id q) (fun _ => rfl) nofun nofun ?_
    exact reserve_noted C h id q (hop id rfl)
  | deliver cs =>
    refine Op.noted_of_completes C clock (.deliver cs) (fun _ => rfl) nofun nofun ?_
    exact h.desk_noted C (o := .deliver cs) ⟨_, Desk.deliver_chain C clock b.desk cs⟩
  | halt order =>
    refine Op.noted_of_completes C clock (.halt order) (fun _ => rfl) nofun nofun ?_
    exact h.desk_noted C (o := .halt order) ⟨_, Desk.halt_chain C clock b.desk order⟩
  | avoidDeadlock now =>
    rw [Op.givesUp_eq_zero (fun _ => rfl), avoidDeadlock_completes, Bool.false_or]
    exact avoidDeadlock_noted C clock now h
  | retry now =>
    refine Op.noted_of_completes C clock (.retry now) (fun _ => rfl) nofun nofun ?_
    exact retry_noted C now h
  | turn =>
    rw [Op.givesUp_eq_zero (fun _ => rfl)]
    exact turn_noted C clock h
  | roll dice =>
    rw [Op.givesUp_eq_zero (fun _ => rfl)]
    have hsame : s.control.Quiet { s.control with dice := dice } := .of_eq rfl rfl rfl rfl
    exact .modifyControl (f := fun c => { c with dice := dice }) hc (hsame.notes rfl)
  | addClient x =>
    rw [Op.givesUp_eq_zero (fun _ => rfl)]
    exact hquiet (addClient_control? x b)
  | removeClient i =>
    rw [Op.givesUp_eq_zero (fun _ => rfl)]
    exact hquiet (removeClient_control? i b)
  | start | nodes | tend | stop =>
    rw [Op.givesUp_eq_zero (fun _ => rfl)]
    exact hquiet rfl

end ClusterBroker.Broker
