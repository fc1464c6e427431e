import ClusterBroker.Proofs.Broker.Admission
import ClusterBroker.Proofs.Custody.Errands
import ClusterBroker.Proofs.Desk.Closed
import ClusterBroker.Proofs.GangControl.Backed
import ClusterBroker.Proofs.GangControl.Notes

/-!
# A supervised broker after it was stopped

The controller is not told that the registry was stopped. It goes on with its books as before: gangs
step back and are placed again, in vain. The books stay neat, though nothing agrees with them any
more. Nothing comes to count as submitted that did not before.
-/
namespace ClusterBroker.Broker

open GangControl (Neat Struck)

variable {σ : Type} (C : Connector σ) (clock now : Time) {b : Broker σ} {s : Supervisor}
  {hand : List Reservation} {leaving : List (ReservationId × HandleId)}

structure Shut (b : Broker σ) (s : Supervisor) (hand : List Reservation)
    (leaving : List (ReservationId × HandleId)) : Prop where
  manned : Manned b s
  closed : b.desk.Closed
  neat : s.control.Neat (leaving.map Prod.fst)
  hand_away : ∀ r ∈ hand, r.id ∉ s.control.waiting

theorem Shut.with_desk (h : Shut b s hand leaving) {d : Desk σ} (hd : d.Closed) :
    Shut { b with desk := d } s hand leaving :=
  ⟨⟨h.manned.supervisor, h.manned.listeners⟩, hd, h.neat, h.hand_away⟩

theorem Shut.modifyControl (h : Shut b s hand leaving) {f : GangControl → GangControl}
    {hand' : List Reservation} {leaving' : List (ReservationId × HandleId)}
    (hf : Neat (f s.control) (leaving'.map Prod.fst))
    (ha : ∀ r ∈ hand', r.id ∉ (f s.control).waiting) :
    Shut (b.modifyControl f) { s with control := f s.control } hand' leaving' :=
  ⟨h.manned.modifyControl f, h.closed, hf, ha⟩

theorem Shut.of_control {b' : Broker σ} {s' : Supervisor} (h : Shut b s hand leaving)
    (hm : Manned b' s') (hd : b'.desk = b.desk) (hc : s'.control = s.control) :
    Shut b' s' hand leaving := by
  refine ⟨hm, ?_, ?_, ?_⟩
  · rw [hd]
    exact h.closed
  · rw [hc]
    exact h.neat
  · rw [hc]
    exact h.hand_away

/-- Nothing is heard. -/
theorem Shut.follow (h : Shut b s hand leaving) {sent : List (Dispatch σ)} (hs : eventsOf sent = [])
    {d : Desk σ} (hd : d.Closed) :
    ∃ s', Shut (b.follow clock sent d) s' hand leaving ∧ s'.control = s.control := by
  obtain ⟨s', ht, hc⟩ := follow_tells h.manned clock sent d
  rw [flatMap_spoken, hs] at hc
  have hc : s'.control = s.control := hc
  refine ⟨s', ⟨ht.manned, hd, ?_, ?_⟩, hc⟩
  · rw [hc]
    exact h.neat
  · rw [hc]
    exact h.hand_away

theorem Shut.forward (h : Shut b s hand leaving) (e : Event) :
    ∃ s', Shut (b.forward e) s' hand leaving ∧ s'.control = s.control := by
  obtain ⟨s', ht, hc, hd⟩ := forward_tells h.manned e
  exact ⟨s', h.of_control ht.manned hd hc, hc⟩

theorem Shut.place (h : Shut b s hand leaving) (r : Reservation) :
    b.place C clock r = (.error .shutDown, b) := by
  unfold Broker.place
  rw [h.closed.place]
  rfl

/-- A request is refused, unless it is a gang that has to wait anyway. -/
theorem Shut.reserve_eq (h : Shut b s [] []) (id : ReservationId) (q : Request) :
    (b.reserve C clock id q).2 = b ∨ s.control.known.get? id = none ∧
      (b.reserve C clock id q).2 =
        b.modifyControl (GangControl.wait clock (.ofRequest id q clock)) := by
  have hblocks : b.desk.Blocks id q := .inr (.inr h.closed.stopped)
  have hfiled : b.Controls GangControl.Filed := by
    intro c hc
    rw [h.manned.control?] at hc
    rw [← Option.some.inj hc]
    intro k hk hn
    exact hk (h.neat.not_submitted hn)
  unfold Broker.reserve
  rw [h.manned.control?]
  dsimp only
  split
  next =>
    cases hf : q.fault? with
    | some f =>
      unfold reserveGang
      rw [hf]
      exact .inl rfl
    | none =>
      by_cases hr : s.control.known.contains id = true ∨ s.control.backoff.isEmpty = true
      · obtain ⟨f, -, hr⟩ := reserveGang_refused C clock hfiled h.manned.control? (q := q)
          (hr.imp_right fun he => ⟨he, hblocks⟩)
        rw [hr]
        exact .inl rfl
      · rw [not_or, Bool.not_eq_true, Bool.not_eq_true] at hr
        rw [reserveGang_waits C clock hf hr.1 hr.2]
        exact .inr ⟨Table.contains_eq_false.1 hr.1, rfl⟩
  next =>
    obtain ⟨f, -, hr⟩ := reserveDirectly_refused C clock hblocks
    rw [hr]
    exact .inl rfl

/-! ### What counts as submitted -/

variable {p : Reservation → Prop}

/-- The broker was stopped, and what its controller counts as submitted satisfies `p`. -/
structure ShutWith (p : Reservation → Prop) (b : Broker σ) (s : Supervisor)
    (hand : List Reservation) (leaving : List (ReservationId × HandleId)) : Prop where
  shut : Shut b s hand leaving
  counts : s.control.CountsOnly p hand

theorem Shut.any (h : Shut b s hand leaving) : ShutWith (fun _ => True) b s hand leaving :=
  ⟨h, fun _ _ _ _ => .inr trivial⟩

theorem ShutWith.with_desk (h : ShutWith p b s hand leaving) {d : Desk σ} (hd : d.Closed) :
    ShutWith p { b with desk := d } s hand leaving := ⟨h.shut.with_desk hd, h.counts⟩

theorem ShutWith.modifyControl (h : ShutWith p b s hand leaving) {f : GangControl → GangControl}
    {hand' : List Reservation} {leaving' : List (ReservationId × HandleId)}
    (hf : Neat (f s.control) (leaving'.map Prod.fst)) (hc : (f s.control).CountsOnly p hand')
    (ha : ∀ r ∈ hand', r.id ∉ (f s.control).waiting) :
    ShutWith p (b.modifyControl f) { s with control := f s.control } hand' leaving' :=
  ⟨h.shut.modifyControl hf ha, hc⟩

/-- The same books, with whoever listens to them. -/
theorem ShutWith.of_shut {b' : Broker σ} {s' : Supervisor} (h : ShutWith p b s hand leaving)
    (h' : Shut b' s' hand leaving) (hc : s'.control = s.control) :
    ShutWith p b' s' hand leaving := by
  refine ⟨h', ?_⟩
  rw [hc]
  exact h.counts

/-! ### Turns -/

theorem ShutWith.stepBack {v : ReservationId × HandleId} (h : ShutWith p b s [] (v :: leaving)) :
    ∃ s', ShutWith p (b.stepBack C clock now v) s' [] leaving := by
  have hd := h.with_desk (Desk.Op.run_closed C clock h.shut.closed (.release v.2 v.1 false)).1
  exact ⟨_, hd.modifyControl (h.shut.neat.stepBack now) (h.counts.stepBack h.shut.neat now)
    (List.forall_mem_nil _)⟩

theorem ShutWith.stepBacks (h : ShutWith p b s [] leaving) :
    ∃ s', ShutWith p (leaving.foldl (Broker.stepBack C clock now) b) s' [] [] := by
  induction leaving generalizing b s with
  | nil => exact ⟨s, h⟩
  | cons v leaving ih =>
    obtain ⟨s₁, h₁⟩ := h.stepBack C clock now
    exact ih h₁

theorem ShutWith.avoidDeadlock (h : ShutWith p b s [] []) :
    ∃ s', ShutWith p (b.avoidDeadlock C clock now).2 s' [] [] := by
  unfold Broker.avoidDeadlock
  rw [h.shut.manned.control?]
  dsimp only
  split
  · exact ⟨s, h⟩
  · obtain ⟨s₁, h₁⟩ := (h.modifyControl
      (f := fun _ => s.control.pickVictims.2.noteRound s.control.pickVictims.1)
      h.shut.neat.noteRound (h.counts.noteRound h.shut.neat) (List.forall_mem_nil _)).stepBacks
      C clock now
    exact ⟨_, h₁.modifyControl (f := fun c => { c with lastAllocation := clock })
      (h₁.shut.neat.congr rfl rfl rfl) h₁.counts (List.forall_mem_nil _)⟩

theorem ShutWith.placeAgain {r : Reservation} (h : ShutWith p b s (r :: hand) []) :
    ∃ s', ShutWith p (b.placeAgain C clock r) s' hand [] := by
  have hs : Struck [r.id] s.control ((s.control.noteResubmission false).forget r.id).2 := by
    have hforget := GangControl.forget_struck (c := s.control.noteResubmission false)
      h.shut.neat.tidy r.id
    exact ⟨hforget.known, hforget.submitted, hforget.waiting⟩
  have haway : ∀ t ∈ hand, t.id ∉ ((s.control.noteResubmission false).forget r.id).2.waiting := by
    intro t ht hw
    rw [hs.waiting] at hw
    exact h.shut.hand_away t (List.mem_cons_of_mem r ht) (List.mem_of_mem_filter hw)
  have hcounts := (h.counts.strike hs fun _ _ hp => hp).putDown fun t ht => by
    rw [hs.known, if_pos (List.mem_singleton_self _)] at ht
    simp at ht
  have hgone : Shut _ { s with control := ((s.control.noteResubmission false).forget r.id).2 }
      hand [] :=
    h.shut.modifyControl (f := fun c => ((c.noteResubmission false).forget r.id).2)
      (Neat.strike h.shut.neat hs) haway
  obtain ⟨s', h', hc⟩ := hgone.forward (.rejection r.handle r.id)
  unfold Broker.placeAgain
  rw [h.shut.place]
  refine ⟨s', h', ?_⟩
  rw [hc]
  exact hcounts

theorem Shut.placeAgain {r : Reservation} (h : Shut b s (r :: hand) []) :
    ∃ s', Shut (b.placeAgain C clock r) s' hand [] := by
  obtain ⟨s', h'⟩ := h.any.placeAgain C clock
  exact ⟨s', h'.shut⟩

theorem ShutWith.placeAgains (h : ShutWith p b s hand []) :
    ∃ s', ShutWith p (hand.foldl (Broker.placeAgain C clock) b) s' [] [] := by
  induction hand generalizing b s with
  | nil => exact ⟨s, h⟩
  | cons r hand ih =>
    obtain ⟨s₁, h₁⟩ := h.placeAgain C clock
    exact ih h₁

theorem ShutWith.retry (h : ShutWith p b s [] []) :
    ∃ s', ShutWith p (b.retry C clock now).2 s' [] [] := by
  unfold Broker.retry
  rw [h.shut.manned.control?]
  have hawake : ShutWith p (b.modifyControl fun _ => (s.control.wake now).2)
      { s with control := (s.control.wake now).2 } (s.control.wake now).1 [] :=
    h.modifyControl (h.shut.neat.wake now).1 (h.counts.wake h.shut.neat now)
      (h.shut.neat.wake_away now)
  exact hawake.placeAgains C clock

/-! ### Any operation -/

theorem ShutWith.reserve (h : ShutWith p b s [] []) (id : ReservationId) (q : Request) :
    ∃ s', ShutWith p (b.reserve C clock id q).2 s' [] [] := by
  rcases h.shut.reserve_eq C clock id q with he | ⟨hk, he⟩
  · rw [he]
    exact ⟨s, h⟩
  · rw [he]
    exact ⟨_, h.modifyControl (h.shut.neat.wait clock hk) (h.counts.wait h.shut.neat clock hk)
      (List.forall_mem_nil _)⟩

/-- Gangs are struck out. -/
theorem ShutWith.strike (h : ShutWith p b s [] []) {c : GangControl} {ids : List ReservationId}
    (hs : Struck ids s.control c) :
    ShutWith p { b with supervisor := some { s with control := c } }
      { s with control := c } [] [] :=
  ⟨⟨⟨rfl, h.shut.manned.listeners⟩, h.shut.closed, Neat.strike h.shut.neat hs,
    List.forall_mem_nil _⟩, h.counts.strike hs fun _ _ hp => hp⟩

theorem ShutWith.forgetWhere (h : ShutWith p b s [] []) (q : Reservation → Bool) :
    ∃ s', ShutWith p (b.forgetWhere q).2 s' [] [] := by
  obtain ⟨ids, hs, -⟩ := GangControl.forgetWhere_struck h.shut.neat.tidy h.shut.neat.known_id q
  unfold Broker.forgetWhere
  rw [h.shut.manned.supervisor]
  exact ⟨_, h.strike hs⟩

theorem ShutWith.forgetOf (h : ShutWith p b s [] []) (hd : HandleId) (id : ReservationId) :
    ∃ s', ShutWith p (b.forgetOf hd id).2 s' [] [] := by
  have hs := GangControl.forget_struck h.shut.neat.tidy id
  unfold Broker.forgetOf
  rw [h.shut.manned.supervisor]
  dsimp only
  split
  · exact ⟨_, h.strike hs⟩
  · exact ⟨s, h⟩

theorem Op.run_shutWith (h : ShutWith p b s [] []) (op : Op σ) :
    ∃ s', ShutWith p (op.run C clock b) s' [] [] := by
  have hdesk : ∀ {b : Broker σ} {s} (o : Desk.Op σ), ShutWith p b s [] [] →
      ShutWith p { b with desk := (o.run C clock b.desk).1 } s [] [] :=
    fun o h => h.with_desk (Desk.Op.run_closed C clock h.shut.closed o).1
  have hheard : ∀ o : Desk.Op σ, ∃ s', ShutWith p (b.follow clock (o.run C clock b.desk).2
      (o.run C clock b.desk).1) s' [] [] := by
    intro o
    obtain ⟨hd, hs⟩ := Desk.Op.run_closed C clock h.shut.closed o
    obtain ⟨s', h', hc⟩ := h.shut.follow clock hs hd
    exact ⟨s', h.of_shut h' hc⟩
  cases op with
  | reserve id q => exact h.reserve C clock id q
  | release hd id n =>
    obtain ⟨s', h'⟩ := h.forgetOf hd id
    exact ⟨s', hdesk (.release hd id n) h'⟩
  | releaseHandle hd n =>
    obtain ⟨s', h'⟩ := h.forgetWhere fun r => r.handle = hd
    exact ⟨s', hdesk (.releaseHandle hd n) h'⟩
  | releaseQueue q n =>
    obtain ⟨s', h'⟩ := h.forgetWhere fun r => r.queue = q
    exact ⟨s', hdesk (.releaseQueue q n) h'⟩
  | start => exact ⟨s, hdesk .start h⟩
  | nodes => exact ⟨s, hdesk .nodes h⟩
  | deliver cs => exact hheard (.deliver cs)
  | halt order => exact hheard (.halt order)
  | avoidDeadlock now => exact h.avoidDeadlock C clock now
  | retry now => exact h.retry C clock now
  | turn =>
    obtain ⟨s', h'⟩ := h.avoidDeadlock C clock clock
    exact h'.retry C clock clock
  | roll dice =>
    exact ⟨_, h.modifyControl (f := fun c => { c with dice := dice })
      (h.shut.neat.congr rfl rfl rfl) h.counts (List.forall_mem_nil _)⟩
  | addClient x =>
    refine ⟨{ s with clients := (s.clients.add x).2 }, ?_⟩
    unfold run Broker.addClient
    dsimp only
    rw [h.shut.manned.supervisor]
    exact h.of_shut (h.shut.of_control ⟨rfl, h.shut.manned.listeners⟩ rfl rfl) rfl
  | removeClient i =>
    refine ⟨{ s with clients := (s.clients.remove i).2 }, ?_⟩
    unfold run Broker.removeClient
    dsimp only
    rw [h.shut.manned.supervisor]
    exact h.of_shut (h.shut.of_control ⟨rfl, h.shut.manned.listeners⟩ rfl rfl) rfl
  | tend f => exact ⟨s, hdesk (.tend f) h⟩
  | stop => exact ⟨s, hdesk .stop h⟩

theorem Op.run_shut (h : Shut b s [] []) (op : Op σ) :
    ∃ s', Shut (op.run C clock b) s' [] [] := by
  obtain ⟨s', h'⟩ := Op.run_shutWith C clock h.any op
  exact ⟨s', h'.shut⟩

/-- Stopping shuts a broker, if that was not done before. -/
theorem At.stop (h : At b s [] []) (hs : b.desk.registry.stopped = false) :
    Shut (b.stop C clock).2 s [] [] :=
  ⟨⟨h.manned.supervisor, h.manned.listeners⟩, Desk.stop_closed C clock h.agrees.sound hs,
    h.agrees.neat, List.forall_mem_nil _⟩

end ClusterBroker.Broker
