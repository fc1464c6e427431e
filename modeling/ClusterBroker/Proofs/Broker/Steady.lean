import ClusterBroker.Proofs.Broker.Admission
import ClusterBroker.Proofs.Custody.Errands
import ClusterBroker.Proofs.Desk.Closed
import ClusterBroker.Proofs.GangControl.Backed

/-!
# What a supervisor knows after any run

As long as the registry was not stopped, whatever ids are asked for, what the controller counts as
submitted is tracked. So while nothing waits the registry turns down every id that the controller
turns down.
-/
namespace ClusterBroker.Broker

open GangControl (Backed Struck)

variable {σ : Type} (C : Connector σ) (clock now : Time) {b : Broker σ} {s : Supervisor}
  {hand : List Reservation} {leaving : List (ReservationId × HandleId)} {r : Reservation}

structure Steady (b : Broker σ) (s : Supervisor) (hand : List Reservation)
    (leaving : List (ReservationId × HandleId)) : Prop where
  manned : Manned b s
  sound : b.desk.ledger.Sound
  backed : s.control.Backed b.desk.ledger hand (leaving.map Prod.fst)

theorem Steady.modifyControl (h : Steady b s hand leaving) {f : GangControl → GangControl}
    {hand' : List Reservation} {leaving' : List (ReservationId × HandleId)}
    (hf : Backed (f s.control) b.desk.ledger hand' (leaving'.map Prod.fst)) :
    Steady (b.modifyControl f) { s with control := f s.control } hand' leaving' :=
  ⟨h.manned.modifyControl f, h.sound, hf⟩

theorem Steady.of_manned {b' : Broker σ} {s' : Supervisor} (h : Steady b s hand leaving)
    (hm : Manned b' s') (hc : s'.control = s.control) (hd : b'.desk = b.desk) :
    Steady b' s' hand leaving := by
  refine ⟨hm, ?_, ?_⟩
  · rw [hd]
    exact h.sound
  · rw [hc, hd]
    exact h.backed

/-- Only the connector changes. -/
theorem Steady.with_desk (h : Steady b s hand leaving) {d : Desk σ}
    (hd : d.ledger = b.desk.ledger) : Steady { b with desk := d } s hand leaving := by
  refine ⟨⟨h.manned.supervisor, h.manned.listeners⟩, ?_, ?_⟩
  · rw [hd]
    exact h.sound
  · rw [hd]
    exact h.backed

theorem Steady.follow (h : Steady b s hand []) {sent : List (Dispatch σ)} {d : Desk σ}
    (hl : b.desk.ledger.Succeeds (settledIn (eventsOf sent)) d.ledger) :
    ∃ s', Steady (b.follow clock sent d) s' hand [] := by
  obtain ⟨s', hh, hs⟩ := follow_hears h.manned h.backed.neat.tidy clock sent d
  exact ⟨s', hh.manned, hl.sound, h.backed.batch hl hs⟩

/-! ### Placements -/

/-- A reservation is placed. If it went through and was not struck out meanwhile, it is tracked. -/
theorem Steady.place (h : Steady b s hand []) (hf : r.Fresh) :
    ∃ s', Steady (b.place C clock r).2 s' hand [] ∧ ((b.place C clock r).1.isOk = true →
      (s'.control.known.get? r.id).isSome = true →
        (b.place C clock r).2.desk.ledger.Carries r) := by
  have hp := Desk.place_placed C clock hf.sound h.sound
  unfold Broker.place
  generalize b.desk.place C clock r = o at hp ⊢
  cases hp with
  | refused =>
    obtain ⟨s', h'⟩ : ∃ s', Steady (b.follow clock [] b.desk) s' hand [] :=
      h.follow clock (.refl h.sound)
    exact ⟨s', h', nofun⟩
  | @done _ d' sent hc _ hl =>
    obtain ⟨s', hh, hs⟩ := follow_hears h.manned h.backed.neat.tidy clock sent d'
    refine ⟨s', ⟨hh.manned, hl.sound, (h.backed.add hc).batch hl hs⟩, fun _ hk => ?_⟩
    obtain ⟨t, ht⟩ := Option.isSome_iff_exists.1 hk
    exact (Ledger.carries_add hf.isOpen_eq).batch hl (hs.of_known ht).1
  | @undone _ d' sent l hc _ hl he =>
    obtain ⟨s', hh, hs⟩ := follow_hears h.manned h.backed.neat.tidy clock sent d'
    obtain ⟨hsound, hg⟩ := Ledger.remove_ledger hl.sound r.id
    rw [← he] at hsound hg
    refine ⟨s', ⟨hh.manned, hsound, ?_⟩, nofun⟩
    -- nothing of this id was tracked before, so only what is in hand can be known by it
    refine h.backed.strike hs fun {t} _ hn ht => ?_
    have hne : r.id ≠ t.id := by
      obtain ⟨t', ht', -⟩ := ht
      intro he
      rw [← he, (Ledger.conflict?_eq_none_iff.1 hc).1] at ht'
      simp at ht'
    exact ((ht.add hc).batch hl hn).removal hne (hg t.id)

theorem Steady.forget (h : Steady b s (r :: hand) []) :
    ∃ s', Steady (b.modifyControl fun c => (c.forget r.id).2) s' hand [] := by
  have hs := GangControl.forget_struck h.backed.neat.tidy r.id
  have hgone := h.backed.strike hs fun _ _ hc => hc
  refine ⟨_, h.modifyControl (f := fun c => (c.forget r.id).2) (hgone.putDown fun hk => ?_)⟩
  rw [hs.known, if_pos (List.mem_singleton_self _)] at hk
  simp at hk

theorem Steady.placeAgain (h : Steady b s (r :: hand) []) :
    ∃ s', Steady (b.placeAgain C clock r) s' hand [] := by
  obtain ⟨s₁, h₁, hok⟩ := h.place C clock (h.backed.hand_fresh r (List.mem_cons_self ..))
  have hnoted := fun ok => h₁.modifyControl (f := GangControl.noteResubmission ok)
    (h₁.backed.congr rfl rfl rfl)
  unfold Broker.placeAgain
  dsimp only
  split
  next hp =>
    rw [hp] at hok
    exact ⟨_, (hnoted true).manned, (hnoted true).sound, (hnoted true).backed.putDown (hok rfl)⟩
  next =>
    obtain ⟨s₂, h₂⟩ := (hnoted false).forget
    rw [modifyControl_modifyControl] at h₂
    obtain ⟨s₃, ht, hc, hd⟩ := forward_tells h₂.manned (.rejection r.handle r.id)
    exact ⟨s₃, h₂.of_manned ht.manned hc hd⟩

theorem Steady.placeAgains (h : Steady b s hand []) :
    ∃ s', Steady (hand.foldl (Broker.placeAgain C clock) b) s' [] [] := by
  induction hand generalizing b s with
  | nil => exact ⟨s, h⟩
  | cons r hand ih =>
    obtain ⟨s₁, h₁⟩ := h.placeAgain C clock
    exact ih h₁

theorem Steady.retry (h : Steady b s [] []) (hw : b.Watched Reservation.Fresh) :
    ∃ s', Steady (b.retry C clock now).2 s' [] [] := by
  have hfresh := (hw s.control h.manned.control?).wake now
  unfold Broker.retry
  rw [h.manned.control?]
  exact (h.modifyControl (f := fun _ => (s.control.wake now).2)
    (h.backed.wake now hfresh)).placeAgains C clock

theorem Steady.submitGang (h : Steady b s [] []) (hf : r.Fresh)
    (hk : s.control.known.get? r.id = none) :
    ∃ s', Steady (b.submitGang C clock r).2 s' [] [] := by
  have hsub : Steady (b.modifyControl (GangControl.submit r))
      { s with control := s.control.submit r } [r] [] := h.modifyControl (h.backed.submit hf hk)
  obtain ⟨s₁, h₁, hok⟩ := hsub.place C clock hf
  unfold Broker.submitGang
  dsimp only
  split
  next hp =>
    rw [hp] at hok
    exact ⟨s₁, h₁.manned, h₁.sound, h₁.backed.putDown (hok rfl)⟩
  next => exact h₁.forget

theorem Steady.reserve (h : Steady b s [] []) (id : ReservationId) (q : Request) :
    ∃ s', Steady (b.reserve C clock id q).2 s' [] [] := by
  have hdirect : ∃ s', Steady (b.reserveDirectly C clock id q).2 s' [] [] := by
    unfold reserveDirectly Desk.reserve
    cases hf : q.fault? with
    | some f =>
      have hsame : ∃ s', Steady (b.follow clock [] b.desk) s' [] [] :=
        h.follow clock (.refl h.sound)
      exact hsame
    | none =>
      obtain ⟨s', h', -⟩ := h.place C clock (Reservation.fresh_ofRequest id clock hf)
      exact ⟨s', h'⟩
  unfold Broker.reserve
  rw [h.manned.control?]
  dsimp only
  split
  next =>
    unfold reserveGang
    cases hf : q.fault? with
    | some f => exact ⟨s, h⟩
    | none =>
      dsimp only
      split
      next => exact ⟨s, h⟩
      next hn =>
        have hk : s.control.known.get? id = none := Table.contains_eq_false.1 (by simpa using hn)
        split
        next => exact h.submitGang C clock (Reservation.fresh_ofRequest id clock hf) hk
        next => exact ⟨_, h.modifyControl (h.backed.wait clock hk)⟩
  next => exact hdirect

/-! ### Releases -/

theorem Steady.stepBack {v : ReservationId × HandleId} (h : Steady b s [] (v :: leaving)) :
    ∃ s', Steady (b.stepBack C clock now v) s' [] leaving := by
  obtain ⟨hl, hg⟩ := Desk.release_ledger C clock h.sound v.2 v.1 false
  have hm : Manned ({ b with desk := (b.desk.release C clock v.2 v.1 false).2 } : Broker σ) s :=
    ⟨h.manned.supervisor, h.manned.listeners⟩
  refine ⟨_, hm.modifyControl (GangControl.stepBack now v.1), hl, ?_⟩
  exact h.backed.stepBack now fun {t} hne ht => ht.removal (fun he => hne he.1.symm) (hg t.id)

theorem Steady.stepBacks (h : Steady b s [] leaving) :
    ∃ s', Steady (leaving.foldl (Broker.stepBack C clock now) b) s' [] [] := by
  induction leaving generalizing b s with
  | nil => exact ⟨s, h⟩
  | cons v leaving ih =>
    obtain ⟨s₁, h₁⟩ := h.stepBack C clock now
    exact ih h₁

theorem Steady.avoidDeadlock (h : Steady b s [] []) :
    ∃ s', Steady (b.avoidDeadlock C clock now).2 s' [] [] := by
  unfold Broker.avoidDeadlock
  rw [h.manned.control?]
  dsimp only
  split
  · exact ⟨s, h⟩
  · obtain ⟨s₁, h₁⟩ := (h.modifyControl
      (f := fun _ => s.control.pickVictims.2.noteRound s.control.pickVictims.1)
      h.backed.noteRound).stepBacks C clock now
    exact ⟨_, h₁.modifyControl (f := fun c => { c with lastAllocation := clock })
      (h₁.backed.congr rfl rfl rfl)⟩

theorem Steady.release (h : Steady b s [] []) (hd : HandleId) (id : ReservationId)
    (noCache : Bool) : ∃ s', Steady (b.release C clock hd id noCache).2 s' [] [] := by
  have hs := GangControl.forget_struck h.backed.neat.tidy id
  have hgone : ∀ {d : Desk σ} {c : GangControl} {ids : List ReservationId},
      d = b.desk → Struck ids s.control c →
      (∀ t, s.control.known.get? t.id = some t → t.id ∉ ids → t.id = id → t.handle ≠ hd) →
      (d.release C clock hd id noCache).2.ledger.Sound ∧
        c.Backed (d.release C clock hd id noCache).2.ledger [] [] := by
    rintro d c ids rfl hs hn
    obtain ⟨hl, hg⟩ := Desk.release_ledger C clock h.sound hd id noCache
    refine ⟨hl, h.backed.strike hs fun {t} hk hi ht => ht.removal (fun he => ?_) (hg t.id)⟩
    obtain ⟨t', ht', -, hc⟩ := ht
    obtain ⟨he, hh⟩ := he
    rw [he, ht'] at hh
    have hh : t'.handle = hd := of_decide_eq_true hh
    exact hn t hk hi he.symm ((Reservation.claim_eq_iff.1 hc).2.1 ▸ hh)
  unfold Broker.release forgetOf
  rw [h.manned.supervisor]
  dsimp only
  split
  next =>
    obtain ⟨hl, hb⟩ := hgone rfl hs fun t _ hi he => absurd (he ▸ List.mem_singleton_self _) hi
    exact ⟨_, ⟨rfl, h.manned.listeners⟩, hl, hb⟩
  next hn =>
    obtain ⟨hl, hb⟩ := hgone rfl (.refl _) fun t hk _ he hh => hn (by rw [← he, hk]; simp [hh])
    exact ⟨_, ⟨h.manned.supervisor, h.manned.listeners⟩, hl, hb⟩

theorem Steady.releaseWhere (h : Steady b s [] []) {p : Reservation → Bool}
    (hp : ∀ r t : Reservation, r.claim = t.claim → p r = p t) (noCache : Bool) :
    ∃ s', Steady { (b.forgetWhere p).2 with
      desk := ((b.forgetWhere p).2.desk.releaseWhere C clock p noCache).2 } s' [] [] := by
  obtain ⟨ids, hs, hids⟩ :=
    GangControl.forgetWhere_struck h.backed.neat.tidy h.backed.neat.known_id p
  obtain ⟨hl, hg⟩ := Desk.releaseWhere_ledger C clock h.sound p noCache
  unfold Broker.forgetWhere
  rw [h.manned.supervisor]
  refine ⟨_, ⟨rfl, h.manned.listeners⟩, hl,
    h.backed.strike hs fun {t} hk hi ht => ht.removal (fun ha => hi ((hids _).2 ?_)) (hg t.id)⟩
  obtain ⟨t', ht', -, hc⟩ := ht
  rw [ht'] at ha
  rw [hk]
  exact (hp t' t hc).symm.trans ha

/-! ### Any run -/

theorem Op.run_steady (h : Steady b s [] []) (hw : b.Watched Reservation.Fresh) {op : Op σ}
    (hop : op ≠ .stop) : ∃ s', Steady (op.run C clock b) s' [] [] := by
  cases op with
  | reserve id q => exact h.reserve C clock id q
  | release hd id n => exact h.release C clock hd id n
  | releaseHandle hd n =>
    exact h.releaseWhere C clock (p := fun r => r.handle = hd)
      (fun r t he => by rw [(Reservation.claim_eq_iff.1 he).2.1]) n
  | releaseQueue q n =>
    exact h.releaseWhere C clock (p := fun r => r.queue = q)
      (fun r t he => by rw [(Reservation.claim_eq_iff.1 he).2.2.1]) n
  | start => exact ⟨s, h.with_desk rfl⟩
  | nodes => exact ⟨s, h.with_desk rfl⟩
  | deliver cs => exact h.follow clock (Desk.deliver_succeeds C clock h.sound cs)
  | halt order => exact h.follow clock (Desk.onHaltedIn_succeeds C clock h.sound order)
  | avoidDeadlock now => exact h.avoidDeadlock C clock now
  | retry now => exact h.retry C clock now hw
  | turn =>
    obtain ⟨s', h'⟩ := h.avoidDeadlock C clock clock
    exact h'.retry C clock clock (hw.avoidDeadlock C clock clock)
  | roll dice =>
    exact ⟨_, h.modifyControl (f := fun c => { c with dice := dice })
      (h.backed.congr rfl rfl rfl)⟩
  | addClient x =>
    refine ⟨{ s with clients := (s.clients.add x).2 }, ?_⟩
    unfold run Broker.addClient
    dsimp only
    rw [h.manned.supervisor]
    exact h.of_manned ⟨rfl, h.manned.listeners⟩ rfl rfl
  | removeClient i =>
    refine ⟨{ s with clients := (s.clients.remove i).2 }, ?_⟩
    unfold run Broker.removeClient
    dsimp only
    rw [h.manned.supervisor]
    exact h.of_manned ⟨rfl, h.manned.listeners⟩ rfl rfl
  | tend f => exact ⟨s, h.with_desk rfl⟩
  | stop => exact absurd rfl hop

theorem Op.run_closed (h : b.desk.Closed) (op : Op σ) : (op.run C clock b).desk.Closed := by
  rw [Op.run_desk]
  exact serve_keeps C clock (P := Desk.Closed)
    (fun o _ _ hd => (Desk.Op.run_closed C clock hd o).1) h

theorem stop_steady (h : Steady b s [] []) :
    (b.stop C clock).2.desk.Closed ∨ Steady (b.stop C clock).2 s [] [] := by
  unfold stop
  cases hs : b.desk.registry.stopped with
  | false => exact .inl (Desk.stop_closed C clock h.sound hs)
  | true =>
    refine .inr (h.with_desk ?_)
    unfold Desk.stop
    rw [if_pos hs]

/-- After any run the registry was stopped, or what the controller knows is tracked. -/
theorem after_steady (run : List (Time × Op σ)) (hw : b.Watched Reservation.Fresh)
    (h : b.desk.Closed ∨ ∃ s, Steady b s [] []) :
    (after C run b).desk.Closed ∨ ∃ s, Steady (after C run b) s [] [] := by
  induction run generalizing b with
  | nil => exact h
  | cons e run ih =>
    rw [after_cons]
    refine ih (hw.run C e.1 fun id q _ hf => Reservation.fresh_ofRequest id e.1 hf) ?_
    rcases h with h | ⟨s, h⟩
    · exact .inl (Op.run_closed C e.1 h e.2)
    · by_cases hop : e.2 = .stop
      · rw [hop]
        exact (stop_steady C e.1 h).imp_right fun h' => ⟨s, h'⟩
      · exact .inr (Op.run_steady C e.1 h hw hop)

theorem supervised_steady (o : DeadlockOptions) (queue : QueueName) (s : σ) :
    Steady (supervised clock o queue s) { control := { options := o, lastAllocation := clock } }
      [] [] :=
  ⟨⟨rfl, ⟨0⟩, rfl⟩, Desk.sound_opened queue s, GangControl.backed_empty o clock⟩

end ClusterBroker.Broker
