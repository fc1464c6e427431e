import ClusterBroker.Proofs.Broker.Placing

/-!
# Calls of clients under supervision

What a client asks for keeps the controller and the ledger in agreement. A call ends or begins
reservations without notice, but only those that it names.
-/
namespace ClusterBroker.Broker

open GangControl (Agrees Goes Struck live Has)

variable {σ : Type} (C : Connector σ) (clock : Time) {b : Broker σ} {s : Supervisor}

/-- An id that the broker does not know is free on both sides. -/
theorem At.unknown (h : At b s [] []) {id : ReservationId} (hfree : b.get? id = none) :
    s.control.known.get? id = none ∧ b.desk.ledger.get? id = none := by
  unfold get? at hfree
  rw [h.manned.control?, Option.bind_some, Option.orElse_eq_orElse, Option.orElse_eq_or,
    Option.or_eq_none_iff] at hfree
  obtain ⟨hback, hreg⟩ := hfree
  have hreg : b.desk.ledger.get? id = none := hreg
  refine ⟨?_, hreg⟩
  cases hr : s.control.known.get? id with
  | none => rfl
  | some r =>
    have hsome : (s.control.known.get? id).isSome = true := by simp [hr]
    rcases (h.agrees.known_iff id).1 hsome with hs | hw | hl
    · rcases (h.agrees.submitted_iff id).1 hs with hh | ⟨ho, -⟩
      · simp at hh
      · rw [Ledger.openGang_of_none hreg] at ho
        simp at ho
    · have hb := (h.agrees.backedOff_iff hr).2 (.inl hw)
      simp [GangControl.backedOff?, hr, hb] at hback
    · simp at hl

/-! ### Reserving -/

theorem follow_nil_passes (p : ReservationId → Prop) (h : At b s [] []) :
    ∃ s', At (b.follow clock [] b.desk) s' [] [] ∧
      Passes C p b s [] (b.follow clock [] b.desk) s' := by
  have hl : b.desk.ledger.Succeeds (settledIn (eventsOf ([] : List (Dispatch σ)))) b.desk.ledger :=
    .refl h.agrees.sound
  obtain ⟨s', h', hp⟩ := follow_passes C clock h hl
  exact ⟨s', h', hp.mono fun _ _ => trivial⟩

/-- What is not a gang is placed past the controller. -/
theorem place_other {r : Reservation} (h : At b s [] []) (hr : r.Sound) (hg : r.gang = false)
    (hk : s.control.known.get? r.id = none) : ∃ s' ids, At (b.place C clock r).2 s' [] [] ∧
      Passes C (· ≠ r.id) b s ids (b.place C clock r).2 s' := by
  have hp := Desk.place_placed C clock hr h.agrees.sound
  unfold place
  generalize b.desk.place C clock r = o at hp ⊢
  cases hp with
  | @refused f _ =>
    obtain ⟨s', h', hpass⟩ := follow_nil_passes C clock (· ≠ r.id) h
    exact ⟨s', _, h', hpass⟩
  | @done placed d' sent hc _ hl =>
    obtain ⟨s', hh, hs⟩ := follow_hears h.manned h.agrees.tidy clock sent d'
    refine ⟨s', _, ⟨hh.manned, (h.agrees.add_other hr hg hk hc).batch hl hs⟩, hh, fun _ => ?_⟩
    exact (Goes.other (fun _ _ => rfl) fun k hne => by
      rw [Ledger.get?_add, if_neg (Ne.symm hne)]).trans (.batch _ hl hs)
  | @undone f d' sent l hc _ hl he _ =>
    obtain ⟨s', hh, hs⟩ := follow_hears h.manned h.agrees.tidy clock sent d'
    have hafter := (h.agrees.add_other hr hg hk hc).batch hl hs
    obtain ⟨hsound, hget⟩ := Ledger.remove_ledger hl.sound r.id
    rw [← he] at hsound hget
    have hk' : s'.control.known.get? r.id = none := by
      rw [hs.known, hk, ite_self]
    refine ⟨s', _, ⟨hh.manned, ?_⟩, hh, fun _ => ?_⟩
    · refine hafter.release_id List.not_mem_nil (.refl _) (fun {k t} ht => ?_) hsound hget
      have hne : t.id ≠ r.id := by
        intro he
        rw [← hafter.known_id ht, he, hk'] at ht
        simp at ht
      simp [hne]
    · have hadd : s.control.Goes (· ≠ r.id) b.desk.ledger [] s.control (b.desk.ledger.add r) :=
        .other (fun _ _ => rfl) fun k hne => by rw [Ledger.get?_add, if_neg (Ne.symm hne)]
      have hgone : s'.control.Goes (· ≠ r.id) l [] s'.control d'.ledger :=
        .other (fun _ _ => rfl) fun k hne => by rw [hget, if_neg (Ne.symm hne)]
      have hall := (hadd.trans (.batch _ hl hs)).trans hgone
      rw [List.append_nil] at hall
      exact hall

/-- What a call that took a gang on promises: it is live, or was reported meanwhile. -/
structure Taken (r : Reservation) (ids : List ReservationId) (b' : Broker σ) (s' : Supervisor) :
    Prop where
  census : ids.count r.id + (s'.control.live b'.desk.ledger r.id).toNat = 1
  claim_eq : ∀ {t}, Has s'.control b'.desk.ledger r.id t → t.claim = r.claim

theorem submitGang_passes {r : Reservation} (h : At b s [] []) (hf : r.Fresh) (hg : r.gang = true)
    (hk : s.control.known.get? r.id = none) (hn : b.desk.ledger.get? r.id = none) :
    ∃ s' ids, At (b.submitGang C clock r).2 s' [] [] ∧
      Passes C (· ≠ r.id) b s ids (b.submitGang C clock r).2 s' ∧
      ((b.submitGang C clock r).1.isOk = true → C.Discreet →
        Taken r ids (b.submitGang C clock r).2 s') := by
  have hm := h.manned.modifyControl (GangControl.submit r)
  have hat : At (b.modifyControl (GangControl.submit r))
      { s with control := s.control.submit r } [r] [] := ⟨hm, h.agrees.submit hf hg hk hn⟩
  have hsilent : Hears b s [] (b.modifyControl (GangControl.submit r))
      { s with control := s.control.submit r } := .of_silent hm rfl rfl
  have hself : (s.control.submit r).known.get? r.id = some r := by
    unfold GangControl.submit
    rw [Table.get?_insert, if_pos rfl]
  have hothers : s.control.Goes (· ≠ r.id) b.desk.ledger [] (s.control.submit r)
      b.desk.ledger := .other (fun k hne => by
    unfold GangControl.submit
    rw [Table.get?_insert, if_neg (Ne.symm hne)]) fun _ _ => rfl
  unfold submitGang
  dsimp only
  rcases place_hand C clock hat with ⟨placed, s', ids, ha, h', hp⟩ | ⟨f, s', ids, l, ha, hu⟩
  · rw [ha]
    refine ⟨s', ids, h', ⟨hsilent.trans hp.hears, fun hC => ?_⟩, fun _ hC => ⟨?_, fun {t} ht => ?_⟩⟩
    · exact hothers.trans ((hp.goes hC).mono fun _ _ => trivial)
    · rw [(hp.goes hC).census trivial, GangControl.live_of_known hself]
      rfl
    · obtain ⟨u, hu, hc⟩ := (hp.goes hC).origin trivial ht
      rcases hu with hu | hu
      · rw [show (s.control.submit r).known.get? r.id = some u from hu] at hself
        rw [hc, Option.some.inj hself]
      · rw [show b.desk.ledger.get? r.id = some u from hu] at hn
        simp at hn
  · rw [ha]
    have hstruck := GangControl.forget_struck hu.tidy r.id
    have hm' := hu.hears.manned.modifyControl fun c => (c.forget r.id).2
    refine ⟨_, ids, ⟨hm', hu.agrees hstruck⟩, ⟨?_, fun _ => ?_⟩,
      fun he => absurd he Bool.false_ne_true⟩
    · have hquiet := (hsilent.trans hu.hears).trans (.of_silent hm' rfl rfl)
      rw [List.append_nil] at hquiet
      exact hquiet
    · have hgone : s'.control.Goes (· ≠ r.id) l [] (s'.control.forget r.id).2
          ((b.modifyControl (GangControl.submit r)).place C clock r).2.desk.ledger :=
        .other (fun k hne => by rw [hstruck.known, if_neg (by simpa using hne)])
          fun k hne => by rw [hu.ledger, if_neg (Ne.symm hne)]
      have hall := (hothers.trans (hu.goes.mono fun _ _ => trivial)).trans hgone
      rw [List.append_nil] at hall
      exact hall

theorem reserve_passes (h : At b s [] []) (id : ReservationId) (q : Request)
    (hfree : b.get? id = none) : ∃ s' ids, At (b.reserve C clock id q).2 s' [] [] ∧
      Passes C (· ≠ id) b s ids (b.reserve C clock id q).2 s' ∧
      (q.gang = true → (b.reserve C clock id q).1.isOk = true → C.Discreet →
        Taken (.ofRequest id q clock) ids (b.reserve C clock id q).2 s') := by
  obtain ⟨hk, hn⟩ := h.unknown hfree
  unfold reserve
  rw [h.manned.control?]
  dsimp only
  cases hg : q.gang with
  | false =>
    simp only [Bool.false_eq_true, if_false]
    unfold reserveDirectly Desk.reserve
    cases hf : q.fault? with
    | some f =>
      obtain ⟨s', h', hp⟩ := follow_nil_passes C clock (· ≠ id) h
      exact ⟨s', _, h', hp, False.elim⟩
    | none =>
      have hfresh := Reservation.fresh_ofRequest id clock hf
      obtain ⟨s', ids, h', hp⟩ := place_other C clock h hfresh.sound hg hk
      exact ⟨s', ids, h', hp, False.elim⟩
  | true =>
    simp only [if_true]
    unfold reserveGang
    cases hf : q.fault? with
    | some f => exact ⟨s, [], h, .refl C _ h.manned, fun _ he => absurd he Bool.false_ne_true⟩
    | none =>
      have hfresh := Reservation.fresh_ofRequest id clock hf
      dsimp only
      split
      next => exact ⟨s, [], h, .refl C _ h.manned, fun _ he => absurd he Bool.false_ne_true⟩
      next =>
        split
        next =>
          obtain ⟨s', ids, h', hp, ht⟩ := submitGang_passes C clock h hfresh hg hk hn
          exact ⟨s', ids, h', hp, fun _ => ht⟩
        next =>
          have hm := h.manned.modifyControl (GangControl.wait clock (.ofRequest id q clock))
          have hbooks := (GangControl.wait_books clock (.ofRequest id q clock) s.control).1
          have hself : (GangControl.wait clock (.ofRequest id q clock) s.control).known.get? id =
              some { Reservation.ofRequest id q clock with status := .backedOff } := by
            rw [hbooks]
            exact (Table.get?_insert ..).trans (if_pos rfl)
          refine ⟨_, [], ⟨hm, h.agrees.wait clock hfresh hg hk hn⟩,
            ⟨.of_silent hm rfl rfl, fun _ => ?_⟩, fun _ _ _ => ⟨?_, fun {t} ht => ?_⟩⟩
          · refine .other (fun k hne => ?_) fun _ _ => rfl
            rw [hbooks]
            exact (Table.get?_insert ..).trans (if_neg (Ne.symm hne))
          · rw [List.count_nil]
            exact congrArg (0 + Bool.toNat ·) (GangControl.live_of_known hself)
          · rcases ht with ht | ht
            · rw [show (GangControl.wait clock (.ofRequest id q clock) s.control).known.get? id =
                some t from ht] at hself
              rw [Option.some.inj hself, Reservation.status_claim]
            · rw [show b.desk.ledger.get? id = some t from ht] at hn
              simp at hn

/-! ### Releasing -/

/-- Neither side has what is named any more. -/
structure Freed (q : Reservation → Bool) (b : Broker σ) (s : Supervisor) (b' : Broker σ)
    (s' : Supervisor) : Prop where
  known : ∀ {k r}, Has s.control b.desk.ledger k r → q r = true →
    s'.control.known.get? k = none
  ledger : ∀ {k r}, Has s.control b.desk.ledger k r → q r = true →
    b'.desk.ledger.get? k = none

theorem letGo {b' : Broker σ} {s' : Supervisor} (h : At b s [] []) {q : Reservation → Bool}
    (hq : ∀ r t : Reservation, r.claim = t.claim → q r = q t) (hm : Manned b' s')
    (hcl : s'.clients = s.clients) (ht : b'.told = b.told) {ids : List ReservationId}
    (hc : Struck ids s.control s'.control)
    (hids : ∀ {k r}, s.control.known.get? k = some r → (k ∈ ids ↔ q r = true))
    (hl : b'.desk.ledger.Sound) (hg : ∀ k, b'.desk.ledger.get? k =
      if (b.desk.ledger.get? k).any q then none else b.desk.ledger.get? k) :
    At b' s' [] [] ∧
      Passes C (fun k => ∀ r, Has s.control b.desk.ledger k r → q r = false) b s [] b' s' ∧
      Freed q b s b' s' := by
  refine ⟨⟨hm, h.agrees.release (fun {r t} => hq r t) (List.forall_mem_nil _) hc hids hl hg⟩,
    ⟨.of_silent hm (by rw [hcl]) ht, fun _ => .release hc hids hg⟩, fun {k r} hr hqr => ?_,
    fun {k r} hr hqr => ?_⟩
  · rw [hc.known]
    split
    next => rfl
    next hn =>
      cases ht : s.control.known.get? k with
      | none => rfl
      | some t =>
        refine absurd ((hids ht).2 ?_) hn
        rcases hr with hr | hr
        · rw [ht] at hr
          rw [Option.some.inj hr]
          exact hqr
        · rw [← hq _ _ (h.agrees.claim_eq ht hr)]
          exact hqr
  · rw [hg]
    cases ht : b.desk.ledger.get? k with
    | none => rfl
    | some t =>
      have hqt : q t = true := by
        rcases hr with hr | hr
        · rw [hq _ _ (h.agrees.claim_eq hr ht)]
          exact hqr
        · rw [ht] at hr
          rw [Option.some.inj hr]
          exact hqr
      simp [hqt]

theorem releaseWhere_passes (h : At b s [] []) {q : Reservation → Bool}
    (hq : ∀ r t : Reservation, r.claim = t.claim → q r = q t) (noCache : Bool) :
    let b' : Broker σ := { (b.forgetWhere q).2 with
      desk := ((b.forgetWhere q).2.desk.releaseWhere C clock q noCache).2 }
    ∃ s', At b' s' [] [] ∧
      Passes C (fun k => ∀ r, Has s.control b.desk.ledger k r → q r = false) b s [] b' s' ∧
      Freed q b s b' s' := by
  have hforget : (b.forgetWhere q).2 =
      { b with supervisor := some { s with control := (s.control.forgetWhere q).2 } } := by
    unfold forgetWhere
    rw [h.manned.supervisor]
  obtain ⟨ids, hs, hids⟩ := GangControl.forgetWhere_struck h.agrees.tidy h.agrees.known_id q
  obtain ⟨hl, hg⟩ := Desk.releaseWhere_ledger C clock h.agrees.sound q noCache
  rw [hforget]
  refine ⟨_, letGo C h hq ⟨rfl, h.manned.listeners⟩ rfl rfl hs (fun {k r} hr => ?_) hl hg⟩
  rw [hids, hr]
  rfl

theorem release_passes (h : At b s [] []) (hd : HandleId) (id : ReservationId) (noCache : Bool) :
    ∃ s', At (b.release C clock hd id noCache).2 s' [] [] ∧
      Passes C (fun k => ∀ r, Has s.control b.desk.ledger k r →
        (decide (r.id = id) && decide (r.handle = hd)) = false) b s []
        (b.release C clock hd id noCache).2 s' ∧
      Freed (fun r => decide (r.id = id) && decide (r.handle = hd)) b s
        (b.release C clock hd id noCache).2 s' := by
  let q : Reservation → Bool := fun r => decide (r.id = id) && decide (r.handle = hd)
  have hq : ∀ r t : Reservation, r.claim = t.claim → q r = q t := by
    intro r t hc
    obtain ⟨hid, hh, -⟩ := Reservation.claim_eq_iff.1 hc
    simp only [q, hid, hh]
  obtain ⟨hl, hg⟩ := Desk.release_ledger C clock h.agrees.sound hd id noCache
  have hg' : ∀ k, (b.desk.release C clock hd id noCache).2.ledger.get? k =
      if (b.desk.ledger.get? k).any q then none else b.desk.ledger.get? k := by
    intro k
    rw [hg]
    cases ht : b.desk.ledger.get? k with
    | none => simp
    | some t =>
      have hid := h.agrees.sound.id_eq ht
      by_cases he : id = k
      · subst he
        simp [q, ht, hid]
      · simp [q, he, hid, Ne.symm he]
  unfold release forgetOf
  rw [h.manned.supervisor]
  dsimp only
  by_cases ha : (s.control.known.get? id).any (fun r => r.handle = hd) = true
  · rw [if_pos ha]
    obtain ⟨r, hr, hrh⟩ := (Option.any_eq_true _ _).1 ha
    refine ⟨_, letGo C h hq ⟨rfl, h.manned.listeners⟩ rfl rfl
      (GangControl.forget_struck h.agrees.tidy id) (fun {k t} ht => ?_) hl hg'⟩
    have hid := h.agrees.known_id ht
    by_cases he : k = id
    · subst he
      rw [hr] at ht
      rw [Option.some.inj ht] at hrh
      simp [hid, of_decide_eq_true hrh]
    · simp [he, hid]
  · rw [if_neg ha]
    refine ⟨s, letGo C h hq ⟨h.manned.supervisor, h.manned.listeners⟩ rfl rfl (.refl s.control)
      (fun {k t} ht => ?_) hl hg'⟩
    have hid := h.agrees.known_id ht
    have hne : ¬ (t.id = id ∧ t.handle = hd) := by
      rintro ⟨he, hh⟩
      rw [← hid.symm.trans he, ht] at ha
      exact ha (by simpa using hh)
    simpa [q] using hne

end ClusterBroker.Broker
