import ClusterBroker.Broker.Supervision
import ClusterBroker.Proofs.Broker.Placing

/-!
# Turns of the supervisor

A round of stepping back and a round of second chances keep the controller and the ledger in
agreement, one gang after the other. Nobody hears of the first; the second ends what cannot be
placed again, and says so.
-/
namespace ClusterBroker.Broker

open GangControl (Agrees Goes Struck SameClaims)

variable {σ : Type} (C : Connector σ) (clock now : Time) {b : Broker σ} {s : Supervisor}
  {hand : List Reservation} {leaving : List (ReservationId × HandleId)}

/-- The controller is changed in a way that none of its clients can see. -/
theorem At.touch {f : GangControl → GangControl} {hand' : List Reservation}
    {leaving' : List (ReservationId × HandleId)} (h : At b s hand leaving)
    (ha : Agrees (f s.control) b.desk.ledger hand' leaving')
    (hs : SameClaims s.control (f s.control)) :
    At (b.modifyControl f) { s with control := f s.control } hand' leaving' ∧
      Passes C (fun _ => True) b s [] (b.modifyControl f) { s with control := f s.control } := by
  have hm := h.manned.modifyControl f
  exact ⟨⟨hm, ha⟩, .of_silent hm rfl rfl, fun _ => .of_same _ hs fun _ => .inl rfl⟩

/-! ### Stepping back -/

theorem stepBack_passes {v : ReservationId × HandleId} (h : At b s [] (v :: leaving)) :
    ∃ s', At (b.stepBack C clock now v) s' [] leaving ∧
      Passes C (fun _ => True) b s [] (b.stepBack C clock now v) s' := by
  obtain ⟨hopen, r, hr, hrh⟩ := h.agrees.leaving_open v (List.mem_cons_self ..)
  obtain ⟨hl, hg⟩ := Desk.release_ledger C clock h.agrees.sound v.2 v.1 false
  obtain ⟨t, ht, -⟩ := Ledger.openGang_iff.1 hopen
  have hhandle : t.handle = v.2 := by
    rw [← hrh]
    exact (Reservation.claim_eq_iff.1 (h.agrees.claim_eq hr ht)).2.1
  have hg' : ∀ k, (b.desk.release C clock v.2 v.1 false).2.ledger.get? k =
      if v.1 = k then none else b.desk.ledger.get? k := by
    intro k
    rw [hg, ht]
    simp [hhandle]
  have hm : Manned ({ b with desk := (b.desk.release C clock v.2 v.1 false).2 } : Broker σ) s :=
    ⟨h.manned.supervisor, h.manned.listeners⟩
  have hm' := hm.modifyControl (GangControl.stepBack now v.1)
  have hsame := GangControl.stepBack_sameClaims hr (h.agrees.known_id hr) now
  refine ⟨_, ⟨hm', h.agrees.stepBack now hl hg'⟩, .of_silent hm' rfl rfl,
    fun _ => .of_same _ hsame fun k => ?_⟩
  have hk : (b.stepBack C clock now v).desk.ledger.get? k =
    if v.1 = k then none else b.desk.ledger.get? k := hg' k
  rw [hk]
  by_cases he : v.1 = k
  · subst he
    simp [hr]
  · simp [he]

theorem stepBacks_passes (h : At b s [] leaving) :
    ∃ s', At (leaving.foldl (stepBack C clock now) b) s' [] [] ∧
      Passes C (fun _ => True) b s [] (leaving.foldl (stepBack C clock now) b) s' := by
  induction leaving generalizing b s with
  | nil => exact ⟨s, h, .refl C _ h.manned⟩
  | cons v leaving ih =>
    obtain ⟨s₁, h₁, hp₁⟩ := stepBack_passes C clock now h
    obtain ⟨s₂, h₂, hp₂⟩ := ih h₁
    exact ⟨s₂, h₂, hp₁.trans hp₂⟩

theorem backOffRound_passes (h : At b s [] []) : ∃ s',
    At (b.backOffRound C clock now s.control) s' [] [] ∧
      Passes C (fun _ => True) b s [] (b.backOffRound C clock now s.control) s' := by
  have hbegin : SameClaims s.control
      (s.control.pickVictims.2.noteRound s.control.pickVictims.1) := by
    have hp := GangControl.pick_sameClaims s.control.target s.control.submitted.size s.control
    intro k
    rw [(s.control.noteRound_books).1]
    exact hp k
  obtain ⟨h₁, hp₁⟩ := h.touch C
    (f := fun _ => s.control.pickVictims.2.noteRound s.control.pickVictims.1)
    h.agrees.noteRound hbegin
  obtain ⟨s₂, h₂, hp₂⟩ := stepBacks_passes C clock now h₁
  obtain ⟨h₃, hp₃⟩ := h₂.touch C (f := fun c => { c with lastAllocation := clock })
    (h₂.agrees.congr rfl rfl rfl) fun _ => rfl
  exact ⟨_, h₃, (hp₁.trans hp₂).trans hp₃⟩

theorem avoidDeadlock_passes (h : At b s [] []) : ∃ s',
    At (b.avoidDeadlock C clock now).2 s' [] [] ∧
      Passes C (fun _ => True) b s [] (b.avoidDeadlock C clock now).2 s' := by
  unfold avoidDeadlock
  rw [h.manned.control?]
  dsimp only
  split
  · exact ⟨s, h, .refl C _ h.manned⟩
  · exact backOffRound_passes C clock now h

/-! ### Second chances -/

theorem placeAgain_passes {r : Reservation} (h : At b s (r :: hand) []) : ∃ s' ids,
    At (b.placeAgain C clock r) s' hand [] ∧
      Passes C (fun _ => True) b s ids (b.placeAgain C clock r) s' := by
  unfold placeAgain
  dsimp only
  rcases place_hand C clock h with ⟨placed, s', ids, ha, h', hp⟩ | ⟨f, s', ids, l, ha, hu⟩
  · rw [ha]
    obtain ⟨h₁, hp₁⟩ := h'.touch C (f := GangControl.noteResubmission true)
      (h'.agrees.congr rfl rfl rfl) fun _ => rfl
    exact ⟨_, _, h₁, hp.trans hp₁⟩
  · rw [ha]
    have hforget := GangControl.forget_struck
      (c := s'.control.noteResubmission false) hu.tidy r.id
    have hstruck : Struck [r.id] s'.control ((s'.control.noteResubmission false).forget r.id).2 :=
      ⟨hforget.known, hforget.submitted, hforget.waiting⟩
    have hm := hu.hears.manned.modifyControl fun c => ((c.noteResubmission false).forget r.id).2
    obtain ⟨s₂, hh, hc, hd⟩ := forward_hears hm (.rejection r.handle r.id)
    have hids : (Event.rejection r.handle r.id).settled = [r.id] := rfl
    rw [hids] at hh
    have hall := (hu.hears.trans (.of_silent hm rfl rfl)).trans hh
    rw [List.append_nil] at hall
    refine ⟨s₂, _, ⟨hh.manned, ?_⟩, hall, fun hC => ?_⟩
    · rw [hc, hd]
      exact hu.agrees hstruck
    · rw [hc, hd]
      exact hu.goes.trans (.abandon _ (hu.live hC) hstruck hu.ledger)

theorem placeAgains_passes (h : At b s hand []) : ∃ s' ids,
    At (hand.foldl (placeAgain C clock) b) s' [] [] ∧
      Passes C (fun _ => True) b s ids (hand.foldl (placeAgain C clock) b) s' := by
  induction hand generalizing b s with
  | nil => exact ⟨s, [], h, .refl C _ h.manned⟩
  | cons r hand ih =>
    obtain ⟨s₁, ids₁, h₁, hp₁⟩ := placeAgain_passes C clock h
    obtain ⟨s₂, ids₂, h₂, hp₂⟩ := ih h₁
    exact ⟨s₂, _, h₂, hp₁.trans hp₂⟩

theorem retry_passes (h : At b s [] []) : ∃ s' ids, At (b.retry C clock now).2 s' [] [] ∧
    Passes C (fun _ => True) b s ids (b.retry C clock now).2 s' := by
  unfold retry
  rw [h.manned.control?]
  dsimp only
  obtain ⟨h₁, hp₁⟩ := h.touch C (f := fun _ => (s.control.wake now).2) (h.agrees.wake now).1
    (GangControl.wake_sameClaims h.agrees now)
  obtain ⟨s₂, ids, h₂, hp₂⟩ := placeAgains_passes C clock h₁
  exact ⟨s₂, _, h₂, hp₁.trans hp₂⟩

theorem supervisionTurn_passes (h : At b s [] []) : ∃ s' ids,
    At (b.supervisionTurn C clock).2 s' [] [] ∧
      Passes C (fun _ => True) b s ids (b.supervisionTurn C clock).2 s' := by
  obtain ⟨s₁, h₁, hp₁⟩ := avoidDeadlock_passes C clock clock h
  obtain ⟨s₂, ids, h₂, hp₂⟩ := retry_passes C clock clock h₁
  exact ⟨s₂, _, h₂, hp₁.trans hp₂⟩

end ClusterBroker.Broker
