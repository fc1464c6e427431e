import ClusterBroker.Proofs.Broker.Hearing
import ClusterBroker.Proofs.Desk.Run
import ClusterBroker.Proofs.GangControl.Census

/-!
# Batches and placements under supervision

`At` is a supervised broker whose controller agrees with its ledger; `Passes` is what a stretch of
a run does to it: which reservations the clients hear of as settled, and that these are the ones
that stopped being live. The census needs a connector that reports nothing about what it fails to
submit, so it is stated under that condition.
-/
namespace ClusterBroker.Broker

open GangControl (Agrees Goes Struck live)

variable {σ : Type}

structure At (b : Broker σ) (s : Supervisor) (hand : List Reservation)
    (leaving : List (ReservationId × HandleId)) : Prop where
  manned : Manned b s
  agrees : s.control.Agrees b.desk.ledger hand leaving

structure Passes (C : Connector σ) (p : ReservationId → Prop) (b : Broker σ) (s : Supervisor)
    (ids : List ReservationId) (b' : Broker σ) (s' : Supervisor) : Prop where
  hears : Hears b s ids b' s'
  goes : C.Discreet → s.control.Goes p b.desk.ledger ids s'.control b'.desk.ledger

variable (C : Connector σ) (clock : Time) {b b' b'' : Broker σ} {s s' s'' : Supervisor}
  {hand : List Reservation}

theorem Passes.refl (p : ReservationId → Prop) (h : Manned b s) : Passes C p b s [] b s :=
  ⟨.refl h, fun _ => .refl p _ _⟩

variable {C} in
theorem Passes.trans {p : ReservationId → Prop} {ids ids' : List ReservationId}
    (h : Passes C p b s ids b' s') (h' : Passes C p b' s' ids' b'' s'') :
    Passes C p b s (ids ++ ids') b'' s'' :=
  ⟨h.hears.trans h'.hears, fun hC => (h.goes hC).trans (h'.goes hC)⟩

variable {C} in
theorem Passes.mono {p q : ReservationId → Prop} {ids : List ReservationId}
    (h : Passes C p b s ids b' s') (hq : ∀ id, q id → p id) : Passes C q b s ids b' s' :=
  ⟨h.hears, fun hC => (h.goes hC).mono hq⟩

/-! ### Batches -/

theorem follow_passes (h : At b s hand []) {sent : List (Dispatch σ)} {d : Desk σ}
    (hl : b.desk.ledger.Succeeds (settledIn (eventsOf sent)) d.ledger) :
    ∃ s', At (b.follow clock sent d) s' hand [] ∧
      Passes C (fun _ => True) b s (settledIn (eventsOf sent)) (b.follow clock sent d) s' := by
  obtain ⟨s', hh, hs⟩ := follow_hears h.manned h.agrees.tidy clock sent d
  exact ⟨s', ⟨hh.manned, h.agrees.batch hl hs⟩, hh, fun _ => .batch _ hl hs⟩

/-! ### Placements -/

/-- A placement under supervision that failed: what was heard before it was undone, when the ledger
was `l`, and what is left once the controller strikes the reservation out. -/
structure Undone (b : Broker σ) (s : Supervisor) (r : Reservation) (hand : List Reservation)
    (b' : Broker σ) (s' : Supervisor) (ids : List ReservationId) (l : Ledger) : Prop where
  hears : Hears b s ids b' s'
  tidy : s'.control.Tidy
  goes : s.control.Goes (fun _ => True) b.desk.ledger ids s'.control l
  live : C.Discreet → s'.control.live l r.id = true
  ledger : ∀ k, b'.desk.ledger.get? k = if r.id = k then none else l.get? k
  agrees : ∀ {c'}, Struck [r.id] s'.control c' → Agrees c' b'.desk.ledger hand []

theorem place_hand {r : Reservation} (h : At b s (r :: hand) []) :
    (∃ placed s' ids, (b.place C clock r).1 = .ok placed ∧ At (b.place C clock r).2 s' hand [] ∧
      Passes C (fun _ => True) b s ids (b.place C clock r).2 s') ∨
    ∃ f s' ids l, (b.place C clock r).1 = .error f ∧
      Undone C b s r hand (b.place C clock r).2 s' ids l := by
  obtain ⟨hk, hf, hn⟩ := h.agrees.hand_known r (List.mem_cons_self ..)
  have hp := Desk.place_placed C clock hf.sound h.agrees.sound
  unfold place
  generalize b.desk.place C clock r = o at hp ⊢
  cases hp with
  | @refused f _ =>
    obtain ⟨s', hh, hs⟩ := follow_hears h.manned h.agrees.tidy clock [] b.desk
    right
    refine ⟨f, s', _, b.desk.ledger, rfl, hh, hs.tidy h.agrees.tidy, ?_, fun _ => ?_, fun k => ?_,
      fun hc => ?_⟩
    · exact .batch _ (.refl h.agrees.sound) hs
    · refine GangControl.live_of_known (r := r) ?_
      rw [hs.known, if_neg (by simp)]
      exact hk
    · change b.desk.ledger.get? k = _
      split
      next he => rw [← he, hn]
      next => rfl
    · have hsame := h.agrees.batch (.refl h.agrees.sound) hs
      exact hsame.putDown hc
  | @done placed d' sent hc _ hl =>
    have hat : s.control.Agrees (b.desk.ledger.add r) hand [] := h.agrees.add hc
    obtain ⟨s', hh, hs⟩ := follow_hears h.manned h.agrees.tidy clock sent d'
    left
    refine ⟨placed, s', _, rfl, ⟨hh.manned, hat.batch hl hs⟩, hh, fun _ => ?_⟩
    exact (Goes.add _ hk).trans (.batch _ hl hs)
  | @undone f d' sent l hc _ hl he hlive =>
    have hat : s.control.Agrees (b.desk.ledger.add r) hand [] := h.agrees.add hc
    obtain ⟨s', hh, hs⟩ := follow_hears h.manned h.agrees.tidy clock sent d'
    have hafter := hat.batch hl hs
    obtain ⟨hsound, hg⟩ := Ledger.remove_ledger hl.sound r.id
    rw [← he] at hsound hg
    have hnd := h.agrees.hand_nodup
    rw [List.map_cons, List.nodup_cons] at hnd
    right
    refine ⟨_, s', _, l, rfl, hh, hafter.tidy, (Goes.add _ hk).trans (.batch _ hl hs),
      fun hC => ?_, hg, fun hc' => ?_⟩
    · have ho : l.isOpen r.id = true := by
        rw [Ledger.isOpen_of_get? (hlive hC)]
        exact hf.isOpen_eq
      simp [live, ho]
    · refine hafter.release_id hnd.1 hc' (fun ht => ?_) hsound hg
      rw [hafter.known_id ht, List.mem_singleton]

end ClusterBroker.Broker
