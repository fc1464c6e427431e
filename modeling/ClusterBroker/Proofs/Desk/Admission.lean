import ClusterBroker.Proofs.Desk.Protocol
import ClusterBroker.Proofs.Ledger.Interleaving

/-!
# Requests at a desk

A request is tracked before the connector is asked, since the manager may report on it at once. So
whoever is refused late has to be taken off the ledger again, and nothing else may go with it. The
registry takes a request exactly if it is well-formed, its id and its resources are free, the
registry was not stopped and the connector takes it. Otherwise everything is as before. Only what
the connector reports while it is asked may alter more than the one reservation.
-/
namespace ClusterBroker

theorem Ledger.Sound.drop_add {l : Ledger} (h : l.Sound) {r : Reservation} (hr : r.Sound)
    (hc : l.conflict? r = none) : (l.add r).drop r = l := by
  have hadd : (l.add r).get? r.id = some r := by simp
  refine ((h.add hr hc).drop hadd).ext h fun id => ?_
  rw [Ledger.get?_drop, Ledger.get?_add]
  split
  next he => rw [← he, (Ledger.conflict?_eq_none_iff.1 hc).1]
  next => rfl

theorem Ledger.Sound.remove_add {l : Ledger} (h : l.Sound) {r : Reservation} (hr : r.Sound)
    (hc : l.conflict? r = none) : ((l.add r).remove r.id).2 = l := by
  unfold Ledger.remove
  rw [Ledger.get?_add, if_pos rfl]
  exact h.drop_add hr hc

namespace Desk

variable {σ : Type} (C : Connector σ) (clock : Time) {d : Desk σ} {id : ReservationId} {q : Request}

/-- The registry has nothing against a request. -/
structure Takes (id : ReservationId) (q : Request) (d : Desk σ) : Prop where
  asks_ne : q.asks ≠ []
  distinct : (q.asks.map Ask.resource).Nodup
  substance : ∀ a ∈ q.asks, a.cpu ≠ 0 ∨ a.memory ≠ 0
  running : d.registry.stopped = false
  untracked : d.ledger.get? id = none
  unplaced : ∀ a ∈ q.asks, d.ledger.index.get? a.resource = none

/-- What the connector does when the request is submitted. -/
def inquiry (id : ReservationId) (q : Request) (d : Desk σ) :
    Answer (List (Delivery σ) × σ) Unit :=
  C.reserve clock (Reservation.ofRequest id q clock).resources d.connector

/-- What the connector reports while the request is submitted. -/
def meanwhile (id : ReservationId) (q : Request) (d : Desk σ) : List Change :=
  (d.inquiry C clock id q).2.1.flatMap Delivery.changes

/-- How a request fares at the desk `d`: it is answered, and the desk is `d'`. -/
structure Fares (id : ReservationId) (q : Request) (d : Desk σ)
    (answer : Except BrokerFault Reservation) (d' : Desk σ) : Prop where
  ok_iff : answer.isOk = true ↔ d.Takes id q ∧ (d.inquiry C clock id q).1 = .ok ()
  /-- Before the connector is asked, nothing is altered at all. -/
  unasked : ¬ d.Takes id q → d' = d
  /-- The reservation is added, and then only what is reported meanwhile matters. -/
  added : answer.isOk = true → d'.ledger =
    (d.ledger.add (.ofRequest id q clock)).through clock (d.meanwhile C clock id q)
  /-- If the connector does not take it, it is taken out again, and nothing else. -/
  undone : answer.isOk = false → d.Takes id q → d'.ledger =
    (((d.ledger.add (.ofRequest id q clock)).through clock (d.meanwhile C clock id q)).remove id).2
  restored : answer.isOk = false → d.meanwhile C clock id q = [] → d'.ledger = d.ledger
  others : ∀ s, d.ledger.get? s.id = some s →
    (∀ c ∈ d.meanwhile C clock id q, c.about s = false) → d'.ledger.get? s.id = some s
  placed : d'.registry.tally.placed = d.registry.tally.placed + answer.isOk.toNat

theorem takes_iff : d.Takes id q ↔
    q.fault? = none ∧ d.Admits (.ofRequest id q clock) := by
  have hids : (Reservation.ofRequest id q clock).resourceIds = q.asks.map Ask.resource := by
    rw [Reservation.resourceIds_eq]
    exact congrArg (fun q : Request => q.asks.map Ask.resource)
      (Reservation.toRequest_ofRequest id q clock)
  unfold Admits
  rw [Request.fault?_eq_none_iff, Ledger.conflict?_eq_none_iff, hids]
  constructor
  · intro h
    refine ⟨⟨h.asks_ne, h.distinct, fun a ha hz => ?_⟩, h.running, h.untracked, fun x hx => ?_⟩
    · rcases h.substance a ha with hc | hm
      · exact hc hz.1
      · exact hm hz.2
    · obtain ⟨a, ha, rfl⟩ := List.mem_map.1 hx
      exact h.unplaced a ha
  · rintro ⟨⟨hne, hn, hz⟩, hrun, hid, hfree⟩
    exact ⟨hne, hn, fun a ha => by simpa [or_iff_not_imp_left] using hz a ha, hrun, hid,
      fun a ha => hfree _ (List.mem_map_of_mem ha)⟩

theorem Takes.add_sound (ht : d.Takes id q) (h : d.ledger.Sound) :
    (d.ledger.add (.ofRequest id q clock)).Sound := by
  obtain ⟨hf, -, hc⟩ := (takes_iff clock).1 ht
  exact h.add (Reservation.fresh_ofRequest id clock hf).sound hc

/-! ### What is reported meanwhile -/

theorem receiveAll_ledger (xs : List (Delivery σ)) (d : Desk σ) :
    (receiveAll C clock xs d).1.ledger = d.ledger.through clock (xs.flatMap Delivery.changes) := by
  induction xs generalizing d with
  | nil => rfl
  | cons x xs ih =>
    have hfirst : (d.receive C clock x).1.ledger = d.ledger.through clock x.changes := by
      rw [← Ledger.reconcile_through]
      exact onChanges_ledger C clock x.changes { d with connector := x.passing d.connector }
    unfold receiveAll
    rw [ih, hfirst, List.flatMap_cons, Ledger.through_append]

theorem onChanges_placed (cs : List Change) (d : Desk σ) :
    (d.onChanges C clock cs).1.registry.tally.placed = d.registry.tally.placed := by
  unfold onChanges
  split
  · rfl
  · dsimp only
    split <;> rfl

theorem receiveAll_placed (xs : List (Delivery σ)) (d : Desk σ) :
    (receiveAll C clock xs d).1.registry.tally.placed = d.registry.tally.placed := by
  induction xs generalizing d with
  | nil => rfl
  | cons x xs ih =>
    unfold receiveAll
    rw [ih]
    exact onChanges_placed C clock x.changes _

/-- Where nothing is reported nothing is sent out. -/
theorem receiveAll_sent {xs : List (Delivery σ)} (h : xs.flatMap Delivery.changes = [])
    (d : Desk σ) : (receiveAll C clock xs d).2 = [] := by
  induction xs generalizing d with
  | nil => rfl
  | cons x xs ih =>
    rw [List.flatMap_cons, List.append_eq_nil_iff] at h
    have hx : (d.receive C clock x).2 = [] := by
      unfold receive
      rw [h.1]
      rfl
    unfold receiveAll
    dsimp only
    rw [hx, ih h.2, List.append_nil]

/-! ### The request -/

/-- Something is against the request. -/
theorem reserve_of_not_takes (h : ¬ d.Takes id q) :
    ∃ f, d.reserve C clock id q = ⟨.error f, d, []⟩ := by
  unfold reserve
  cases hf : q.fault? with
  | some f => exact ⟨_, rfl⟩
  | none =>
    dsimp only
    unfold place
    cases hs : d.registry.stopped with
    | true => exact ⟨_, rfl⟩
    | false =>
      cases hl : d.registry.ledger.insert (.ofRequest id q clock) with
      | error f => exact ⟨_, rfl⟩
      | ok l => exact absurd ((takes_iff clock).2 ⟨hf, hs, (insert_eq_ok hl).1⟩) h

/-- The desk that waits for the connector's answer, with everything taken in that is reported
meanwhile. -/
def waiting (id : ReservationId) (q : Request) (d : Desk σ) : Desk σ × List (Dispatch σ) :=
  receiveAll C clock (d.inquiry C clock id q).2.1
    { d.setLedger (d.ledger.add (.ofRequest id q clock)) with
      connector := (d.inquiry C clock id q).2.2 }

theorem waiting_ledger (id : ReservationId) (q : Request) (d : Desk σ) :
    (d.waiting C clock id q).1.ledger =
      (d.ledger.add (.ofRequest id q clock)).through clock (d.meanwhile C clock id q) :=
  receiveAll_ledger C clock _ _

theorem waiting_placed (id : ReservationId) (q : Request) (d : Desk σ) :
    (d.waiting C clock id q).1.registry.tally.placed = d.registry.tally.placed :=
  receiveAll_placed C clock _ _

/-- Nothing is against the request: it is up to the connector. -/
theorem reserve_of_takes (h : d.Takes id q) :
    d.reserve C clock id q =
      match (d.inquiry C clock id q).1 with
      | .error f => ⟨.error (.connector f),
          (d.waiting C clock id q).1.setLedger ((d.waiting C clock id q).1.ledger.remove id).2,
          (d.waiting C clock id q).2⟩
      | .ok () =>
        let reg := (d.waiting C clock id q).1.registry
        let reg := { reg with tally := { reg.tally with placed := reg.tally.placed + 1 } }
        ⟨.ok ((reg.get? id).getD (.ofRequest id q clock)),
          { (d.waiting C clock id q).1 with registry := reg }, (d.waiting C clock id q).2⟩ := by
  obtain ⟨hf, hs, hc⟩ := (takes_iff clock).1 h
  have hl : d.registry.ledger.insert (.ofRequest id q clock) =
      .ok (d.ledger.add (.ofRequest id q clock)) := by
    unfold Ledger.insert
    rw [show d.registry.ledger.conflict? _ = none from hc]
    rfl
  unfold reserve
  rw [hf]
  dsimp only
  unfold place
  rw [if_neg (by simp [hs]), hl]
  rfl

/-- A reservation that nothing is reported on stays as it is, also if the request is undone. -/
theorem waiting_others (h : d.ledger.Sound) (ht : d.Takes id q) {s : Reservation}
    (hs : d.ledger.get? s.id = some s)
    (hn : ∀ c ∈ d.meanwhile C clock id q, c.about s = false) :
    id ≠ s.id ∧ (d.waiting C clock id q).1.ledger.get? s.id = some s := by
  have hne : id ≠ s.id := by
    intro he
    rw [← he, ht.untracked] at hs
    simp at hs
  have hadd : (d.ledger.add (.ofRequest id q clock)).get? s.id = some s := by
    rw [Ledger.get?_add]
    exact (if_neg hne).trans hs
  have hkept := Ledger.reconcile_get?_of_not_mem (ht.add_sound clock h) clock hadd
    fun c hm => Change.about_eq_false.1 (hn c hm)
  rw [Ledger.reconcile_through, ← waiting_ledger] at hkept
  exact ⟨hne, hkept⟩

theorem fares_of_not_takes (h : ¬ d.Takes id q) (f : BrokerFault) :
    Fares C clock id q d (.error f) d :=
  ⟨iff_of_false nofun fun hok => h hok.1, fun _ => rfl, nofun, fun _ hok => absurd hok h,
    fun _ _ => rfl, fun _ hs _ => hs, rfl⟩

theorem reserve_fares (h : d.ledger.Sound) : Fares C clock id q d
    (d.reserve C clock id q).answer (d.reserve C clock id q).desk := by
  by_cases ht : d.Takes id q
  case neg =>
    obtain ⟨f, hf⟩ := reserve_of_not_takes C clock ht
    rw [hf]
    exact fares_of_not_takes C clock ht f
  case pos =>
    have hledger := waiting_ledger C clock id q d
    have hplaced := waiting_placed C clock id q d
    rw [reserve_of_takes C clock ht]
    cases hs : (d.inquiry C clock id q).1 with
    | ok u =>
      dsimp only
      constructor
      · exact iff_of_true rfl ⟨ht, hs⟩
      · exact fun hn => absurd ht hn
      · exact fun _ => hledger
      · exact nofun
      · exact nofun
      · exact fun s hs hn => (waiting_others C clock h ht hs hn).2
      · exact congrArg (· + 1) hplaced
    | error f =>
      dsimp only
      have hundone : ((d.waiting C clock id q).1.setLedger
          ((d.waiting C clock id q).1.ledger.remove id).2).ledger = (((d.ledger.add
            (.ofRequest id q clock)).through clock (d.meanwhile C clock id q)).remove id).2 := by
        rw [setLedger_ledger, hledger]
      constructor
      · refine iff_of_false nofun fun hok => ?_
        rw [hs] at hok
        simp at hok
      · exact fun hn => absurd ht hn
      · exact nofun
      · exact fun _ _ => hundone
      · intro _ hn
        obtain ⟨hf, -, hc⟩ := (takes_iff clock).1 ht
        rw [hundone, hn]
        exact h.remove_add (Reservation.fresh_ofRequest id clock hf).sound hc
      · intro s hs hn
        obtain ⟨hne, hkept⟩ := waiting_others C clock h ht hs hn
        have hsound : (d.waiting C clock id q).1.ledger.Sound := by
          rw [hledger]
          exact Ledger.through_sound (ht.add_sound clock h) ..
        rw [setLedger_ledger, (Ledger.remove_ledger hsound id).2, if_neg hne, hkept]
      · exact hplaced

/-- A refused request tells nobody anything, unless something is reported meanwhile. -/
theorem reserve_sent (hn : ¬ d.Takes id q ∨ d.meanwhile C clock id q = []) :
    (d.reserve C clock id q).sent = [] := by
  by_cases ht : d.Takes id q
  case neg =>
    obtain ⟨f, hf⟩ := reserve_of_not_takes C clock ht
    rw [hf]
  case pos =>
    have hs : (d.waiting C clock id q).2 = [] :=
      receiveAll_sent C clock (hn.resolve_left (absurd ht ·)) _
    rw [reserve_of_takes C clock ht]
    split
    · exact hs
    · exact hs

end Desk

end ClusterBroker
