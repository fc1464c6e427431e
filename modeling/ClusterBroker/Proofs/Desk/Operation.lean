import ClusterBroker.Desk
import ClusterBroker.Proofs.Connector
import ClusterBroker.Proofs.Ledger.Batch
import ClusterBroker.Proofs.Ledger.Removal

/-!
# The ledger through the operations of a desk

One statement for each operation on a desk, about the ledger only: batches of changes make a
succession of ledgers, a release takes out what it names, and a placement is refused, goes
through, or is undone because the connector would not take it. The connector is arbitrary, and
may report anything at any time.
-/
namespace ClusterBroker

variable {σ : Type}

/-- All events that were sent out, in order. -/
def eventsOf (sent : List (Dispatch σ)) : List Event := sent.flatMap Dispatch.events

@[simp] theorem eventsOf_nil : eventsOf ([] : List (Dispatch σ)) = [] := rfl

@[simp] theorem eventsOf_cons (x : Dispatch σ) (sent : List (Dispatch σ)) :
    eventsOf (x :: sent) = x.events ++ eventsOf sent := rfl

@[simp] theorem eventsOf_append (s t : List (Dispatch σ)) :
    eventsOf (s ++ t) = eventsOf s ++ eventsOf t := List.flatMap_append

namespace Desk

def ledger (d : Desk σ) : Ledger := d.registry.ledger

@[simp] theorem setLedger_ledger (d : Desk σ) (l : Ledger) : (d.setLedger l).ledger = l := rfl

variable (C : Connector σ) (clock : Time)

/-! ### Batches -/

theorem onChanges_cons (c : Change) (cs : List Change) (d : Desk σ) :
    ∃ d' : Desk σ, d.onChanges C clock (c :: cs) =
        (d', [⟨(d.ledger.reconcile clock (c :: cs)).events, d'⟩]) ∧
      d'.ledger = (d.ledger.reconcile clock (c :: cs)).ledger ∧
      d'.registry.stopped = d.registry.stopped := by
  unfold onChanges
  simp only [List.isEmpty_cons, Bool.false_eq_true, if_false]
  split
  · exact ⟨_, rfl, rfl, rfl⟩
  · exact ⟨_, rfl, rfl, rfl⟩

theorem onChanges_succeeds {d : Desk σ} (h : d.ledger.Sound) (cs : List Change) :
    d.ledger.Succeeds (settledIn (eventsOf (d.onChanges C clock cs).2))
      (d.onChanges C clock cs).1.ledger := by
  cases cs with
  | nil => exact .refl h
  | cons c cs =>
    obtain ⟨d', he, hl, -⟩ := onChanges_cons C clock c cs d
    rw [he, hl]
    simpa using Ledger.reconcile_succeeds h clock (c :: cs)

theorem onChanges_stopped (cs : List Change) (d : Desk σ) :
    (d.onChanges C clock cs).1.registry.stopped = d.registry.stopped := by
  cases cs with
  | nil => rfl
  | cons c cs =>
    obtain ⟨d', he, -, hs⟩ := onChanges_cons C clock c cs d
    rw [he, hs]

theorem receiveAll_succeeds {d : Desk σ} (h : d.ledger.Sound) (xs : List (Delivery σ)) :
    d.ledger.Succeeds (settledIn (eventsOf (receiveAll C clock xs d).2))
      (receiveAll C clock xs d).1.ledger := by
  induction xs generalizing d with
  | nil => exact .refl h
  | cons x xs ih =>
    have h₁ : d.ledger.Succeeds (settledIn (eventsOf (d.receive C clock x).2))
        (d.receive C clock x).1.ledger :=
      onChanges_succeeds C clock (d := { d with connector := x.passing d.connector }) h x.changes
    unfold receiveAll
    rw [eventsOf_append, settledIn_append]
    exact h₁.trans (ih h₁.sound)

theorem receiveAll_stopped (xs : List (Delivery σ)) (d : Desk σ) :
    (receiveAll C clock xs d).1.registry.stopped = d.registry.stopped := by
  induction xs generalizing d with
  | nil => rfl
  | cons x xs ih =>
    unfold receiveAll
    rw [ih]
    exact onChanges_stopped C clock x.changes _

theorem receiveAll_get?_of_not_mem {d : Desk σ} (h : d.ledger.Sound) {xs : List (Delivery σ)}
    {r : Reservation} (hr : d.ledger.get? r.id = some r)
    (hn : ∀ x ∈ xs, ∀ c ∈ x.changes, c.resource ∉ r.resourceIds) :
    (receiveAll C clock xs d).1.ledger.get? r.id = some r := by
  induction xs generalizing d with
  | nil => exact hr
  | cons x xs ih =>
    unfold receiveAll
    apply ih
    · exact (onChanges_succeeds C clock (d := { d with connector := x.passing d.connector }) h
        x.changes).sound
    · have hx := hn x (List.mem_cons_self ..)
      unfold receive
      cases hcs : x.changes with
      | nil => exact hr
      | cons c cs =>
        obtain ⟨d', he, hl, -⟩ :=
          onChanges_cons C clock c cs { d with connector := x.passing d.connector }
        rw [he, hl]
        exact Ledger.reconcile_get?_of_not_mem h clock hr (hcs ▸ hx)
    · exact fun y hy => hn y (List.mem_cons_of_mem x hy)

theorem deliver_succeeds {d : Desk σ} (h : d.ledger.Sound) (cs : List Change) :
    d.ledger.Succeeds (settledIn (eventsOf (d.deliver C clock cs).2))
      (d.deliver C clock cs).1.ledger :=
  onChanges_succeeds C clock (d := { d with connector := C.incoming cs d.connector }) h cs

theorem onHaltedIn_succeeds {d : Desk σ} (h : d.ledger.Sound) (order : Ledger → List ResourceId) :
    d.ledger.Succeeds (settledIn (eventsOf (d.onHaltedIn order C clock).2))
      (d.onHaltedIn order C clock).1.ledger := by
  have hr := Ledger.reconcile_succeeds h clock ((order d.ledger).map .lost)
  unfold onHaltedIn
  simp only [eventsOf_cons, eventsOf_nil, List.append_nil]
  exact hr

/-! ### Placing -/

/-- The three ways in which a placement can end. `l` is the ledger when everything that was
reported meanwhile has been taken in. -/
inductive Placed (r : Reservation) (d : Desk σ) :
    Outcome σ (Except BrokerFault Reservation) → Prop
  | refused {f : BrokerFault} :
      d.registry.stopped = true ∨ d.ledger.conflict? r ≠ none → Placed r d ⟨.error f, d, []⟩
  | done {s : Reservation} {d' : Desk σ} {sent : List (Dispatch σ)} :
      d.ledger.conflict? r = none → d'.registry.stopped = d.registry.stopped →
      (d.ledger.add r).Succeeds (settledIn (eventsOf sent)) d'.ledger →
      Placed r d ⟨.ok s, d', sent⟩
  | undone {f : ConnectorFault} {d' : Desk σ} {sent : List (Dispatch σ)} {l : Ledger} :
      d.ledger.conflict? r = none → d'.registry.stopped = d.registry.stopped →
      (d.ledger.add r).Succeeds (settledIn (eventsOf sent)) l → d'.ledger = (l.remove r.id).2 →
      (C.Discreet → l.get? r.id = some r) → Placed r d ⟨.error (.connector f), d', sent⟩

theorem insert_eq_ok {l l' : Ledger} {r : Reservation} (h : l.insert r = .ok l') :
    l.conflict? r = none ∧ l' = l.add r := by
  unfold Ledger.insert at h
  split at h
  next => simp at h
  next hc => exact ⟨hc, (Except.ok.inj h).symm⟩

theorem place_placed {r : Reservation} (hr : r.Sound) {d : Desk σ} (h : d.ledger.Sound) :
    Placed C r d (d.place C clock r) := by
  unfold place
  split
  next hs => exact .refused (.inl hs)
  next hs =>
    split
    next f hf =>
      refine .refused (.inr fun hc => ?_)
      unfold Ledger.insert at hf
      rw [show d.registry.ledger.conflict? r = none from hc] at hf
      simp at hf
    next l hl =>
      obtain ⟨hc, rfl⟩ := insert_eq_ok hl
      have hsub := receiveAll_succeeds C clock
        (d := { d.setLedger (d.registry.ledger.add r) with
          connector := (C.reserve clock r.resources d.connector).2.2 })
        (h.add hr hc) (C.reserve clock r.resources d.connector).2.1
      have hstop := receiveAll_stopped C clock
        (C.reserve clock r.resources d.connector).2.1
        { d.setLedger (d.registry.ledger.add r) with
          connector := (C.reserve clock r.resources d.connector).2.2 }
      dsimp only
      split
      next f hf =>
        refine .undone hc hstop hsub rfl fun hC => ?_
        have hadd : (d.registry.ledger.add r).get? r.id = some r := by simp
        exact receiveAll_get?_of_not_mem C clock
          (d := { d.setLedger (d.registry.ledger.add r) with
            connector := (C.reserve clock r.resources d.connector).2.2 })
          (h.add hr hc) hadd (hC clock r.resources d.connector f hf)
      next => exact .done hc hstop hsub

theorem place_stopped {r : Reservation} (hr : r.Sound) {d : Desk σ} (h : d.ledger.Sound) :
    (d.place C clock r).desk.registry.stopped = d.registry.stopped := by
  have hp := place_placed C clock hr h
  generalize d.place C clock r = o at hp ⊢
  cases hp with
  | refused => rfl
  | done _ hs _ => exact hs
  | undone _ hs _ _ _ => exact hs

theorem reserve_stopped {d : Desk σ} (h : d.ledger.Sound) (id : ReservationId) (q : Request) :
    (d.reserve C clock id q).desk.registry.stopped = d.registry.stopped := by
  unfold reserve
  cases hf : q.fault? with
  | some f => rfl
  | none => exact place_stopped C clock (Reservation.fresh_ofRequest id clock hf).sound h

/-! ### Releasing -/

@[simp] theorem giveBack_ledger (removed : List Reservation) (noCache : Bool) (d : Desk σ) :
    (d.giveBack C clock removed noCache).2.ledger = d.ledger := by
  unfold giveBack
  dsimp only
  split <;> rfl

theorem release_ledger {d : Desk σ} (hd : d.ledger.Sound) (h : HandleId) (id : ReservationId)
    (noCache : Bool) : (d.release C clock h id noCache).2.ledger.Sound ∧
      ∀ k, (d.release C clock h id noCache).2.ledger.get? k =
        if id = k ∧ (d.ledger.get? id).any (fun r => r.handle = h) then none
        else d.ledger.get? k := by
  unfold release
  have hget : d.registry.get? id = d.ledger.get? id := rfl
  rw [hget]
  cases hr : d.ledger.get? id with
  | none => exact ⟨hd, fun k => by simp⟩
  | some r =>
    have hid := hd.id_eq hr
    subst hid
    by_cases hh : r.handle = h
    · simp only [hh, if_true]
      refine ⟨?_, fun k => ?_⟩
      · rw [giveBack_ledger]
        exact hd.drop hr
      · rw [giveBack_ledger, setLedger_ledger, Ledger.get?_drop]
        simp [hh, ledger]
    · simp only [hh, if_false]
      exact ⟨hd, fun k => by simp [hh]⟩

theorem releaseWhere_ledger {d : Desk σ} (hd : d.ledger.Sound) (p : Reservation → Bool)
    (noCache : Bool) : (d.releaseWhere C clock p noCache).2.ledger.Sound ∧
      ∀ k, (d.releaseWhere C clock p noCache).2.ledger.get? k =
        if (d.ledger.get? k).any p then none else d.ledger.get? k := by
  have hw := Ledger.removeWhere_ledger hd p
  unfold releaseWhere
  rw [giveBack_ledger]
  exact hw

theorem giveBack_stopped (removed : List Reservation) (noCache : Bool) (d : Desk σ) :
    (d.giveBack C clock removed noCache).2.registry.stopped = d.registry.stopped := by
  unfold giveBack
  dsimp only
  split <;> rfl

theorem release_stopped (h : HandleId) (id : ReservationId) (noCache : Bool) (d : Desk σ) :
    (d.release C clock h id noCache).2.registry.stopped = d.registry.stopped := by
  unfold release
  split
  next => rfl
  next =>
    split
    next => exact giveBack_stopped ..
    next => rfl

theorem releaseWhere_stopped (p : Reservation → Bool) (noCache : Bool) (d : Desk σ) :
    (d.releaseWhere C clock p noCache).2.registry.stopped = d.registry.stopped :=
  giveBack_stopped ..

/-- A reservation of the handle is there, so it is what a release answers with. -/
theorem release_found {d : Desk σ} {h : HandleId} {id : ReservationId} {r : Reservation}
    (hr : d.ledger.get? id = some r) (hh : r.handle = h) (noCache : Bool) :
    ∃ a : Except BrokerFault Unit,
      (d.release C clock h id noCache).1 = a.map fun _ => some r.ended := by
  unfold release
  rw [show d.registry.get? id = some r from hr]
  dsimp only
  rw [if_pos hh]
  exact ⟨_, rfl⟩

theorem stop_ledger {d : Desk σ} (hd : d.ledger.Sound) : (d.stop C clock).2.ledger.Sound ∧
    ∀ k, (d.stop C clock).2.ledger.get? k =
      if d.registry.stopped then d.ledger.get? k else none := by
  unfold stop
  split
  next => exact ⟨hd, fun k => by simp⟩
  next hs =>
    obtain ⟨hsound, hg⟩ := releaseWhere_ledger C clock
      (d := { d with registry := { d.registry with stopped := true } }) hd (fun _ => true) true
    refine ⟨hsound, fun k => ?_⟩
    have hk := hg k
    rw [show ({ d with registry := { d.registry with stopped := true } } : Desk σ).ledger =
      d.ledger from rfl] at hk
    refine Eq.trans (show _ = _ from hk) ?_
    cases d.ledger.get? k <;> simp

end Desk

end ClusterBroker
