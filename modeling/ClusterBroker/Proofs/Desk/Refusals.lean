import ClusterBroker.Proofs.Connector
import ClusterBroker.Proofs.Desk.Run
import ClusterBroker.Proofs.Ledger.Course

/-!
# Placements that fail

Of several reservations that are placed one after the other some may fail, each for its own reason,
and the others are placed all the same. While a connector reports nothing but allocations, nobody is
told of a rejection meanwhile, whether the placement goes through or not.
-/
namespace ClusterBroker

/-- The events that tell of a rejection. -/
def rejections (es : List Event) : List Event := es.filter fun e => !e.rejectedReservations.isEmpty

@[simp] theorem rejections_append (es fs : List Event) :
    rejections (es ++ fs) = rejections es ++ rejections fs := List.filter_append ..

theorem rejections_eq_nil {es : List Event} (h : ∀ e ∈ es, e.rejectedReservations = []) :
    rejections es = [] := by
  unfold rejections
  rw [List.filter_eq_nil_iff]
  intro e he
  simp [h e he]

/-- What is settled and was not rejected is allocated. -/
theorem mem_settledIn {es : List Event} {id : ReservationId} : id ∈ settledIn es ↔
    id ∈ allocatedIn es ∨ ∃ e ∈ rejections es, id ∈ e.rejectedReservations := by
  constructor
  · intro hid
    obtain ⟨e, he, hid⟩ := List.mem_flatMap.1 hid
    rcases List.mem_append.1 hid with hid | hid
    · exact .inl (List.mem_flatMap.2 ⟨e, he, hid⟩)
    · exact .inr ⟨e, List.mem_filter.2 ⟨he, by simpa using List.ne_nil_of_mem hid⟩, hid⟩
  · rintro (hid | ⟨e, he, hid⟩)
    · obtain ⟨e, he, hid⟩ := List.mem_flatMap.1 hid
      exact List.mem_flatMap.2 ⟨e, he, List.mem_append_left _ hid⟩
    · exact List.mem_flatMap.2 ⟨e, List.mem_of_mem_filter he, List.mem_append_right _ hid⟩

namespace Desk

variable {σ : Type} {C : Connector σ} (clock : Time) {r : Reservation} {d : Desk σ}

variable (C) in
/-- Of these reservations, placed one after the other, those whose placement fails. -/
def refusals : List Reservation → Desk σ → List Reservation
  | [], _ => []
  | r :: rs, d =>
    let o := d.place C clock r
    let rest := refusals rs o.desk
    match o.answer with
    | .ok _ => rest
    | .error _ => r :: rest

theorem refusals_cons (r : Reservation) (rs : List Reservation) (d : Desk σ) :
    refusals C clock (r :: rs) d =
      refusals C clock [r] d ++ refusals C clock rs (d.place C clock r).desk := by
  cases ha : (d.place C clock r).answer <;> simp [refusals, ha]

theorem refusals_sublist (rs : List Reservation) (d : Desk σ) :
    (refusals C clock rs d).Sublist rs := by
  induction rs generalizing d with
  | nil => exact .slnil
  | cons r rs ih =>
    unfold refusals
    dsimp only
    split
    next => exact (ih _).cons r
    next => exact (ih _).cons_cons r

/-! ### What is told meanwhile -/

theorem mem_arrivals {xs : List (Delivery σ)} {a : List Change × Desk σ}
    (ha : a ∈ arrivals C clock xs d) : ∃ x ∈ xs, a.1 = x.changes := by
  induction xs generalizing d with
  | nil => simp [arrivals] at ha
  | cons x xs ih =>
    rcases List.mem_cons.1 ha with rfl | ha
    · exact ⟨x, List.mem_cons_self .., rfl⟩
    · obtain ⟨y, hy, he⟩ := ih ha
      exact ⟨y, List.mem_cons_of_mem x hy, he⟩

/-- What arrives during a placement is what the connector reports. -/
theorem mem_placeArrivals {a : List Change × Desk σ} (ha : a ∈ d.placeArrivals C clock r) :
    ∃ x ∈ (C.reserve clock r.resources d.connector).2.1, a.1 = x.changes := by
  unfold placeArrivals at ha
  split at ha
  next => simp at ha
  next =>
    split at ha
    next => simp at ha
    next => exact mem_arrivals clock ha

theorem place_rejects_nothing (hC : C.Granting) (hr : r.Sound) (h : d.ledger.Sound) :
    ∀ e ∈ eventsOf (d.place C clock r).sent, e.rejectedReservations = [] := by
  intro e he
  obtain ⟨x, hx, he⟩ := List.mem_flatMap.1 he
  obtain ⟨a, ha, hev, -⟩ := placeArrivals_of_sent C clock hx
  obtain ⟨y, hy, hch⟩ := mem_placeArrivals clock ha
  rw [hev] at he
  refine Ledger.reconcile_rejects_nothing (placeArrivals_sound C clock hr h a ha) clock ?_ e he
  rw [hch]
  exact hC clock r.resources d.connector y hy

end Desk

end ClusterBroker
