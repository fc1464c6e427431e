import ClusterBroker.Proofs.Broker.Keeping
import ClusterBroker.Proofs.GangControl.Rounds

/-!
# What a registry counts

Every reservation that was placed is tracked, or was released, or was torn down. In the middle of a
placement the reservation is tracked already and is not counted yet.
-/
namespace ClusterBroker

/-! ### How many there are -/

namespace Table

variable {κ ν : Type} [Key κ] [DecidableEq κ] {t : Table κ ν} {k : κ}

omit [DecidableEq κ] in
theorem length_values (t : Table κ ν) : t.values.length = t.size := List.length_map _

theorem size_insert_new (v : ν) (h : t.get? k = none) : (t.insert k v).size = t.size + 1 := by
  have hp := (values_insert_perm v h).length_eq
  rwa [List.length_cons, length_values, length_values] at hp

theorem size_insert_old (v : ν) (h : (t.get? k).isSome = true) : (t.insert k v).size = t.size := by
  have hnew : ((t.insert k v).get? k).isSome = true := by
    rw [get?_insert, if_pos rfl]
    rfl
  have he := size_erase hnew
  rw [erase_insert_self] at he
  have ho := size_erase h
  omega

end Table

namespace Ledger

variable {l l' : Ledger} {r : Reservation}

theorem size_add (h : l.conflict? r = none) : (l.add r).size = l.size + 1 :=
  Table.size_insert_new r (conflict?_eq_none_iff.1 h).1

theorem size_drop {s : Reservation} (h : l.get? r.id = some s) : (l.drop r).size + 1 = l.size :=
  Table.size_erase (Option.isSome_iff_exists.2 ⟨s, h⟩)

theorem size_update {s : Reservation} (h : l.get? r.id = some s) : (l.update r).size = l.size :=
  Table.size_insert_old r (Option.isSome_iff_exists.2 ⟨s, h⟩)

/-- A change takes out what it tears down, and nothing else. -/
theorem Applied.size_eq {now : Time} {c : Change} {e : Option Effect} (ha : Applied now l c l' e)
    (h : l.Sound) : l'.size + (if e.any Effect.tornDown then 1 else 0) = l.size := by
  cases ha with
  | unknown | repeated | illegal | reported => rfl
  | @granted id a r x hr =>
    have hg : l.get? (r.grant now id a).id = some r := by
      rw [Reservation.grant_id (h.sound hr)]
      exact hr
    rw [size_update hg]
    rfl
  | tornDown hr => exact size_drop hr

/-- So does a batch. -/
theorem reconcile_size (h : l.Sound) (now : Time) (cs : List Change) :
    (l.reconcile now cs).ledger.size + (l.reconcile now cs).tornDown = l.size := by
  have hfold : ∀ (cs : List Change) {b : Batch}, b.ledger.Sound →
      (cs.foldl (Batch.step now) b).ledger.size + (cs.foldl (Batch.step now) b).tornDown =
        b.ledger.size + b.tornDown := by
    intro cs
    induction cs with
    | nil => exact fun _ => rfl
    | cons c cs ih =>
      intro b hb
      have ha := apply_applied hb now c
      have hsize := ha.size_eq hb
      have hstep : (b.step now c).ledger.size + (b.step now c).tornDown =
          b.ledger.size + b.tornDown := by
        unfold Batch.step Batch.note
        cases he : (b.ledger.apply now c).2 with
        | none =>
          rw [he] at hsize
          dsimp only
          simp at hsize
          omega
        | some e =>
          rw [he] at hsize
          dsimp only
          simp at hsize
          omega
      rw [List.foldl_cons, ih, hstep]
      rw [Batch.step_ledger]
      exact (ha.succeeds hb).sound
  exact hfold cs h

theorem removeAll_size (h : l.Sound) (ids : List ReservationId) :
    (l.removeAll ids).2.size + (l.removeAll ids).1.length = l.size := by
  induction ids generalizing l with
  | nil => rfl
  | cons id ids ih =>
    have hone : (l.remove id).2.size + (l.remove id).1.toList.length = l.size := by
      unfold remove
      cases hr : l.get? id with
      | none => rfl
      | some r => exact size_drop (s := r) (by rwa [h.id_eq hr])
    have hrest := ih (remove_ledger h id).1
    unfold removeAll
    dsimp only
    rw [List.length_append]
    omega

end Ledger

namespace Registry

/-- The gauge is right. `ahead` of the tracked reservations do not count as placed yet, and `behind`
that are gone do not count as released yet. -/
structure Counted (ahead behind : Nat) (r : Registry) : Prop where
  active_eq : r.tally.active = r.size
  placed_eq : r.tally.placed + ahead = r.tally.active + r.tally.released + r.tally.tornDown + behind

/-- What a batch tears down it takes out. -/
theorem Counted.absorb {r : Registry} {ahead : Nat} (h : r.Counted ahead 0) (hs : r.ledger.Sound)
    (clock : Time) (cs : List Change) :
    (r.absorb (r.ledger.reconcile clock cs)).Counted ahead 0 := by
  have hsize := Ledger.reconcile_size hs clock cs
  have hactive : r.tally.active = r.ledger.size := h.active_eq
  have hplaced := h.placed_eq
  refine ⟨rfl, ?_⟩
  change r.tally.placed + ahead = (r.ledger.reconcile clock cs).ledger.size + r.tally.released +
    (r.tally.tornDown + _) + 0
  omega

end Registry

namespace Desk

variable {σ : Type} (C : Connector σ) (clock : Time) {d : Desk σ} {ahead : Nat}

theorem onChanges_counted (hs : d.ledger.Sound) (h : d.registry.Counted ahead 0)
    (cs : List Change) : (d.onChanges C clock cs).1.registry.Counted ahead 0 := by
  have hb := h.absorb hs clock cs
  unfold onChanges
  split
  · exact h
  · dsimp only
    split
    · exact hb
    · exact hb

theorem receiveAll_counted (hs : d.ledger.Sound) (h : d.registry.Counted ahead 0)
    (xs : List (Delivery σ)) : (receiveAll C clock xs d).1.registry.Counted ahead 0 := by
  induction xs generalizing d with
  | nil => exact h
  | cons x xs ih =>
    refine ih ?_ (onChanges_counted C clock (d := { d with connector := x.passing d.connector })
      hs h x.changes)
    exact (onChanges_succeeds C clock (d := { d with connector := x.passing d.connector }) hs
      x.changes).sound

/-- A reservation that is placed counts once it is tracked for good. If the submission fails,
nothing was reported meanwhile and it is dropped again. -/
theorem place_counted (hC : C.Silent) {r : Reservation} (hr : r.Sound) (hs : d.ledger.Sound)
    (h : d.registry.Counted 0 0) : (d.place C clock r).desk.registry.Counted 0 0 := by
  unfold place
  split
  next => exact h
  next =>
    cases hi : d.registry.ledger.insert r with
    | error f => exact h
    | ok l =>
      obtain ⟨hconf, rfl⟩ := insert_eq_ok hi
      have hsize := Ledger.size_add hconf
      have hactive := h.active_eq
      have hplaced := h.placed_eq
      rw [show d.registry.size = d.ledger.size from rfl] at hactive
      have hadd : (d.setLedger (d.registry.ledger.add r)).registry.Counted 1 0 := by
        refine ⟨rfl, ?_⟩
        change d.registry.tally.placed + 1 = (d.ledger.add r).size + d.registry.tally.released +
          d.registry.tally.tornDown + 0
        rw [show (d.ledger.add r).size = d.ledger.size + 1 from hsize]
        omega
      dsimp only
      split
      next f hf =>
        have hnil := hC clock r.resources d.connector f hf
        rw [show (C.reserve clock r.resources
          (d.setLedger (d.registry.ledger.add r)).connector).2.1 = [] from hnil]
        unfold receiveAll
        have hget : (d.ledger.add r).get? r.id = some r := by
          rw [Ledger.get?_add, if_pos rfl]
        have hdrop := Ledger.size_drop hget
        have hrem : ((d.ledger.add r).remove r.id).2 = (d.ledger.add r).drop r := by
          unfold Ledger.remove
          rw [hget]
        refine ⟨rfl, ?_⟩
        change d.registry.tally.placed + 0 = ((d.ledger.add r).remove r.id).2.size +
          d.registry.tally.released + d.registry.tally.tornDown + 0
        rw [hrem]
        rw [show (d.ledger.add r).size = d.ledger.size + 1 from hsize] at hdrop
        omega
      next =>
        have hall := receiveAll_counted C clock
          (d := { d.setLedger (d.registry.ledger.add r) with
            connector := (C.reserve clock r.resources d.connector).2.2 })
          (hs.add hr hconf) hadd (C.reserve clock r.resources d.connector).2.1
        exact ⟨hall.active_eq, hall.placed_eq⟩

/-- What is given back counts as released, since every reservation has something to give back. -/
theorem giveBack_counted {removed : List Reservation} (hr : ∀ r ∈ removed, r.resources ≠ [])
    (h : d.registry.Counted 0 removed.length) (noCache : Bool) :
    (d.giveBack C clock removed noCache).2.registry.Counted 0 0 := by
  have hplaced := h.placed_eq
  unfold giveBack
  dsimp only
  split
  next he =>
    have hnil : removed = [] := by
      rw [List.isEmpty_iff, List.flatMap_eq_nil_iff] at he
      rw [List.eq_nil_iff_forall_not_mem]
      exact fun r hm => hr r hm (he r hm)
    rw [hnil] at h
    exact h
  next =>
    refine ⟨h.active_eq, ?_⟩
    change d.registry.tally.placed + 0 = d.registry.tally.active +
      (d.registry.tally.released + removed.length) + d.registry.tally.tornDown + 0
    omega

theorem release_counted (hs : d.ledger.Sound) (h : d.registry.Counted 0 0) (hd : HandleId)
    (id : ReservationId) (noCache : Bool) :
    (d.release C clock hd id noCache).2.registry.Counted 0 0 := by
  unfold release
  have hget : d.registry.get? id = d.ledger.get? id := rfl
  rw [hget]
  cases hr : d.ledger.get? id with
  | none => exact h
  | some r =>
    dsimp only
    split
    next =>
      have hid := hs.id_eq hr
      have hsize := Ledger.size_drop (r := r) (s := r) (l := d.ledger) (by rwa [hid])
      have hactive := h.active_eq
      have hplaced := h.placed_eq
      rw [show d.registry.size = d.ledger.size from rfl] at hactive
      refine giveBack_counted C clock (d := d.setLedger (d.registry.ledger.drop r)) ?_
        ⟨rfl, ?_⟩ noCache
      · intro t ht
        rw [List.mem_singleton.1 ht, Reservation.ended_resources]
        exact (hs.sound hr).nonempty
      · change d.registry.tally.placed + 0 = (d.ledger.drop r).size + d.registry.tally.released +
          d.registry.tally.tornDown + 1
        omega
    next => exact h

theorem releaseWhere_counted (hs : d.ledger.Sound) (h : d.registry.Counted 0 0)
    (p : Reservation → Bool) (noCache : Bool) :
    (d.releaseWhere C clock p noCache).2.registry.Counted 0 0 := by
  have hsize : (d.ledger.removeWhere p).2.size + (d.ledger.removeWhere p).1.length =
    d.ledger.size := Ledger.removeAll_size hs _
  have hactive := h.active_eq
  have hplaced := h.placed_eq
  rw [show d.registry.size = d.ledger.size from rfl] at hactive
  refine giveBack_counted C clock (d := d.setLedger (d.registry.ledger.removeWhere p).2) ?_
    ⟨rfl, ?_⟩ noCache
  · intro t ht
    obtain ⟨r, hr, -, rfl⟩ := (Ledger.mem_removeWhere hs).1 ht
    exact (Ledger.Sound.sound hs hr).nonempty
  · change d.registry.tally.placed + 0 = (d.ledger.removeWhere p).2.size +
      d.registry.tally.released + d.registry.tally.tornDown + (d.ledger.removeWhere p).1.length
    omega

/-- At rest a sound desk has counted everything. -/
theorem Op.run_counted (hC : C.Silent) {op : Op σ} (hop : op.Proper) (hs : d.ledger.Sound)
    (h : d.registry.Counted 0 0) : (op.run C clock d).1.registry.Counted 0 0 := by
  cases op with
  | reserve id q =>
    unfold run Desk.reserve
    dsimp only
    cases hf : q.fault? with
    | some f => exact h
    | none => exact place_counted C clock hC (Reservation.fresh_ofRequest id clock hf).sound hs h
  | place r => exact place_counted C clock hC hop.sound hs h
  | release hd id n => exact release_counted C clock hs h hd id n
  | releaseHandle hd n => exact releaseWhere_counted C clock hs h _ n
  | releaseQueue q n => exact releaseWhere_counted C clock hs h _ n
  | deliver cs =>
    exact onChanges_counted C clock (d := { d with connector := C.incoming cs d.connector }) hs h cs
  | halt order => exact h.absorb hs clock ((order d.registry.ledger).map .lost)
  | stop =>
    unfold run Desk.stop
    dsimp only
    split
    · exact h
    · exact releaseWhere_counted C clock
        (d := { d with registry := { d.registry with stopped := true } }) hs
        ⟨h.active_eq, h.placed_eq⟩ (fun _ => true) true
  | start | nodes | tend => exact h

end Desk

end ClusterBroker
