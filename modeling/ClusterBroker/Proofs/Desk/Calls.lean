import ClusterBroker.Proofs.Desk.Closed
import ClusterBroker.Proofs.Ledger.Resources
import ClusterBroker.Proofs.Recorded

/-!
# What a desk gives back, on record

Whatever leaves the ledger is given back in one call, and for nothing there is no call. The answer
to that call decides what the client is told, but not what leaves the ledger.
-/
namespace ClusterBroker

variable {σ : Type} (C : Connector σ) (clock : Time)

namespace Desk

variable {d : Desk (Recorded σ)}

theorem giveBack_calls (removed : List Reservation) (noCache : Bool) (d : Desk (Recorded σ)) :
    let rs := removed.flatMap Reservation.resources
    let out := d.giveBack C.recorded clock removed noCache
    rs = [] ∧ out.2.connector.calls = d.connector.calls ∧ out.1 = .ok () ∨
      rs ≠ [] ∧ ∃ a, out.2.connector.calls = d.connector.calls ++ [.release rs noCache a] ∧
        out.1 = a.mapError .connector := by
  intro rs out
  by_cases hrs : rs = []
  · have hout : out = (.ok (), d) := if_pos (List.isEmpty_iff.2 hrs)
    rw [hout]
    exact .inl ⟨hrs, rfl, rfl⟩
  · have hne : ¬ rs.isEmpty = true := fun he => hrs (List.isEmpty_iff.1 he)
    have hout : out = _ := if_neg hne
    rw [hout]
    exact .inr ⟨hrs, _, rfl, rfl⟩

theorem releaseWhere_calls (hd : d.ledger.Sound) (p : Reservation → Bool) (noCache : Bool) :
    let gone := d.ledger.reservations.values.filter p
    let out := d.releaseWhere C.recorded clock p noCache
    gone = [] ∧ out.2.connector.calls = d.connector.calls ∧
        out.1 = .ok (d.ledger.removeWhere p).1 ∨
      gone ≠ [] ∧ ∃ a, out.2.connector.calls = d.connector.calls ++
        [.release (gone.flatMap Reservation.resources) noCache a] ∧
        out.1 = (a.mapError .connector).map fun _ => (d.ledger.removeWhere p).1 := by
  intro gone out
  have hres : (d.ledger.removeWhere p).1.flatMap Reservation.resources =
      gone.flatMap Reservation.resources := Ledger.removeWhere_resources hd p
  have hnil : gone.flatMap Reservation.resources = [] ↔ gone = [] := by
    rw [List.flatMap_eq_nil_iff]
    refine ⟨fun h => List.eq_nil_iff_forall_not_mem.2 fun r hr => ?_, fun h => by simp [h]⟩
    have hk : d.ledger.get? r.id = some r := ((Table.mem_values_where fun _ _ => hd.id_eq).1 hr).1
    exact (hd.sound hk).nonempty (h r hr)
  have hback := giveBack_calls C clock (d.ledger.removeWhere p).1 noCache
    (d.setLedger (d.ledger.removeWhere p).2)
  rw [hres] at hback
  rcases hback with ⟨hgone, hcalls, hanswer⟩ | ⟨hgone, a, hcalls, hanswer⟩
  · exact .inl ⟨hnil.1 hgone, hcalls, congrArg (Except.map fun _ => _) hanswer⟩
  · exact .inr ⟨fun he => hgone (hnil.2 he), a, hcalls, congrArg (Except.map fun _ => _) hanswer⟩

/-- Stopping gives back all that is tracked, in one call. -/
theorem stop_returns (hd : d.ledger.Sound) (hs : d.registry.stopped = false)
    (hr : d.ledger.resources ≠ []) : ∃ a,
      Call.release d.ledger.resources true a ∈ (d.stop C.recorded clock).2.connector.calls := by
  have hback := releaseWhere_calls C clock
    (d := { d with registry := { d.registry with stopped := true } }) hd (fun _ => true) true
  rw [List.filter_true] at hback
  unfold stop
  rw [if_neg (by simp [hs])]
  rcases hback with ⟨hgone, -⟩ | ⟨-, a, hcall, -⟩
  · refine absurd ?_ hr
    unfold Ledger.resources
    rw [show d.ledger.reservations.values = [] from hgone]
    rfl
  · refine ⟨a, List.mem_append_left _ ?_⟩
    rw [hcall]
    exact List.mem_append_right _ (List.mem_singleton_self _)

/-! ### One after the other -/

end Desk

end ClusterBroker
