import ClusterBroker.Proofs.Broker.Resting
import ClusterBroker.Proofs.Desk.Calls

/-!
# What a stopped registry parts with

Stopping gives back in one call all that is tracked, and the controller is not told. What it counts
as submitted from then on was tracked at that moment: a gang that wakes up cannot be placed any
more, and a new one is not taken. So after any run whatever counts as submitted is tracked, or it
was given back in that call, which stays on record.
-/
namespace ClusterBroker

variable {σ : Type} (C : Connector σ) (clock : Time)

namespace Broker

/-! ### The record -/

variable {b : Broker (ClusterBroker.Recorded σ)} {s : Supervisor}

/-- One of these calls gave back all that the reservation had. -/
def ReturnedIn (calls : List Call) (r : Reservation) : Prop :=
  ∃ rs noCache a, Call.release rs noCache a ∈ calls ∧ ∀ x ∈ r.resourceIds, x ∈ rs.map Resource.id

theorem ReturnedIn.mono {calls calls' : List Call} {r : Reservation} (h : ReturnedIn calls r)
    (hc : ∀ call ∈ calls, call ∈ calls') : ReturnedIn calls' r := by
  obtain ⟨rs, n, a, ha, hx⟩ := h
  exact ⟨rs, n, a, hc _ ha, hx⟩

/-- Stopping gives back in one call whatever counts as submitted, since that is tracked. -/
theorem Steady.parts (h : Steady b s [] []) (hs : b.desk.registry.stopped = false) :
    ShutWith (ReturnedIn (b.stop C.recorded clock).2.desk.connector.calls)
      (b.stop C.recorded clock).2 s [] [] := by
  refine ⟨⟨⟨h.manned.supervisor, h.manned.listeners⟩, Desk.stop_closed C.recorded clock h.sound hs,
    h.backed.neat, List.forall_mem_nil _⟩, fun id r hr hsub => .inr ?_⟩
  obtain ⟨t, ht, -, hc⟩ := (h.backed.backed hr hsub).resolve_left List.not_mem_nil
  have hmem : ∀ x ∈ t.resources, x ∈ b.desk.ledger.resources := fun x hx =>
    Ledger.mem_resources.2 ⟨r.id, t, ht, hx⟩
  obtain ⟨x, hx⟩ := List.exists_mem_of_ne_nil _ (h.sound.sound ht).nonempty
  obtain ⟨a, ha⟩ := Desk.stop_returns C clock h.sound hs (List.ne_nil_of_mem (hmem x hx))
  refine ⟨b.desk.ledger.resources, true, a, ha, fun y hy => ?_⟩
  rw [← Reservation.resourceIds_of_claim hc] at hy
  obtain ⟨z, hz, rfl⟩ := List.mem_map.1 hy
  exact List.mem_map_of_mem (hmem z hz)

/-- Either the registry runs, or it was stopped and whatever counts as submitted was given back. -/
inductive Accounted (b : Broker (ClusterBroker.Recorded σ)) (s : Supervisor) : Prop
  | running : Steady b s [] [] → Accounted b s
  | parted {calls : List Call} : ShutWith (ReturnedIn calls) b s [] [] →
      (∀ call ∈ calls, call ∈ b.desk.connector.calls) → Accounted b s

theorem Accounted.manned (h : Accounted b s) : Manned b s := by
  cases h with
  | running h => exact h.manned
  | parted h => exact h.shut.manned

end Broker

end ClusterBroker
