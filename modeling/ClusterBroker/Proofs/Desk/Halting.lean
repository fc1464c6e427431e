import ClusterBroker.Proofs.Desk.Batches
import ClusterBroker.Proofs.Ledger.Halting
import ClusterBroker.Proofs.Recorded
import ClusterBroker.Cache.Tier

/-!
# A desk whose manager stops

When the manager stops, whatever is kept in a cache is forgotten and every indexed resource is
reported as lost, in the order in which the index happens to list them. The connector is not called:
there is nobody to give anything back to.
-/
namespace ClusterBroker.Desk

variable {σ : Type} (C : Connector σ) (mint : Nat → ResourceId)

/-- A cache is empty when the manager has stopped. -/
theorem halted_cached? {t : Tier (Recorded σ)} {c : CachedConnector (Recorded σ)}
    (hc : ((Tier.connector C.recorded mint).halted t).cached? = some c) :
    c.cache.entries = ∅ ∧ c.cache.byCapacity = ∅ := by
  cases t with
  | plain s => exact absurd hc nofun
  | cached k =>
    obtain rfl : _ = c := Option.some.inj hc
    exact ⟨rfl, rfl⟩

theorem halted_calls (t : Tier (Recorded σ)) :
    ((Tier.connector C.recorded mint).halted t).inner.calls = t.inner.calls := by
  cases t <;> rfl

/-- When the manager stops, in whatever order the index is gone through: the cache is empty and the
connector was not called; what was allocated, or partly and no gang, is tracked as before and the
rest is not there any more; each handle that had a reservation learns of that in one event; and what
is counted as applied is the resources of what stays and the reservations that go. -/
theorem onHaltedIn_halted {queue : QueueName} {s : Tier (Recorded σ)}
    {d : Desk (Tier (Recorded σ))}
    (h : Reached (Tier.connector C.recorded mint) queue s d.ledger)
    {order : Ledger → List ResourceId} (horder : (order d.ledger).Perm d.ledger.index.keys)
    (clock : Time) {d' : Desk (Tier (Recorded σ))} {sent : List (Dispatch (Tier (Recorded σ)))}
    (hhalt : d.onHaltedIn order (Tier.connector C.recorded mint) clock = (d', sent)) :
    (∀ c, d'.connector.cached? = some c → c.cache.entries = ∅ ∧ c.cache.byCapacity = ∅) ∧
    d'.connector.inner.calls = d.connector.inner.calls ∧
    sent.length = 1 ∧ d.ledger.Halted d'.ledger (eventsOf sent) ∧
    d'.registry.tally.applied = d.registry.tally.applied +
      ((d.ledger.survivors.flatMap Reservation.resources).length + d.ledger.casualties.length) := by
  obtain ⟨rfl, rfl⟩ := Prod.mk.inj hhalt
  refine ⟨fun c hc => halted_cached? C mint hc, halted_calls C mint _, rfl, ?_, ?_⟩
  · rw [eventsOf_cons, eventsOf_nil, List.append_nil]
    exact Ledger.reconcile_halted h.sound horder clock
  · rw [← Ledger.reconcile_listing_applied h.sound horder clock]
    rfl

/-- A gang that has one of two resources and a single resource that was allocated, with one more
kept in the cache. The index is gone through backwards. -/
theorem onHaltedIn_halted_backwards :
    let T := Tier.connector ScriptedManager.connector.recorded fun n => .ofNat (100 + n)
    let s : Tier (Recorded ScriptedManager) :=
      .cached { inner := ⟨{}, []⟩, cache := { policy := .never } }
    let held : Allocation := ⟨1, 512, ⟨"node"⟩, ⟨"other"⟩⟩
    let run : List (Time × Op (Tier (Recorded ScriptedManager))) :=
      (⟨0, by decide⟩, .start) :: gangAndSingle ++ [
        (⟨40, by decide⟩, .reserve ⟨9, by decide⟩
          ⟨⟨5, by decide⟩, ⟨"queue"⟩, false, [⟨⟨6, by decide⟩, ⟨"node"⟩, .dontCare, 1, 512⟩]⟩),
        (⟨50, by decide⟩,
          .deliver [.allocated ⟨4, by decide⟩ held, .allocated ⟨6, by decide⟩ held]),
        (⟨60, by decide⟩, .release ⟨5, by decide⟩ ⟨9, by decide⟩ false)]
    let d := after T run (opened ⟨"queue"⟩ s)
    let o := d.onHaltedIn (fun l => l.index.keys.reverse) T ⟨70, by decide⟩
    (d.connector.cached?.map fun c => c.cache.size) = some 1 ∧
      (∀ c, o.1.connector.cached? = some c → c.cache.entries = ∅) ∧
      (d.ledger.get? ⟨7, by decide⟩).isSome ∧ o.1.ledger.get? ⟨7, by decide⟩ = none ∧
      (d.ledger.get? ⟨8, by decide⟩).isSome ∧
      o.1.ledger.get? ⟨8, by decide⟩ = d.ledger.get? ⟨8, by decide⟩ ∧
      o.1.registry.tally.applied = d.registry.tally.applied + 2 := by
  intro T s held run d o
  have hrun : ∀ e ∈ run, e.2.Proper := by
    intro e he
    rcases List.mem_append.1 he with he | he
    · rcases List.mem_cons.1 he with rfl | he
      · trivial
      · exact gangAndSingle_proper e he
    · simp only [List.mem_cons, List.not_mem_nil, or_false] at he
      rcases he with rfl | rfl | rfl <;> trivial
  have hreached : Reached T ⟨"queue"⟩ s d.ledger := reached_after hrun
  have hhalt : d.onHaltedIn (fun l => l.index.keys.reverse) T ⟨70, by decide⟩ = (o.1, o.2) :=
    (Prod.eta o).symm
  have hall := fun horder => onHaltedIn_halted ScriptedManager.connector
    (fun n => .ofNat (100 + n)) hreached horder ⟨70, by decide⟩ hhalt
  obtain ⟨hcache, -, -, hledger, happlied⟩ := hall (List.reverse_perm _)
  have hcount : (d.ledger.survivors.flatMap Reservation.resources).length +
      d.ledger.casualties.length = 2 := by decide +kernel
  refine ⟨by decide +kernel, fun c hc => (hcache c hc).1, by decide +kernel, ?_,
    by decide +kernel, ?_, ?_⟩
  · rw [hledger.get?_eq]
    decide +kernel
  · rw [hledger.get?_eq]
    decide +kernel
  · rw [happlied, hcount]

end ClusterBroker.Desk
