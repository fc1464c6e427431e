import ClusterBroker.Proofs.QueueService.Run
import ClusterBroker.Proofs.Recorded

/-!
# Shutting a service down

What is cached goes back first, then what is tracked, and the connector is unregistered last,
whether it takes what is given back or not. The cache is drained before the registry gives anything
back, and what the registry gives back may not be kept, so there is nothing left to give back when
the connector is unregistered.
-/
namespace ClusterBroker

/-- The call that gives resources back for good. For no resources there is no call. -/
def Call.returning (rs : List Resource) (answer : Except ConnectorFault Unit) : List Call :=
  if rs.isEmpty then [] else [.release rs true answer]

theorem Call.givenBack_returning (rs : List Resource) (answer : Except ConnectorFault Unit) :
    (Call.returning rs answer).flatMap Call.givenBack = rs.map fun r => (r, true) := by
  unfold returning
  split
  next h => rw [List.isEmpty_iff.1 h]; rfl
  next => exact List.append_nil _

theorem Ledger.resources_removeAny {l : Ledger} (h : l.Sound) :
    (l.removeWhere fun _ => true).1.flatMap Reservation.resources = l.resources := by
  rw [removeWhere_resources h, List.filter_true]
  rfl

namespace Tier

variable {σ : Type}

def calls (t : Tier (Recorded σ)) : List Call := t.inner.calls

def cache? : Tier σ → Option Cache
  | .plain _ => none
  | .cached s => some s.cache

/-- From one state of a connector to another: the calls made below the cache, and what becomes of
the cache. No id is drawn. -/
structure Records (new : List Call) (f : Cache → Cache) (t t' : Tier (Recorded σ)) : Prop where
  calls_eq : t'.calls = t.calls ++ new
  cache_eq : t'.cache? = t.cache?.map f
  drawn_eq : t'.drawn = t.drawn

variable (C : Connector σ) (mint : Nat → ResourceId) (clock : Time) {new new' : List Call}
  {f g : Cache → Cache} {t t' t'' : Tier (Recorded σ)}

theorem Records.refl (t : Tier (Recorded σ)) : Records [] id t t :=
  ⟨(List.append_nil _).symm, Option.map_id.symm ▸ rfl, rfl⟩

theorem Records.trans (h : Records new f t t') (h' : Records new' g t' t'') :
    Records (new ++ new') (g ∘ f) t t'' := by
  refine ⟨?_, ?_, h'.drawn_eq.trans h.drawn_eq⟩
  · rw [h'.calls_eq, h.calls_eq, List.append_assoc]
  · rw [h'.cache_eq, h.cache_eq, Option.map_map]

theorem Records.kept_eq_nil (h : Records new id t t') (ht : t.kept = []) : t'.kept = [] := by
  have hc := h.cache_eq
  rw [Option.map_id] at hc
  cases t with
  | plain s =>
    cases t' with
    | plain s' => rfl
    | cached s' => simp [cache?] at hc
  | cached s =>
    cases t' with
    | plain s' => rfl
    | cached s' => rwa [kept, Option.some.inj hc]

/-- The cache is drained, and what was kept goes back in one call. -/
theorem stop_records (t : Tier (Recorded σ)) : ∃ a,
    Records (Call.returning (t.kept.map CacheEntry.toReleased) a) (fun c => c.drain.2) t
      (modifyCached (CachedConnector.stop C.recorded clock) t) := by
  cases t with
  | plain s => exact ⟨.ok (), (List.append_nil _).symm, rfl, rfl⟩
  | cached s =>
    obtain ⟨hcache, hdrawn⟩ := s.stop_cache C.recorded clock
    refine ⟨(C.release clock (s.cache.entries.values.map CacheEntry.toReleased) true
      s.inner.state).1, ?_, congrArg some hcache, hdrawn⟩
    change (s.stop C.recorded clock).inner.calls =
      s.inner.calls ++ Call.returning (s.cache.drain.1.map CacheEntry.toReleased) _
    unfold CachedConnector.stop Call.returning
    dsimp only
    rw [List.isEmpty_map]
    split
    next => exact (List.append_nil _).symm
    next => rfl

theorem kept_stop (t : Tier σ) :
    (modifyCached (CachedConnector.stop C clock) t).kept = [] := by
  cases t with
  | plain s => rfl
  | cached s =>
    change (s.stop C clock).cache.entries.values = []
    rw [(s.stop_cache C clock).1]
    rfl

/-- What may not be kept goes past the cache. -/
theorem release_records (rs : List Resource) (t : Tier (Recorded σ)) : ∃ a,
    Records [.release rs true a] id t
      ((Tier.connector C.recorded mint).release clock rs true t).2 := by
  cases t with
  | plain s => exact ⟨_, rfl, rfl, rfl⟩
  | cached s => exact ⟨_, rfl, rfl, rfl⟩

/-- Where nothing is cached nothing is given back any more. -/
theorem unregister_records {t : Tier (Recorded σ)} (h : t.kept = []) :
    Records [.unregister ((Tier.connector C.recorded mint).unregister clock t).1]
      (fun c => c.drain.2) t ((Tier.connector C.recorded mint).unregister clock t).2 := by
  cases t with
  | plain s => exact ⟨rfl, rfl, rfl⟩
  | cached s =>
    obtain ⟨a, hstop⟩ := stop_records C clock (.cached s)
    rw [h] at hstop
    have hcalls : (s.stop C.recorded clock).inner.calls = s.inner.calls :=
      hstop.calls_eq.trans (List.append_nil _)
    refine ⟨?_, hstop.cache_eq, hstop.drawn_eq⟩
    change (s.stop C.recorded clock).inner.calls ++ _ = s.inner.calls ++ _
    rw [hcalls]
    rfl

end Tier

namespace Desk

variable {σ : Type} (C : Connector σ) (mint : Nat → ResourceId) (clock : Time)
  {d : Desk (Tier (Recorded σ))}

theorem giveBack_records (removed : List Reservation) (d : Desk (Tier (Recorded σ))) : ∃ a,
    Tier.Records (Call.returning (removed.flatMap Reservation.resources) a) id d.connector
      (d.giveBack (Tier.connector C.recorded mint) clock removed true).2.connector := by
  unfold giveBack Call.returning
  dsimp only
  split
  next => exact ⟨.ok (), .refl _⟩
  next => exact Tier.release_records C mint clock _ d.connector

/-- A registry that works gives back what it tracks and unregisters. -/
theorem stop_records (hd : d.ledger.Sound) (hopen : d.registry.stopped = false)
    (hkept : d.connector.kept = []) : ∃ a b,
    Tier.Records (Call.returning d.ledger.resources a ++ [.unregister b]) (fun c => c.drain.2)
        d.connector (d.stop (Tier.connector C.recorded mint) clock).2.connector ∧
      (d.stop (Tier.connector C.recorded mint) clock).1 = b.mapError .connector := by
  obtain ⟨a, hback⟩ := giveBack_records C mint clock (d.ledger.removeWhere fun _ => true).1
    (({ d with registry := { d.registry with stopped := true } } : Desk _).setLedger
      (d.ledger.removeWhere fun _ => true).2)
  rw [Ledger.resources_removeAny hd] at hback
  have hlast := Tier.unregister_records C mint clock (hback.kept_eq_nil hkept)
  unfold stop
  rw [hopen]
  exact ⟨a, _, hback.trans hlast, rfl⟩

end Desk

namespace QueueService

variable {σ : Type} {C : Connector σ} {u : Supply}

/-- The connector as the registry finds it when it is stopped. -/
def swept (C : Connector σ) (clock : Time) (s : QueueService σ) : Desk (Tier σ) :=
  { s.broker.desk with
    connector := Tier.modifyCached (CachedConnector.stop C clock) s.broker.desk.connector }

theorem shutdown_eq (C : Connector σ) (mint : Nat → ResourceId) (clock : Time)
    {s : QueueService σ} (hup : s.down = false) :
    (s.shutdown C mint clock).2.broker.desk =
        ((s.swept C clock).stop (Tier.connector C mint) clock).2 ∧
      (s.shutdown C mint clock).1 =
        match ((s.swept C clock).stop (Tier.connector C mint) clock).1 with
        | .ok () => .done
        | .error f => .failed s.queue f := by
  unfold shutdown
  rw [hup, if_neg Bool.false_ne_true]
  dsimp only
  split
  next h =>
    rw [show ((s.swept C clock).stop (Tier.connector C mint) clock).1 = .ok () from h]
    exact ⟨rfl, rfl⟩
  next f h =>
    rw [show ((s.swept C clock).stop (Tier.connector C mint) clock).1 = .error f from h]
    exact ⟨rfl, rfl⟩

/-- Whatever the options, and whatever has happened since the start: the cache and the registry are
empty afterwards, and nothing was put into the cache. There is one call for what was cached, if
there was anything, one for what was tracked, if there was anything, and one to unregister, in this
order and whatever is answered. What was cached is named by its id in the cache, what was tracked by
its own, and as long as the supply lasts nothing is named twice. -/
theorem shutdown_leaves_nothing {t₀ : Time} {o : BrokerOptions} {inner : Recorded σ}
    {s₀ s : QueueService (Recorded σ)} (hstart : start C.recorded u.mint t₀ o inner = .ok s₀)
    {run : List (Time × Op (Recorded σ))} (hrun : ∀ e ∈ run, e.2.Heeds C.recorded e.1 u)
    (hs : s = after C.recorded u.mint run s₀) (hopen : s.broker.registry.stopped = false)
    (clock : Time) :
    let out := s.shutdown C.recorded u.mint clock
    let old := s.broker.desk
    let new := out.2.broker.desk
    let cached := old.connector.kept.map CacheEntry.toReleased
    let tracked := old.ledger.resources
    new.ledger = {} ∧ new.connector.drawn = old.connector.drawn ∧
      (new.connector.cache? = old.connector.cache?.map fun c =>
        { policy := c.policy, tally := { c.tally with size := 0 } }) ∧
      ∃ calls a b answer, new.connector.calls = old.connector.calls ++ calls ∧
        calls = Call.returning cached a ++ Call.returning tracked b ++ [.unregister answer] ∧
        calls.flatMap Call.givenBack = (cached ++ tracked).map (fun r => (r, true)) ∧
        cached.map Resource.id = old.connector.kept.map CacheEntry.id ∧
        (old.connector.drawn ≤ u.size → ((cached ++ tracked).map Resource.id).Nodup) ∧
        out.1 = match answer with
          | .ok () => .done
          | .error f => .failed s.queue (.connector f) := by
  intro out old new cached tracked
  have hserving : s.Serving u := by
    rw [hs]
    exact after_serving (start_serving hstart) hrun
  have hsound := hserving.apart.desk.sound
  obtain ⟨hdesk, hanswer⟩ := shutdown_eq C.recorded u.mint clock hserving.up
  obtain ⟨a, hfirst⟩ := Tier.stop_records C clock s.broker.desk.connector
  obtain ⟨b, answer, hrest, hstop⟩ := Desk.stop_records C u.mint clock
    (d := s.swept C.recorded clock) hsound hopen (Tier.kept_stop C.recorded clock _)
  have hall := hfirst.trans hrest
  rw [← hdesk] at hall
  have hids : cached.map Resource.id = old.connector.kept.map CacheEntry.id := List.map_map
  refine ⟨?_, hall.drawn_eq, hall.cache_eq, _, a, b, answer, hall.calls_eq,
    (List.append_assoc _ _ _).symm, ?_, hids, fun hdrawn => ?_, ?_⟩
  · obtain ⟨hnew, hget⟩ := Desk.stop_ledger (Tier.connector C.recorded u.mint) clock
      (d := s.swept C.recorded clock) hsound
    rw [show new.ledger = _ from congrArg Desk.ledger hdesk]
    refine hnew.eq_empty fun id => ?_
    rw [hget, show (s.swept C.recorded clock).registry.stopped = false from hopen]
    rfl
  · rw [List.flatMap_append, List.flatMap_append, Call.givenBack_returning,
      Call.givenBack_returning, List.map_append]
    exact congrArg _ (List.append_nil _)
  · rw [List.map_append, hids]
    exact hserving.apart.desk.ids_nodup hdrawn
  · rw [show out.1 = _ from hanswer, hstop]
    cases answer <;> rfl

/-- One gang was given back and is kept, another waits for its resource, and the manager takes
nothing back any more. -/
theorem shutdown_leaves_nothing_refused :
    let request := fun (k : ResourceId) (memory : UInt64) =>
      (⟨⟨3, by decide⟩, ⟨"queue"⟩, true, [⟨k, ⟨"node"⟩, .dontCare, 1, memory⟩]⟩ : Request)
    let refusing : Tier.Care (Recorded ScriptedManager) :=
      .inner fun m => { m with state := { m.state with failRelease := true } }
    let run : List (Time × Op (Recorded ScriptedManager)) := [
      (.ofMillis 1, .call (.reserve ⟨7, by decide⟩ (request ⟨1, by decide⟩ 512))),
      (.ofMillis 2, .call (.deliver [.allocated ⟨1, by decide⟩ ⟨1, 512, ⟨"node"⟩, ⟨"m"⟩⟩])),
      (.ofMillis 3, .call (.release ⟨3, by decide⟩ ⟨7, by decide⟩ false)),
      (.ofMillis 4, .direct (.reserve ⟨8, by decide⟩ (request ⟨2, by decide⟩ 1024))),
      (.ofMillis 5, .sleep 2),
      (.ofMillis 6, .call (.tend (refusing.act ScriptedManager.connector.recorded (.ofMillis 6))))]
    ∃ s₀ s : QueueService (Recorded ScriptedManager),
      start ScriptedManager.connector.recorded Desk.hundreds.mint (.ofMillis 0) {} ⟨{}, []⟩ =
        .ok s₀ ∧
      s = after ScriptedManager.connector.recorded Desk.hundreds.mint run s₀ ∧
      let out := s.shutdown ScriptedManager.connector.recorded Desk.hundreds.mint (.ofMillis 7)
      out.1 = .done ∧ out.2.broker.desk.ledger = {} ∧
        ∃ calls, out.2.broker.desk.connector.calls = s.broker.desk.connector.calls ++ calls ∧
          (calls.flatMap Call.givenBack).map (fun x => (x.1.id, x.2)) =
            [(Desk.hundreds.mint 0, true), (⟨2, by decide⟩, true)] := by
  intro request refusing run
  have hrun : ∀ e ∈ run, e.2.Heeds ScriptedManager.connector.recorded e.1 Desk.hundreds := by
    intro e he
    simp only [run, List.mem_cons, List.not_mem_nil, or_false] at he
    rcases he with rfl | rfl | rfl | rfl | rfl | rfl
    · change Desk.Unminted _ _
      decide +kernel
    · trivial
    · trivial
    · change Desk.Unminted _ _
      decide +kernel
    · trivial
    · exact ⟨refusing, rfl⟩
  have hstart : start ScriptedManager.connector.recorded Desk.hundreds.mint (.ofMillis 0) {}
      ⟨{}, []⟩ = .ok _ := rfl
  refine ⟨_, _, hstart, rfl, by decide +kernel, ?_⟩
  obtain ⟨hledger, -, -, calls, a, b, answer, hcalls, -, hgiven, -⟩ := shutdown_leaves_nothing
    hstart hrun rfl (by decide +kernel) (.ofMillis 7)
  refine ⟨hledger, calls, hcalls, ?_⟩
  rw [hgiven, List.map_map]
  decide +kernel

end QueueService

end ClusterBroker
