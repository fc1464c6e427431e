import ClusterBroker.Broker
import ClusterBroker.Cache

/-!
# Metrics

What a broker counts, under the names by which it is reported. A counter only grows; a gauge is
the size of something.
-/
namespace ClusterBroker

inductive Metric where
  | placed | released | tornDown | active | applied | ignored | dispatched | failures
  | hits | misses | inserted | evicted | invalidated | cacheSize
  | rounds | backedOff | resubmitted | resubmissionsFailed | waiting
  deriving DecidableEq, Repr

namespace Metric

def all : List Metric :=
  [.placed, .released, .tornDown, .active, .applied, .ignored, .dispatched, .failures,
    .hits, .misses, .inserted, .evicted, .invalidated, .cacheSize,
    .rounds, .backedOff, .resubmitted, .resubmissionsFailed, .waiting]

/-- The name of a metric within the broker. -/
def name : Metric → String
  | .placed => "registry.reservations_placed.total"
  | .released => "registry.reservations_released.total"
  | .tornDown => "registry.reservations_torn_down.total"
  | .active => "registry.reservations_active"
  | .applied => "registry.changes_applied.total"
  | .ignored => "registry.changes_ignored.total"
  | .dispatched => "registry.events_dispatched.total"
  | .failures => "registry.listener_panics.total"
  | .hits => "resource_cache.hit.total"
  | .misses => "resource_cache.miss.total"
  | .inserted => "resource_cache.inserted.total"
  | .evicted => "resource_cache.evicted.total"
  | .invalidated => "resource_cache.invalidated.total"
  | .cacheSize => "resource_cache.size"
  | .rounds => "anti_deadlock.backoff_rounds.total"
  | .backedOff => "anti_deadlock.backed_off.total"
  | .resubmitted => "anti_deadlock.resubmissions.total"
  | .resubmissionsFailed => "anti_deadlock.resubmission_failures.total"
  | .waiting => "anti_deadlock.backoff_queue_size"

/-- The sizes; every other metric is a counter. -/
def isGauge : Metric → Bool
  | .active | .cacheSize | .waiting => true
  | _ => false

def kind (m : Metric) : String := if m.isGauge then "gauge" else "counter"

/-- Everything is counted in pieces. -/
def unit : String := "count"

def description : Metric → String
  | .placed => "Number of reservations submitted to the resource manager"
  | .released => "Number of reservations released by their clients"
  | .tornDown => "Number of gang reservations torn down after a rejection, preemption or loss"
  | .active => "Number of reservations tracked by the registry"
  | .applied => "Number of resource manager changes applied to the registry"
  | .ignored => "Number of resource manager changes about unknown resources or in illegal states"
  | .dispatched => "Number of non-empty events handed to listeners"
  | .failures => "Number of listener invocations that panicked"
  | .hits => "Number of asks satisfied from the resource cache"
  | .misses => "Number of asks forwarded to the resource manager"
  | .inserted => "Number of released resources kept in the cache"
  | .evicted => "Number of cache entries released to the resource manager by the eviction sweep"
  | .invalidated => "Number of cache entries dropped because of a resource manager notification"
  | .cacheSize => "Number of entries in the cache"
  | .rounds => "Number of backoff rounds started because gang scheduling stalled"
  | .backedOff => "Number of gang reservations put into the backoff queue"
  | .resubmitted => "Number of backed-off reservations submitted again"
  | .resubmissionsFailed =>
    "Number of backed-off reservations rejected because they could not be submitted again"
  | .waiting => "Number of reservations waiting in the backoff queue"

end Metric

/-- The tallies that the metrics are read from. -/
structure Tallies where
  registry : Registry.Tally := {}
  cache : Cache.Tally := {}
  control : GangControl.Tally := {}
  dispatched : Nat := 0
  failures : Nat := 0
  deriving DecidableEq, Repr

/-- The value of a metric. -/
def Tallies.read (t : Tallies) : Metric → Nat
  | .placed => t.registry.placed
  | .released => t.registry.released
  | .tornDown => t.registry.tornDown
  | .active => t.registry.active
  | .applied => t.registry.applied
  | .ignored => t.registry.ignored
  | .dispatched => t.dispatched
  | .failures => t.failures
  | .hits => t.cache.hits
  | .misses => t.cache.misses
  | .inserted => t.cache.inserted
  | .evicted => t.cache.evicted
  | .invalidated => t.cache.invalidated
  | .cacheSize => t.cache.size
  | .rounds => t.control.rounds
  | .backedOff => t.control.backedOff
  | .resubmitted => t.control.resubmitted
  | .resubmissionsFailed => t.control.resubmissionsFailed
  | .waiting => t.control.waiting

/-- The tallies of a broker. An event is counted where the registry sends it out, and again
where a supervisor hands it on. -/
def Broker.tallies {σ : Type} (cache : Cache.Tally) (b : Broker σ) : Tallies :=
  let s := b.supervisor <|> b.former
  { registry := b.registry.tally
    cache := cache
    control := (s.map fun s => s.control.tally).getD {}
    dispatched := b.listeners.dispatched + (s.map fun s => s.clients.dispatched).getD 0
    failures := b.listeners.failures + (s.map fun s => s.clients.failures).getD 0 }

end ClusterBroker
