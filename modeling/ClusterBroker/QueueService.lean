import ClusterBroker.Broker.Supervision
import ClusterBroker.Cache.Tier
import ClusterBroker.Options

/-!
# The service of one queue

A broker for one queue as its options describe it, registered with the resource manager, and
two kinds of work in the background: sweeps of the cache at a fixed interval, and turns of
supervision, each of which says how long to rest before the next one. The first turn is taken
at the start, the first sweep after one interval.

Background work is planned in milliseconds of running time, which passes only through `sleep`.
The clock that the parts of the service read is another one and does not move meanwhile.
-/
namespace ClusterBroker

/-- Which entries the cache gives up. -/
def CacheOptions.policy (o : CacheOptions) : EvictionPolicy :=
  match o.evictionPolicy with
  | .idleTimeout => .idleTimeout o.evictionIdleTimeout
  | .never => .never

/-- A connector as the cache options want it. -/
def Tier.ofOptions {σ : Type} (o : CacheOptions) (inner : σ) : Tier σ :=
  if o.enabled then .cached { inner := inner, cache := { policy := o.policy } } else .plain inner

/-- Why a service does not start. -/
inductive StartFault where
  | invalidOptions (fault : InvalidOption)
  | registration (queue : QueueName) (fault : BrokerFault)
  deriving DecidableEq, Repr

/-- What went wrong, without the reasons. -/
def StartFault.message : StartFault → String
  | .invalidOptions _ => "invalid broker options"
  | .registration q _ => "failed to register queue '" ++ q.text ++ "' with the resource manager"

/-- The option to blame, if any. -/
def StartFault.option? : StartFault → Option String
  | .invalidOptions f => some f.option
  | .registration .. => none

/-- How the service went down. -/
inductive Shutdown where
  | done
  | failed (queue : QueueName) (fault : BrokerFault)
  | already
  deriving DecidableEq, Repr

def Shutdown.message : Shutdown → String
  | .done => "ok"
  | .failed q _ => "failed to stop the registry of queue '" ++ q.text ++ "'"
  | .already => "already shut down"

structure QueueService (σ : Type) where
  queue : QueueName
  broker : Broker (Tier σ)
  /-- The time between two sweeps, in milliseconds. -/
  sweepEvery : Nat
  elapsed : Nat := 0
  /-- When the next sweep is due, if the cache is swept. -/
  nextSweep : Option Nat := none
  /-- When the next turn of supervision is due, if there is supervision. -/
  nextTurn : Option Nat := none
  down : Bool := false

namespace QueueService

variable {σ : Type}

/-- How many milliseconds to rest: at least one. -/
def restMillis (d : Span) : Nat := Max.max 1 d.ceilMillis

/-- Takes a turn of supervision and plans the next one. -/
def turn (C : Connector (Tier σ)) (clock : Time) (s : QueueService σ) : QueueService σ :=
  let t := s.broker.supervisionTurn C clock
  { s with broker := t.2, nextTurn := t.1.map fun d => s.elapsed + restMillis d }

/-- Sweeps the cache and plans the next sweep. -/
def sweep (C : Connector σ) (clock : Time) (s : QueueService σ) : QueueService σ :=
  { s with
    broker := s.broker.modifyConnector (Tier.modifyCached (CachedConnector.evict C clock))
    nextSweep := some (s.elapsed + s.sweepEvery) }

/-- Builds the broker that the options describe, registers it and starts the background work. -/
def start (C : Connector σ) (mint : Nat → ResourceId) (clock : Time) (o : BrokerOptions)
    (inner : σ) : Except StartFault (QueueService σ) :=
  match o.fault? with
  | some f => .error (.invalidOptions f)
  | none =>
    let desk : Desk (Tier σ) := ⟨{ queue := o.queue }, Tier.ofOptions o.cache inner⟩
    let a := (Broker.ofDesk desk).start (Tier.connector C mint)
    match a.1 with
    | .error f => .error (.registration o.queue f)
    | .ok () =>
      let every := restMillis o.cache.evictionRunInterval
      let s : QueueService σ :=
        { queue := o.queue
          broker := a.2
          sweepEvery := every
          nextSweep := if o.cache.enabled then some every else none }
      .ok (if o.antiDeadlock.enabled then
        turn (Tier.connector C mint) clock
          { s with broker := s.broker.supervise o.antiDeadlock clock }
      else s)

/-- Work in the background. -/
inductive Job where
  | sweep (due : Nat)
  | turn (due : Nat)
  deriving DecidableEq, Repr

/-- The next work to be done; of two pieces due together the sweep. -/
def nextJob (s : QueueService σ) : Option Job :=
  match s.nextSweep, s.nextTurn with
  | none, none => none
  | some a, none => some (.sweep a)
  | none, some b => some (.turn b)
  | some a, some b => some (if a ≤ b then .sweep a else .turn b)

/-- Does background work that is due by a time, at most `n` pieces. -/
def runUntil (C : Connector σ) (mint : Nat → ResourceId) (clock : Time) (target : Nat) :
    Nat → QueueService σ → QueueService σ
  | 0, s => s
  | n + 1, s =>
    match s.nextJob with
    | none => s
    | some (.sweep due) =>
      if due ≤ target then runUntil C mint clock target n ({ s with elapsed := due }.sweep C clock)
      else s
    | some (.turn due) =>
      if due ≤ target then
        runUntil C mint clock target n
          ({ s with elapsed := due }.turn (Tier.connector C mint) clock)
      else s

/-- Lets time pass. Both kinds of work rest at least a millisecond, so there are at most two
pieces of work for each. -/
def sleep (C : Connector σ) (mint : Nat → ResourceId) (clock : Time) (millis : Nat)
    (s : QueueService σ) : QueueService σ :=
  let target := s.elapsed + millis
  { runUntil C mint clock target (2 * millis) s with elapsed := target }

/-- Ends the background work, gives back what is cached, then what is reserved, and
unregisters. -/
def shutdown (C : Connector σ) (mint : Nat → ResourceId) (clock : Time) (s : QueueService σ) :
    Shutdown × QueueService σ :=
  if s.down then (.already, s)
  else
    let b := s.broker.modifyConnector (Tier.modifyCached (CachedConnector.stop C clock))
    let a := b.stop (Tier.connector C mint) clock
    let s := { s with broker := a.2, nextSweep := none, nextTurn := none, down := true }
    match a.1 with
    | .ok () => (.done, s)
    | .error f => (.failed s.queue f, s)

end QueueService

end ClusterBroker
