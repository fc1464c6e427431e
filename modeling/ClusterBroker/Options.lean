import ClusterBroker.Ask
import ClusterBroker.Span.Text

/-!
# Options

What can be set about a broker, the defaults, and which settings make sense.
-/
namespace ClusterBroker

/-- An option whose value makes no sense. -/
structure InvalidOption where
  option : String
  reason : String
  deriving DecidableEq, Repr

def InvalidOption.message (e : InvalidOption) : String :=
  "invalid option '" ++ e.option ++ "': " ++ e.reason

/-- When gangs are taken to be stuck, and how many of them step back for how long. -/
structure DeadlockOptions where
  enabled : Bool := true
  noAllocationLimit : Span := .ofSecs 30
  backoffPercent : UInt8 := 30
  backoffMinDelay : Span := .ofSecs 10
  backoffMaxDelay : Span := .ofSecs 30
  deriving DecidableEq, Repr

/-- The first fault among these options. -/
def DeadlockOptions.fault? (o : DeadlockOptions) : Option InvalidOption :=
  if 100 < o.backoffPercent then
    some ⟨"anti-deadlock.backoff-percent",
      "must be within 0..=100, got " ++ toString o.backoffPercent.toNat⟩
  else if o.backoffMaxDelay < o.backoffMinDelay then
    some ⟨"anti-deadlock.backoff-min-delay",
      "must not exceed backoff-max-delay (" ++ o.backoffMinDelay.toText ++ " > " ++
        o.backoffMaxDelay.toText ++ ")"⟩
  else if o.noAllocationLimit = .zero then
    some ⟨"anti-deadlock.no-allocation-limit", "must be greater than zero"⟩
  else none

/-- Which entries a sweep of the cache takes out. -/
inductive EvictionKind where
  | idleTimeout | never
  deriving DecidableEq, Repr

def EvictionKind.text : EvictionKind → String
  | .idleTimeout => "idle-timeout"
  | .never => "never"

def EvictionKind.ofText? (s : String) : Option EvictionKind :=
  [.idleTimeout, .never].find? fun k => k.text = s

structure CacheOptions where
  enabled : Bool := true
  evictionPolicy : EvictionKind := .idleTimeout
  evictionRunInterval : Span := .ofSecs 5
  evictionIdleTimeout : Span := .ofSecs 30
  deriving DecidableEq, Repr

def CacheOptions.fault? (o : CacheOptions) : Option InvalidOption :=
  if o.evictionRunInterval = .zero then
    some ⟨"cache.eviction-run-interval", "must be greater than zero"⟩
  else none

inductive LogFormat where
  | pretty | compact | json
  deriving DecidableEq, Repr

def LogFormat.text : LogFormat → String
  | .pretty => "pretty"
  | .compact => "compact"
  | .json => "json"

def LogFormat.ofText? (s : String) : Option LogFormat :=
  [.pretty, .compact, .json].find? fun f => f.text = s

structure LoggingOptions where
  filter : String := "warn,corral=info"
  format : LogFormat := .pretty
  disableAnsiCodes : Bool := false
  deriving DecidableEq, Repr

/-- The options of a broker for one queue. -/
structure BrokerOptions where
  queue : QueueName := ⟨"default"⟩
  logging : LoggingOptions := {}
  antiDeadlock : DeadlockOptions := {}
  cache : CacheOptions := {}
  deriving DecidableEq, Repr

/-- The first fault: of the queue, then of deadlock avoidance, then of the cache. Options of
parts that are switched off are checked too. -/
def BrokerOptions.fault? (o : BrokerOptions) : Option InvalidOption :=
  if o.queue.text.isEmpty then some ⟨"queue", "must not be empty"⟩
  else o.antiDeadlock.fault? <|> o.cache.fault?

end ClusterBroker
