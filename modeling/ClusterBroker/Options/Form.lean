import ClusterBroker.Options
import ClusterBroker.Value.Reading

/-!
# The written form of options

Options are objects with hyphenated names; spans and choices are written as texts. The logging
options stand among the fields of the broker's options and not in an object of their own. A form
is `closed` if a list of field values may not be longer than the list of fields, and a choice
that is written as an object may not have further fields.
-/
namespace ClusterBroker

open Value

/-- Reads a span from its text. -/
def Span.reader : Reader Span := fun v =>
  match Reader.text v with
  | .error f => .error f
  | .ok s => match Span.parse s with
    | .ok d => .ok d
    | .error .carry => Reader.refuse .brokenOff
    | .error _ => Reader.refuse .message

def Span.toValue (d : Span) : Value := .string d.toText

/-- Reads a number of eight bits. -/
def readByte : Reader UInt8 := fun v => (Reader.natBelow 256 v).map UInt8.ofNat

namespace DeadlockOptions

def record : Record DeadlockOptions :=
  Record.of DeadlockOptions.mk
    |>.field "enabled" .bool
    |>.field "no-allocation-limit" Span.reader
    |>.field "backoff-percent" readByte
    |>.field "backoff-min-delay" Span.reader
    |>.field "backoff-max-delay" Span.reader

def toValue (o : DeadlockOptions) : Value := .object [
  ("enabled", .bool o.enabled),
  ("no-allocation-limit", o.noAllocationLimit.toValue),
  ("backoff-percent", .int o.backoffPercent.toNat),
  ("backoff-min-delay", o.backoffMinDelay.toValue),
  ("backoff-max-delay", o.backoffMaxDelay.toValue)]

end DeadlockOptions

namespace CacheOptions

def record (closed : Bool) : Record CacheOptions :=
  Record.of CacheOptions.mk
    |>.field "enabled" .bool
    |>.field "eviction-policy" (.variant closed EvictionKind.ofText?)
    |>.field "eviction-run-interval" Span.reader
    |>.field "eviction-idle-timeout" Span.reader

def toValue (o : CacheOptions) : Value := .object [
  ("enabled", .bool o.enabled),
  ("eviction-policy", .string o.evictionPolicy.text),
  ("eviction-run-interval", o.evictionRunInterval.toValue),
  ("eviction-idle-timeout", o.evictionIdleTimeout.toValue)]

end CacheOptions

namespace LoggingOptions

/-- The options in an object of their own. -/
def record (closed : Bool) : Record LoggingOptions :=
  Record.of LoggingOptions.mk
    |>.field "log-filter" .text
    |>.field "log-format" (.variant closed LogFormat.ofText?)
    |>.field "log-disable-ansi-codes" .bool

/-- The options among other fields. -/
def collectedRecord : Record LoggingOptions :=
  Record.of LoggingOptions.mk
    |>.field "log-filter" .collectedText
    |>.field "log-format" (.collectedVariant LogFormat.ofText?)
    |>.field "log-disable-ansi-codes" .bool

def fields (o : LoggingOptions) : List (String × Value) := [
  ("log-filter", .string o.filter),
  ("log-format", .string o.format.text),
  ("log-disable-ansi-codes", .bool o.disableAnsiCodes)]

def toValue (o : LoggingOptions) : Value := .object o.fields

end LoggingOptions

namespace BrokerOptions

/-- Everything but the logging options. -/
def record (closed : Bool) : Record (LoggingOptions → BrokerOptions) :=
  Record.of (fun queue antiDeadlock cache logging => ⟨⟨queue⟩, logging, antiDeadlock, cache⟩)
    |>.field "queue" .text
    |>.field "anti-deadlock" (DeadlockOptions.record.reader closed)
    |>.field "cache" ((CacheOptions.record closed).reader closed)

/-- Reads the options from an object. Faults of the logging options come last and have no path. -/
def reader (closed : Bool) : Reader BrokerOptions
  | .object fs => do
    let rest ← (record closed).ofFields fs
    let logging ← (LoggingOptions.collectedRecord.ofFields fs).mapError
      fun f => { f with path := [] }
    return rest logging
  | _ => Reader.refuse .invalidType

def toValue (o : BrokerOptions) : Value := .object (
  [("queue", .string o.queue.text)] ++ o.logging.fields ++
  [("anti-deadlock", o.antiDeadlock.toValue), ("cache", o.cache.toValue)])

end BrokerOptions

end ClusterBroker
