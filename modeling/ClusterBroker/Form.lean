import ClusterBroker.Connector
import ClusterBroker.Value.Reading

/-!
# The exchanged form of the model

Requests, reservations, changes and events as values: objects with one field for each part,
identifiers and choices as texts, a change as an object whose only field names its kind. Reading
ignores unknown fields; only an allocation and the time of allocation may be missing.
-/
namespace ClusterBroker

open Value

/-- Reads an object, or the complete list of its field values. -/
abbrev Value.Record.exact {α : Type} (r : Record α) : Reader α := r.reader true

def Id.reader {k : IdKind} : Reader (Id k) := .ofText fun s => (Id.parse k s).toOption

def Id.toValue {k : IdKind} (a : Id k) : Value := .string a.toText

def QueueName.reader : Reader QueueName := fun v => (Reader.text v).map QueueName.mk

def Location.reader : Reader Location := fun v => (Reader.text v).map Location.mk

def ManagerId.reader : Reader ManagerId := fun v => (Reader.text v).map ManagerId.mk

def Time.reader : Reader Time := fun v => (Reader.natBelow wordRange v).map Time.ofMillis

def Time.toValue (t : Time) : Value := .int t.millis

/-- Reads a number of 32 bits. -/
def readCpu : Reader UInt32 := fun v => (Reader.natBelow 0x100000000 v).map UInt32.ofNat

/-- Reads a number of 64 bits. -/
def readMemory : Reader UInt64 := fun v => (Reader.natBelow wordRange v).map UInt64.ofNat

/-- A list of identifiers. -/
def idsValue {k : IdKind} (l : List (Id k)) : Value := .array (l.map Id.toValue)

/-- A value that may be absent. -/
def optionValue {α : Type} (f : α → Value) : Option α → Value
  | none => .null
  | some a => f a

namespace Ask

def record : Record Ask :=
  Record.of Ask.mk
    |>.field "resource_id" Id.reader
    |>.field "location" Location.reader
    |>.field "locality" (.variant true Locality.ofText?)
    |>.field "cpu_vcores" readCpu
    |>.field "memory_mb" readMemory

def toValue (a : Ask) : Value := .object [
  ("resource_id", a.resource.toValue),
  ("location", .string a.location.text),
  ("locality", .string a.locality.text),
  ("cpu_vcores", .int a.cpu.toNat),
  ("memory_mb", .int a.memory.toNat)]

end Ask

namespace Request

def record : Record Request :=
  Record.of Request.mk
    |>.field "handle" Id.reader
    |>.field "queue" QueueName.reader
    |>.field "gang" .bool
    |>.field "resources" (.list Ask.record.exact)

def toValue (r : Request) : Value := .object [
  ("handle", r.handle.toValue),
  ("queue", .string r.queue.text),
  ("gang", .bool r.gang),
  ("resources", .array (r.asks.map Ask.toValue))]

end Request

namespace Allocation

def record : Record Allocation :=
  Record.of Allocation.mk
    |>.field "cpu_vcores" readCpu
    |>.field "memory_mb" readMemory
    |>.field "location" Location.reader
    |>.field "rm_resource_id" ManagerId.reader

def toValue (a : Allocation) : Value := .object [
  ("cpu_vcores", .int a.cpu.toNat),
  ("memory_mb", .int a.memory.toNat),
  ("location", .string a.location.text),
  ("rm_resource_id", .string a.managerId.text)]

end Allocation

namespace Resource

def record : Record Resource :=
  Record.of Resource.mk
    |>.field "ask" Ask.record.exact
    |>.field "reservation_id" Id.reader
    |>.field "handle" Id.reader
    |>.field "queue" QueueName.reader
    |>.field "status" (.variant true Status.ofText?)
    |>.optionalField "allocation" Allocation.record.exact

def toValue (r : Resource) : Value := .object [
  ("ask", r.ask.toValue),
  ("reservation_id", r.reservation.toValue),
  ("handle", r.handle.toValue),
  ("queue", .string r.queue.text),
  ("status", .string r.status.text),
  ("allocation", optionValue Allocation.toValue r.allocation)]

end Resource

namespace Reservation

def record : Record Reservation :=
  Record.of Reservation.mk
    |>.field "reservation_id" Id.reader
    |>.field "handle" Id.reader
    |>.field "queue" QueueName.reader
    |>.field "gang" .bool
    |>.field "status" (.variant true Status.ofText?)
    |>.field "placed_on" Time.reader
    |>.optionalField "allocated_on" Time.reader
    |>.field "resources" (.list Resource.record.exact)

def toValue (r : Reservation) : Value := .object [
  ("reservation_id", r.id.toValue),
  ("handle", r.handle.toValue),
  ("queue", .string r.queue.text),
  ("gang", .bool r.gang),
  ("status", .string r.status.text),
  ("placed_on", r.placedOn.toValue),
  ("allocated_on", optionValue Time.toValue r.allocatedOn),
  ("resources", .array (r.resources.map Resource.toValue))]

end Reservation

namespace Change

/-- The fields of an allocation's report. -/
def allocatedRecord : Record Change :=
  Record.of Change.allocated |>.field "resource_id" Id.reader
    |>.field "allocation" Allocation.record.exact

/-- The fields of any other report. -/
def otherRecord (make : ResourceId → Change) : Record Change :=
  Record.of make |>.field "resource_id" Id.reader

/-- The record of a kind of change. -/
def recordOf? (kind : String) : Option (Record Change) :=
  match kind with
  | "Allocated" => some allocatedRecord
  | "Rejected" => some (otherRecord .rejected)
  | "Preempted" => some (otherRecord .preempted)
  | "Lost" => some (otherRecord .lost)
  | _ => none

def reader : Reader Change
  | .object [(kind, .object fs)] =>
    match recordOf? kind with
    | some r => (r.ofFields fs).mapError (Fault.within kind)
    | none => Reader.refuse .unknownVariant
  | .object [_] => Reader.refuse .invalidType
  | .object _ => Reader.refuse .invalidValue
  | .string kind =>
    Reader.refuse (if (recordOf? kind).isSome then .invalidType else .unknownVariant)
  | _ => Reader.refuse .invalidType

def toValue (c : Change) : Value :=
  .object [(c.kind, .object (("resource_id", c.resource.toValue) :: match c with
  | .allocated _ a => [("allocation", a.toValue)]
  | _ => []))]

end Change

namespace Event

def record : Record Event :=
  Record.of Event.mk
    |>.field "handle" Id.reader
    |>.field "allocated_resources" (.list Resource.record.exact)
    |>.field "allocated_reservation_ids" (.list Id.reader)
    |>.field "rejected_reservation_ids" (.list Id.reader)
    |>.field "rejected_resource_ids" (.list Id.reader)
    |>.field "preempted_resource_ids" (.list Id.reader)
    |>.field "lost_resource_ids" (.list Id.reader)

def toValue (e : Event) : Value := .object [
  ("handle", e.handle.toValue),
  ("allocated_resources", .array (e.allocated.map Resource.toValue)),
  ("allocated_reservation_ids", idsValue e.allocatedReservations),
  ("rejected_reservation_ids", idsValue e.rejectedReservations),
  ("rejected_resource_ids", idsValue e.rejected),
  ("preempted_resource_ids", idsValue e.preempted),
  ("lost_resource_ids", idsValue e.lost)]

end Event

namespace Node

def record : Record Node :=
  Record.of Node.mk
    |>.field "location" Location.reader
    |>.field "cpu_vcores" readCpu
    |>.field "memory_mb" readMemory

def toValue (n : Node) : Value := .object [
  ("location", .string n.location.text),
  ("cpu_vcores", .int n.cpu.toNat),
  ("memory_mb", .int n.memory.toNat)]

end Node

end ClusterBroker
