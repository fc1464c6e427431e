import ClusterBroker.Ask
import ClusterBroker.Time

/-!
# Reservations

A request that the broker has taken is tracked as a reservation of one resource per ask. Both
carry a status, which follows what the resource manager reports.
-/
namespace ClusterBroker

/-- What the resource manager handed out for a resource. -/
structure Allocation where
  cpu : UInt32
  memory : UInt64
  location : Location
  managerId : ManagerId
  deriving DecidableEq, Repr

namespace Resource

inductive Status where
  | pending | allocated | rejected | preempted | lost
  deriving DecidableEq, Repr, Inhabited

def Status.text : Status → String
  | .pending => "PENDING"
  | .allocated => "ALLOCATED"
  | .rejected => "REJECTED"
  | .preempted => "PREEMPTED"
  | .lost => "LOST"

def Status.all : List Status := [.pending, .allocated, .rejected, .preempted, .lost]

def Status.ofText? (s : String) : Option Status := Status.all.find? fun x => x.text = s

theorem Status.ofText?_text (x : Status) : Status.ofText? x.text = some x := by
  cases x <;> decide

end Resource

/-- One resource of a reservation. -/
structure Resource where
  ask : Ask
  reservation : ReservationId
  handle : HandleId
  queue : QueueName
  status : Resource.Status := .pending
  allocation : Option Allocation := none
  deriving DecidableEq, Repr

namespace Resource

def id (r : Resource) : ResourceId := r.ask.resource

def isAllocated (r : Resource) : Bool := r.status = .allocated

/-- The resource with an allocation. -/
def allocate (r : Resource) (a : Allocation) : Resource :=
  { r with status := .allocated, allocation := some a }

/-- The resource as it was when just placed. -/
def reset (r : Resource) : Resource := { r with status := .pending, allocation := none }

end Resource

namespace Reservation

inductive Status where
  | pending | partly | allocated
  /-- Given back for a while so that others can complete. -/
  | backedOff
  /-- No longer with the broker. -/
  | ended
  deriving DecidableEq, Repr, Inhabited

def Status.text : Status → String
  | .pending => "PENDING"
  | .partly => "PARTIAL"
  | .allocated => "ALLOCATED"
  | .backedOff => "BACKED_OFF"
  | .ended => "ENDED"

def Status.all : List Status := [.pending, .partly, .allocated, .backedOff, .ended]

def Status.ofText? (s : String) : Option Status := Status.all.find? fun x => x.text = s

theorem Status.ofText?_text (x : Status) : Status.ofText? x.text = some x := by
  cases x <;> decide

end Reservation

/-- A request that the broker has taken. -/
structure Reservation where
  id : ReservationId
  handle : HandleId
  queue : QueueName
  gang : Bool
  status : Reservation.Status := .pending
  /-- When it was first placed; a second placement keeps it. -/
  placedOn : Time
  allocatedOn : Option Time := none
  resources : List Resource
  deriving DecidableEq, Repr

/-- The list with the first element that satisfies `p` replaced by its image. -/
def modifyFirst {α : Type} (p : α → Bool) (f : α → α) : List α → List α
  | [] => []
  | a :: r => if p a then f a :: r else a :: modifyFirst p f r

namespace Reservation

/-- A request, just placed: every resource is pending. -/
def ofRequest (id : ReservationId) (r : Request) (placedOn : Time) : Reservation where
  id := id
  handle := r.handle
  queue := r.queue
  gang := r.gang
  placedOn := placedOn
  resources := r.asks.map fun a =>
    { ask := a, reservation := id, handle := r.handle, queue := r.queue }

/-- The first resource with this id. -/
def resource? (r : Reservation) (id : ResourceId) : Option Resource :=
  r.resources.find? fun x => x.id = id

/-- The reservation with the first resource of this id changed. -/
def modifyResource (r : Reservation) (id : ResourceId) (f : Resource → Resource) : Reservation :=
  { r with resources := modifyFirst (fun x => x.id = id) f r.resources }

def resourceIds (r : Reservation) : List ResourceId := r.resources.map Resource.id

def allAllocated (r : Reservation) : Bool := r.resources.all Resource.isAllocated

/-- The reservation as it was when just placed. -/
def reset (r : Reservation) : Reservation :=
  { r with status := .pending, allocatedOn := none, resources := r.resources.map Resource.reset }

/-- The reservation once it has left the broker. -/
def ended (r : Reservation) : Reservation := { r with status := .ended }

end Reservation

end ClusterBroker
