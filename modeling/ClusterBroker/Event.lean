import ClusterBroker.Reservation

/-!
# Changes and events

A change is what the resource manager reports about one resource. An event is what one handle
has to learn from a batch of changes.
-/
namespace ClusterBroker

/-- A report of the resource manager about one resource. -/
inductive Change where
  | allocated (resource : ResourceId) (allocation : Allocation)
  | rejected (resource : ResourceId)
  | preempted (resource : ResourceId)
  | lost (resource : ResourceId)
  deriving DecidableEq, Repr

namespace Change

def resource : Change → ResourceId
  | .allocated r _ | .rejected r | .preempted r | .lost r => r

/-- The status that a change speaks of. -/
def status : Change → Resource.Status
  | .allocated .. => .allocated
  | .rejected _ => .rejected
  | .preempted _ => .preempted
  | .lost _ => .lost

/-- The name of a change's kind. -/
def kind : Change → String
  | .allocated .. => "Allocated"
  | .rejected _ => "Rejected"
  | .preempted _ => "Preempted"
  | .lost _ => "Lost"

end Change

/-- What a handle has to learn. -/
structure Event where
  handle : HandleId
  allocated : List Resource := []
  allocatedReservations : List ReservationId := []
  rejectedReservations : List ReservationId := []
  rejected : List ResourceId := []
  preempted : List ResourceId := []
  lost : List ResourceId := []
  deriving DecidableEq, Repr

namespace Event

/-- Nothing to learn. -/
def isEmpty (e : Event) : Bool :=
  e.allocated.isEmpty && e.allocatedReservations.isEmpty && e.rejectedReservations.isEmpty &&
    e.rejected.isEmpty && e.preempted.isEmpty && e.lost.isEmpty

/-- The rejection of one reservation. -/
def rejection (handle : HandleId) (id : ReservationId) : Event :=
  { handle := handle, rejectedReservations := [id] }

/-- What `e` says followed by what `f` says, to the handle of `e`. -/
def append (e f : Event) : Event where
  handle := e.handle
  allocated := e.allocated ++ f.allocated
  allocatedReservations := e.allocatedReservations ++ f.allocatedReservations
  rejectedReservations := e.rejectedReservations ++ f.rejectedReservations
  rejected := e.rejected ++ f.rejected
  preempted := e.preempted ++ f.preempted
  lost := e.lost ++ f.lost

/-- Adds to a list of events, one per handle, in order of first appearance. -/
def addTo (f : Event) : List Event → List Event
  | [] => [f]
  | e :: rest => if e.handle = f.handle then e.append f :: rest else e :: addTo f rest

end Event

end ClusterBroker
