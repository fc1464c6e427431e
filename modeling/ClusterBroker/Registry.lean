import ClusterBroker.Ledger
import ClusterBroker.Connector

/-!
# The registry

What serves one queue: the ledger of every reservation in flight, whether it still takes new
ones, and what it counts. Also the faults with which a broker answers.
-/
namespace ClusterBroker

/-- Why the broker does not do what a client asks. -/
inductive BrokerFault where
  | invalid (fault : RequestFault)
  | connector (fault : ConnectorFault)
  | shutDown
  deriving DecidableEq, Repr

def BrokerFault.message : BrokerFault → String
  | .invalid f => "invalid reservation: " ++ f.message
  | .connector f => f.message
  | .shutDown => "reservation broker has been shut down"

/-- What a registry counts; `active` is set whenever the tracked reservations change. -/
structure Registry.Tally where
  placed : Nat := 0
  released : Nat := 0
  tornDown : Nat := 0
  active : Nat := 0
  applied : Nat := 0
  ignored : Nat := 0
  deriving DecidableEq, Repr

structure Registry where
  queue : QueueName
  ledger : Ledger := {}
  stopped : Bool := false
  tally : Registry.Tally := {}
  deriving DecidableEq

namespace Registry

/-- The registry with another ledger, its size noted. -/
def setLedger (r : Registry) (l : Ledger) : Registry :=
  { r with ledger := l, tally := { r.tally with active := l.size } }

def get? (r : Registry) (id : ReservationId) : Option Reservation := r.ledger.get? id

def size (r : Registry) : Nat := r.ledger.size

/-- The reservations of a handle, in order of their ids. -/
def ofHandle (r : Registry) (h : HandleId) : List Reservation :=
  r.ledger.reservations.values.filter fun x => x.handle = h

/-- The registry after a batch. -/
def absorb (r : Registry) (b : Ledger.Batch) : Registry :=
  let r := r.setLedger b.ledger
  { r with tally := { r.tally with
      applied := r.tally.applied + b.applied
      ignored := r.tally.ignored + b.ignored
      tornDown := r.tally.tornDown + b.tornDown } }

end Registry

end ClusterBroker
