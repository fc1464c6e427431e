import ClusterBroker.Event

/-!
# The ledger

The reservations that a registry tracks, and the index that leads from a resource to its
reservation. The resource manager's changes are applied here; what follows from them (events,
resources to give back) is returned beside the new ledger.

A change about a resource that is not indexed, a repeated allocation, and a change that the
state of the reservation does not allow are ignored.
-/
namespace ClusterBroker

structure Ledger where
  reservations : Table ReservationId Reservation := ∅
  index : Table ResourceId ReservationId := ∅
  deriving DecidableEq

/-- What a change led to. -/
structure Effect where
  /-- What the owner has to learn, if anything. -/
  event : Option Event := none
  /-- The other resources of a reservation that was torn down. -/
  toRelease : List Resource := []
  tornDown : Bool := false
  deriving DecidableEq

/-- How a reservation answers to bad news about one of its resources. -/
inductive Verdict where
  /-- The owner is told; the reservation stays as it is. -/
  | report
  /-- The reservation goes; the owner is told of the resource too, or not. -/
  | tearDown (reportResource : Bool)
  | illegal
  deriving DecidableEq, Repr

/-- The answer to a resource becoming `kind` in a reservation of status `status`. -/
def Verdict.of (kind : Resource.Status) (status : Reservation.Status) (gang : Bool) : Verdict :=
  match kind, status with
  | .rejected, .pending | .rejected, .partly => if gang then .tearDown true else .report
  | .preempted, .allocated | .lost, .allocated => .report
  | .preempted, .partly | .lost, .partly => if gang then .tearDown false else .report
  | .preempted, .pending | .lost, .pending => .tearDown false
  | _, _ => .illegal

/-- The report of a resource becoming `kind`. -/
def Event.ofStatus (handle : HandleId) (id : ResourceId) (kind : Resource.Status) : Event :=
  match kind with
  | .rejected => { handle := handle, rejected := [id] }
  | .preempted => { handle := handle, preempted := [id] }
  | _ => { handle := handle, lost := [id] }

namespace Ledger

def size (l : Ledger) : Nat := l.reservations.size

def get? (l : Ledger) (id : ReservationId) : Option Reservation := l.reservations.get? id

/-- Why a reservation cannot be added. -/
def conflict? (l : Ledger) (r : Reservation) : Option RequestFault :=
  if l.reservations.contains r.id then some (.knownReservation r.id)
  else (r.resourceIds.find? l.index.contains).map .placedResource

/-- The ledger with a reservation and index entries for its resources. -/
def add (l : Ledger) (r : Reservation) : Ledger where
  reservations := l.reservations.insert r.id r
  index := r.resourceIds.foldl (fun ix id => ix.insert id r.id) l.index

/-- The ledger with a reservation, unless something is in the way. -/
def insert (l : Ledger) (r : Reservation) : Except RequestFault Ledger :=
  match l.conflict? r with
  | some f => .error f
  | none => .ok (l.add r)

/-- The ledger without a reservation and the index entries of its resources. -/
def drop (l : Ledger) (r : Reservation) : Ledger where
  reservations := l.reservations.erase r.id
  index := r.resourceIds.foldl (fun ix id => ix.erase id) l.index

/-- Takes a reservation out; it has ended. -/
def remove (l : Ledger) (id : ReservationId) : Option Reservation × Ledger :=
  match l.get? id with
  | none => (none, l)
  | some r => (some r.ended, l.drop r)

/-- Takes these reservations out, as far as they are there. -/
def removeAll : List ReservationId → Ledger → List Reservation × Ledger
  | [], l => ([], l)
  | id :: ids, l =>
    let r := l.remove id
    let rest := removeAll ids r.2
    (r.1.toList ++ rest.1, rest.2)

/-- Takes every reservation out that satisfies `p`, in order of their ids. -/
def removeWhere (p : Reservation → Bool) (l : Ledger) : List Reservation × Ledger :=
  removeAll ((l.reservations.values.filter p).map Reservation.id) l

/-- Stores a new version of a tracked reservation. -/
def update (l : Ledger) (r : Reservation) : Ledger :=
  { l with reservations := l.reservations.insert r.id r }

/-! ### Applying changes -/

/-- An allocation for a resource of a tracked reservation. The last missing allocation completes
the reservation; a gang reports nothing before that. -/
def applyAllocated (now : Time) (id : ResourceId) (a : Allocation) (r : Reservation)
    (l : Ledger) : Ledger × Option Effect :=
  match r.resource? id with
  | none => (l, none)
  | some x =>
    if x.isAllocated then (l, none)
    else
      let x := x.allocate a
      let r := r.modifyResource id (Resource.allocate · a)
      if r.allAllocated then
        let r := { r with status := .allocated, allocatedOn := some now }
        (l.update r, some { event := some {
          handle := r.handle
          allocated := if r.gang then r.resources else [x]
          allocatedReservations := [r.id] } })
      else
        (l.update { r with status := .partly }, some {
          event := if r.gang then none else some { handle := r.handle, allocated := [x] } })

/-- A reservation is torn down because one of its resources became `kind`. -/
def applyTearDown (id : ResourceId) (kind : Resource.Status) (reportResource : Bool)
    (r : Reservation) (l : Ledger) : Ledger × Option Effect :=
  let told := Event.rejection r.handle r.id
  let gone := r.ended.modifyResource id fun x => { x with status := kind }
  (l.drop r, some {
    event := some (if reportResource then { told with rejected := [id] } else told)
    toRelease := gone.resources.filter fun x => x.id ≠ id
    tornDown := true })

/-- Bad news about a resource of a tracked reservation. -/
def applyNegative (id : ResourceId) (kind : Resource.Status) (r : Reservation) (l : Ledger) :
    Ledger × Option Effect :=
  match Verdict.of kind r.status r.gang with
  | .illegal => (l, none)
  | .report => (l, some { event := some (Event.ofStatus r.handle id kind) })
  | .tearDown reportResource => l.applyTearDown id kind reportResource r

/-- Applies one change; without an effect it was ignored. -/
def apply (now : Time) (c : Change) (l : Ledger) : Ledger × Option Effect :=
  match l.index.get? c.resource with
  | none => (l, none)
  | some rid =>
    match l.get? rid with
    | none => ({ l with index := l.index.erase c.resource }, none)
    | some r =>
      match c with
      | .allocated id a => l.applyAllocated now id a r
      | .rejected id => l.applyNegative id .rejected r
      | .preempted id => l.applyNegative id .preempted r
      | .lost id => l.applyNegative id .lost r

/-- The outcome of a batch. -/
structure Batch where
  ledger : Ledger
  /-- One event per handle, in order of first appearance. -/
  events : List Event := []
  toRelease : List Resource := []
  applied : Nat := 0
  ignored : Nat := 0
  tornDown : Nat := 0
  deriving DecidableEq

/-- Adds an effect to the outcome of a batch. -/
def Batch.note (b : Batch) : Option Effect → Batch
  | none => { b with ignored := b.ignored + 1 }
  | some e =>
    { b with
      events := match e.event with
        | none => b.events
        | some ev => ev.addTo b.events
      toRelease := b.toRelease ++ e.toRelease
      applied := b.applied + 1
      tornDown := b.tornDown + if e.tornDown then 1 else 0 }

/-- Applies the next change of a batch. -/
def Batch.step (now : Time) (b : Batch) (c : Change) : Batch :=
  { b with ledger := (b.ledger.apply now c).1 }.note (b.ledger.apply now c).2

/-- Applies a batch of changes in order. -/
def reconcile (now : Time) (cs : List Change) (l : Ledger) : Batch :=
  let b := cs.foldl (Batch.step now) { ledger := l }
  { b with events := b.events.filter fun e => !e.isEmpty }

end Ledger

end ClusterBroker
