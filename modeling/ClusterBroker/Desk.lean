import ClusterBroker.Registry

/-!
# The desk

A registry together with the connector it works through: it submits resources and reconciles
what the connector reports. Every operation happens at one reading of the clock and returns its
answer, the desk afterwards and, if changes were reported meanwhile, the dispatches: the events
of each batch, with the desk as it stood when they were sent out.
-/
namespace ClusterBroker

/-- A registry and the connector it works through. -/
structure Desk (σ : Type) where
  registry : Registry
  connector : σ

/-- The events of one batch, and the desk as it stood when they were sent out. -/
structure Dispatch (σ : Type) where
  events : List Event
  desk : Desk σ

/-- An answer, the desk after it, and what was sent out meanwhile. -/
structure Outcome (σ α : Type) where
  answer : α
  desk : Desk σ
  sent : List (Dispatch σ)

namespace Desk

variable {σ : Type}

def setLedger (d : Desk σ) (l : Ledger) : Desk σ := { d with registry := d.registry.setLedger l }

/-- Registers with the connector. -/
def start (C : Connector σ) (d : Desk σ) : Except BrokerFault Unit × Desk σ :=
  let a := C.register d.registry.queue d.connector
  (a.1.mapError .connector, { d with connector := a.2 })

/-! ### Reports of the connector -/

/-- Takes in a batch of changes: the ledger follows, what torn-down reservations held goes back,
and the owners are told. Whether the release works is not reported. -/
def onChanges (C : Connector σ) (clock : Time) (cs : List Change) (d : Desk σ) :
    Desk σ × List (Dispatch σ) :=
  if cs.isEmpty then (d, [])
  else
    let b := d.registry.ledger.reconcile clock cs
    let d := { d with registry := d.registry.absorb b }
    let d := if b.toRelease.isEmpty then d
      else { d with connector := (C.release clock b.toRelease false d.connector).2 }
    (d, [⟨b.events, d⟩])

/-- Takes in a delivery. -/
def receive (C : Connector σ) (clock : Time) (x : Delivery σ) (d : Desk σ) :
    Desk σ × List (Dispatch σ) :=
  onChanges C clock x.changes { d with connector := x.passing d.connector }

/-- Takes in deliveries, in order. -/
def receiveAll (C : Connector σ) (clock : Time) : List (Delivery σ) → Desk σ →
    Desk σ × List (Dispatch σ)
  | [], d => (d, [])
  | x :: xs, d =>
    let one := d.receive C clock x
    let rest := receiveAll C clock xs one.1
    (rest.1, one.2 ++ rest.2)

/-- The manager reports a batch. -/
def deliver (C : Connector σ) (clock : Time) (cs : List Change) (d : Desk σ) :
    Desk σ × List (Dispatch σ) :=
  d.receive C clock ⟨cs, C.incoming cs⟩

/-- The manager stops: everything it handed out is lost, and nothing can be given back. The
index is gone through in the order given. -/
def onHaltedIn (order : Ledger → List ResourceId) (C : Connector σ) (clock : Time) (d : Desk σ) :
    Desk σ × List (Dispatch σ) :=
  let b := d.registry.ledger.reconcile clock ((order d.registry.ledger).map .lost)
  let d := { d with registry := d.registry.absorb b, connector := C.halted d.connector }
  (d, [⟨b.events, d⟩])

/-- The manager stops; the index is gone through in its own order. -/
def onHalted (C : Connector σ) (clock : Time) (d : Desk σ) : Desk σ × List (Dispatch σ) :=
  d.onHaltedIn (fun l => l.index.keys) C clock

/-! ### Placing -/

/-- Tracks a reservation and submits its resources. It is tracked first, since allocations may
be reported while it is submitted; if the submission fails it is dropped again. -/
def place (C : Connector σ) (clock : Time) (r : Reservation) (d : Desk σ) :
    Outcome σ (Except BrokerFault Reservation) :=
  if d.registry.stopped then ⟨.error .shutDown, d, []⟩
  else match d.registry.ledger.insert r with
    | .error f => ⟨.error (.invalid f), d, []⟩
    | .ok l =>
      let d := d.setLedger l
      let a := C.reserve clock r.resources d.connector
      let got := receiveAll C clock a.2.1 { d with connector := a.2.2 }
      match a.1 with
      | .error f =>
        ⟨.error (.connector f), got.1.setLedger (got.1.registry.ledger.remove r.id).2, got.2⟩
      | .ok () =>
        let reg := got.1.registry
        let reg := { reg with tally := { reg.tally with placed := reg.tally.placed + 1 } }
        ⟨.ok ((reg.get? r.id).getD r), { got.1 with registry := reg }, got.2⟩

/-- Places a client's request under an id. -/
def reserve (C : Connector σ) (clock : Time) (id : ReservationId) (r : Request) (d : Desk σ) :
    Outcome σ (Except BrokerFault Reservation) :=
  match r.fault? with
  | some f => ⟨.error (.invalid f), d, []⟩
  | none => d.place C clock (.ofRequest id r clock)

/-! ### Releasing -/

/-- Gives back the resources of reservations that are no longer tracked. -/
def giveBack (C : Connector σ) (clock : Time) (removed : List Reservation) (noCache : Bool)
    (d : Desk σ) : Except BrokerFault Unit × Desk σ :=
  let resources := removed.flatMap Reservation.resources
  if resources.isEmpty then (.ok (), d)
  else
    let reg := d.registry
    let reg := { reg with
      tally := { reg.tally with released := reg.tally.released + removed.length } }
    let a := C.release clock resources noCache d.connector
    (a.1.mapError .connector, ⟨reg, a.2⟩)

/-- Releases one reservation of a handle. -/
def release (C : Connector σ) (clock : Time) (h : HandleId) (id : ReservationId) (noCache : Bool)
    (d : Desk σ) : Except BrokerFault (Option Reservation) × Desk σ :=
  match d.registry.get? id with
  | none => (.ok none, d)
  | some r =>
    if r.handle = h then
      let d := d.setLedger (d.registry.ledger.drop r)
      let a := d.giveBack C clock [r.ended] noCache
      (a.1.map fun _ => some r.ended, a.2)
    else (.ok none, d)

/-- Releases every reservation that satisfies `p`. -/
def releaseWhere (C : Connector σ) (clock : Time) (p : Reservation → Bool) (noCache : Bool)
    (d : Desk σ) : Except BrokerFault (List Reservation) × Desk σ :=
  let out := d.registry.ledger.removeWhere p
  let a := (d.setLedger out.2).giveBack C clock out.1 noCache
  (a.1.map fun _ => out.1, a.2)

/-- Releases every reservation of a handle. -/
def releaseHandle (C : Connector σ) (clock : Time) (h : HandleId) (noCache : Bool) (d : Desk σ) :
    Except BrokerFault (List Reservation) × Desk σ :=
  d.releaseWhere C clock (fun r => r.handle = h) noCache

/-- Releases every reservation of a queue. -/
def releaseQueue (C : Connector σ) (clock : Time) (q : QueueName) (noCache : Bool) (d : Desk σ) :
    Except BrokerFault (List Reservation) × Desk σ :=
  d.releaseWhere C clock (fun r => r.queue = q) noCache

/-- Releases everything for good and unregisters; a second time nothing is done. -/
def stop (C : Connector σ) (clock : Time) (d : Desk σ) : Except BrokerFault Unit × Desk σ :=
  if d.registry.stopped then (.ok (), d)
  else
    let d := { d with registry := { d.registry with stopped := true } }
    let d := (d.releaseWhere C clock (fun _ => true) true).2
    let a := C.unregister clock d.connector
    (a.1.mapError .connector, { d with connector := a.2 })

/-- The nodes that the manager knows. -/
def nodes (C : Connector σ) (d : Desk σ) : Except BrokerFault (List Node) × Desk σ :=
  let a := C.nodes d.connector
  (a.1.mapError .connector, { d with connector := a.2 })

end Desk

end ClusterBroker
