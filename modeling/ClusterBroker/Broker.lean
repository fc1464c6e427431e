import ClusterBroker.Desk
import ClusterBroker.GangControl
import ClusterBroker.Listeners

/-!
# The broker

A desk with its listeners and, optionally, a supervisor: a controller of stuck gangs that stands
between the clients and the registry. It listens to the registry, takes in what it hears, and
hands every event on to listeners of its own. Without a supervisor clients listen to the
registry.

Operations happen at one reading of the clock. What clients hear meanwhile is noted in `told`,
each event with the state of the broker at that moment.
-/
namespace ClusterBroker

namespace Broker

/-- Someone who listens to a broker. -/
structure Client where
  number : Nat
  /-- It takes note of an event and fails. -/
  fails : Bool := false
  /-- It leaves with the first event. -/
  once : Bool := false
  deriving DecidableEq, Repr

/-- Who listens to the registry. -/
inductive Subscriber where
  /-- The supervisor. It does not keep the supervisor alive. -/
  | supervisor
  | client (c : Client)
  deriving DecidableEq, Repr

def Subscriber.fails : Subscriber → Bool
  | .supervisor => false
  | .client c => c.fails

def Subscriber.once : Subscriber → Bool
  | .supervisor => false
  | .client c => c.once

/-- The controller of stuck gangs, and its own listeners. -/
structure Supervisor where
  control : GangControl
  clients : Listeners Client := {}
  deriving DecidableEq

/-- An event that a client heard, and the broker as it was then. -/
structure Notice (σ : Type) where
  client : Client
  event : Event
  desk : Desk σ
  control : Option GangControl

end Broker

open Broker

structure Broker (σ : Type) where
  desk : Desk σ
  /-- The listeners of the registry. -/
  listeners : Listeners Subscriber := {}
  supervisor : Option Supervisor := none
  /-- The supervisor that was dismissed. -/
  former : Option Supervisor := none
  told : List (Notice σ) := []

namespace Broker

variable {σ : Type}

/-- A broker over a desk, without a supervisor. -/
def ofDesk (d : Desk σ) : Broker σ := { desk := d }

/-- Puts a supervisor in charge. -/
def supervise (o : DeadlockOptions) (clock : Time) (b : Broker σ) : Broker σ :=
  { b with
    listeners := (b.listeners.add .supervisor).2
    supervisor := some { control := { options := o, lastAllocation := clock } } }

/-- Sends the supervisor away, and its clients with it; from now on clients listen to the
registry. -/
def dismiss (b : Broker σ) : Broker σ :=
  { b with supervisor := none, former := b.supervisor <|> b.former }

def registry (b : Broker σ) : Registry := b.desk.registry

def control? (b : Broker σ) : Option GangControl := b.supervisor.map Supervisor.control

/-- Changes the controller, if there is one. -/
def modifyControl (f : GangControl → GangControl) (b : Broker σ) : Broker σ :=
  { b with supervisor := b.supervisor.map fun s => { s with control := f s.control } }

/-- Changes the state of the connector. -/
def modifyConnector (f : σ → σ) (b : Broker σ) : Broker σ :=
  { b with desk := { b.desk with connector := f b.desk.connector } }

/-! ### Listening -/

/-- A list of listeners after a dispatch. Those who stay for one event only are gone once they
are called. -/
def sendOut {α : Type} (fails once : α → Bool) (events : List Event) (l : Listeners α) :
    Listeners α :=
  let l := l.afterDispatch (fun a _ => fails a) events
  if events.all Event.isEmpty then l else l.dismissWhere once

def addClient (c : Client) (b : Broker σ) : ListenerId × Broker σ :=
  match b.supervisor with
  | some s =>
    let a := s.clients.add c
    (a.1, { b with supervisor := some { s with clients := a.2 } })
  | none =>
    let a := b.listeners.add (.client c)
    (a.1, { b with listeners := a.2 })

/-- Removes the listener with an id; tells whether there was one. -/
def removeClient (id : ListenerId) (b : Broker σ) : Bool × Broker σ :=
  match b.supervisor with
  | some s =>
    let a := s.clients.remove id
    (a.1, { b with supervisor := some { s with clients := a.2 } })
  | none =>
    let a := b.listeners.remove id
    (a.1, { b with listeners := a.2 })

/-- A client takes note of an event. -/
def tell (e : Event) (c : Client) (b : Broker σ) : Broker σ :=
  { b with told := b.told ++ [⟨c, e, b.desk, b.control?⟩] }

/-- The supervisor hands an event on to its clients. -/
def forward (e : Event) (b : Broker σ) : Broker σ :=
  match b.supervisor with
  | none => b
  | some s =>
    let b := (s.clients.calls [e]).foldl (fun b c => b.tell c.event c.listener) b
    let clients := sendOut Client.fails Client.once [e] s.clients
    { b with supervisor := some { s with clients } }

/-- A listener of the registry is called. -/
def answerCall (clock : Time) (b : Broker σ) (c : Listeners.Call Subscriber) : Broker σ :=
  match c.listener with
  | .client x => b.tell c.event x
  | .supervisor => (b.modifyControl (GangControl.learn clock c.event)).forward c.event

/-- The registry sends events out. -/
def hear (clock : Time) (b : Broker σ) (d : Dispatch σ) : Broker σ :=
  let calls := b.listeners.calls d.events
  let b := { b with
    desk := d.desk
    listeners := sendOut Subscriber.fails Subscriber.once d.events b.listeners }
  calls.foldl (answerCall clock) b

/-- Everything sent out during an operation on the desk is heard, and the desk moves on. -/
def follow (clock : Time) (sent : List (Dispatch σ)) (d : Desk σ) (b : Broker σ) : Broker σ :=
  { (sent.foldl (hear clock) b) with desk := d }

/-! ### Calls of clients -/

/-- The reservation of an id: one that waits, or one that the registry tracks. -/
def get? (id : ReservationId) (b : Broker σ) : Option Reservation :=
  (b.control?.bind (GangControl.backedOff? id)) <|> b.registry.get? id

/-- Places a reservation at the registry, past the supervisor. -/
def place (C : Connector σ) (clock : Time) (r : Reservation) (b : Broker σ) :
    Except BrokerFault Reservation × Broker σ :=
  let o := b.desk.place C clock r
  (o.answer, b.follow clock o.sent o.desk)

/-- Places a request at the registry, past the supervisor. -/
def reserveDirectly (C : Connector σ) (clock : Time) (id : ReservationId) (r : Request)
    (b : Broker σ) : Except BrokerFault Reservation × Broker σ :=
  let o := b.desk.reserve C clock id r
  (o.answer, b.follow clock o.sent o.desk)

/-- Submits a gang on behalf of its client: known to the controller before it is placed, and
forgotten if that fails. -/
def submitGang (C : Connector σ) (clock : Time) (r : Reservation) (b : Broker σ) :
    Except BrokerFault Reservation × Broker σ :=
  let a := (b.modifyControl (GangControl.submit r)).place C clock r
  match a.1 with
  | .ok placed => (.ok placed, a.2)
  | .error f => (.error f, a.2.modifyControl fun c => (c.forget r.id).2)

/-- Takes a gang under supervision. While others wait for their second chance, it waits too. -/
def reserveGang (C : Connector σ) (clock : Time) (id : ReservationId) (r : Request)
    (control : GangControl) (b : Broker σ) : Except BrokerFault Reservation × Broker σ :=
  match r.fault? with
  | some f => (.error (.invalid f), b)
  | none =>
    let placed := Reservation.ofRequest id r clock
    if control.known.contains id then (.error (.invalid (.knownReservation id)), b)
    else if control.backoff.isEmpty then b.submitGang C clock placed
    else (.ok { placed with status := .backedOff }, b.modifyControl (GangControl.wait clock placed))

/-- Places a client's request under an id. -/
def reserve (C : Connector σ) (clock : Time) (id : ReservationId) (r : Request) (b : Broker σ) :
    Except BrokerFault Reservation × Broker σ :=
  match b.control? with
  | some control =>
    if r.gang then b.reserveGang C clock id r control else b.reserveDirectly C clock id r
  | none => b.reserveDirectly C clock id r

/-- What a client gave back: what the registry tracked, and what waited. -/
def merge (released forgotten : List Reservation) : List Reservation :=
  released ++ (forgotten.filter fun r => !(released.map Reservation.id).contains r.id).map
    Reservation.ended

/-- The controller strikes out what satisfies `p`. -/
def forgetWhere (p : Reservation → Bool) (b : Broker σ) : List Reservation × Broker σ :=
  match b.supervisor with
  | none => ([], b)
  | some s =>
    let f := s.control.forgetWhere p
    (f.1, { b with supervisor := some { s with control := f.2 } })

/-- The controller strikes out a reservation of a handle. -/
def forgetOf (h : HandleId) (id : ReservationId) (b : Broker σ) : Option Reservation × Broker σ :=
  match b.supervisor with
  | none => (none, b)
  | some s =>
    if (s.control.known.get? id).any fun r => r.handle = h then
      let f := s.control.forget id
      (f.1, { b with supervisor := some { s with control := f.2 } })
    else (none, b)

/-- Releases one reservation of a handle. -/
def release (C : Connector σ) (clock : Time) (h : HandleId) (id : ReservationId) (noCache : Bool)
    (b : Broker σ) : Except BrokerFault (Option Reservation) × Broker σ :=
  let f := b.forgetOf h id
  let a := f.2.desk.release C clock h id noCache
  (a.1.map fun r => r <|> f.1.map Reservation.ended, { f.2 with desk := a.2 })

/-- Releases every reservation of a handle. -/
def releaseHandle (C : Connector σ) (clock : Time) (h : HandleId) (noCache : Bool) (b : Broker σ) :
    Except BrokerFault (List Reservation) × Broker σ :=
  let f := b.forgetWhere fun r => r.handle = h
  let a := f.2.desk.releaseHandle C clock h noCache
  (a.1.map (merge · f.1), { f.2 with desk := a.2 })

/-- Releases every reservation of a queue. -/
def releaseQueue (C : Connector σ) (clock : Time) (q : QueueName) (noCache : Bool) (b : Broker σ) :
    Except BrokerFault (List Reservation) × Broker σ :=
  let f := b.forgetWhere fun r => r.queue = q
  let a := f.2.desk.releaseQueue C clock q noCache
  (a.1.map (merge · f.1), { f.2 with desk := a.2 })

/-- The nodes that the manager knows. -/
def nodes (C : Connector σ) (b : Broker σ) : Except BrokerFault (List Node) × Broker σ :=
  let a := b.desk.nodes C
  (a.1, { b with desk := a.2 })

/-! ### Reports of the manager, start and stop -/

/-- The manager reports a batch. -/
def deliver (C : Connector σ) (clock : Time) (cs : List Change) (b : Broker σ) : Broker σ :=
  let a := b.desk.deliver C clock cs
  b.follow clock a.2 a.1

/-- The manager stops. -/
def halt (C : Connector σ) (clock : Time) (b : Broker σ) : Broker σ :=
  let a := b.desk.onHalted C clock
  b.follow clock a.2 a.1

def start (C : Connector σ) (b : Broker σ) : Except BrokerFault Unit × Broker σ :=
  let a := b.desk.start C
  (a.1, { b with desk := a.2 })

/-- Stops the registry. The controller is not told. -/
def stop (C : Connector σ) (clock : Time) (b : Broker σ) : Except BrokerFault Unit × Broker σ :=
  let a := b.desk.stop C clock
  (a.1, { b with desk := a.2 })

end Broker

end ClusterBroker
