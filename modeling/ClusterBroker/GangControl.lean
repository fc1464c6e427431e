import ClusterBroker.DelayQueue
import ClusterBroker.Event
import ClusterBroker.Options

/-!
# Control of stuck gangs

Gang reservations that hold some of their resources and wait for the others can block each
other. The controller keeps its own copy of every gang reservation that is neither allocated
nor rejected: it is either submitted or waits in the backoff queue. When no submitted gang got
an allocation for long enough, some of them, drawn at random, step back for a random time.

Chance enters through `Dice`, a list of draws to come.
-/
namespace ClusterBroker

/-- The draws to come; after the last one every draw is zero. -/
structure Dice where
  rolls : List Nat := []
  deriving DecidableEq, Repr

/-- The next draw below `n`. -/
def Dice.draw (n : Nat) (d : Dice) : Nat × Dice :=
  match d.rolls with
  | [] => (0, d)
  | x :: rest => (x % n, ⟨rest⟩)

/-- What the controller counts; `waiting` is set whenever the backoff queue changes. -/
structure GangControl.Tally where
  rounds : Nat := 0
  backedOff : Nat := 0
  resubmitted : Nat := 0
  resubmissionsFailed : Nat := 0
  waiting : Nat := 0
  deriving DecidableEq, Repr

structure GangControl where
  options : DeadlockOptions
  /-- Gang reservations that are neither allocated nor rejected. -/
  known : Table ReservationId Reservation := ∅
  /-- Those of them that the registry has. -/
  submitted : KeySet ReservationId := ∅
  /-- Those of them that wait. -/
  backoff : DelayQueue ReservationId := {}
  lastAllocation : Time
  dice : Dice := {}
  tally : GangControl.Tally := {}
  deriving DecidableEq

namespace GangControl

/-- The controller with the length of its queue noted. -/
def noteWaiting (c : GangControl) : GangControl :=
  { c with tally := { c.tally with waiting := c.backoff.size } }

/-- Strikes a reservation out, also from the backoff queue if it waits there. -/
def forget (id : ReservationId) (c : GangControl) : Option Reservation × GangControl :=
  let c := { c with submitted := c.submitted.remove id }
  match c.known.get? id with
  | none => (none, c)
  | some r =>
    let c := { c with known := c.known.erase id }
    if r.status = .backedOff then
      (some r, { c with backoff := c.backoff.filter fun x => x ≠ id }.noteWaiting)
    else (some r, c)

/-- Strikes these reservations out. -/
def forgetAll : List ReservationId → GangControl → List Reservation × GangControl
  | [], c => ([], c)
  | id :: ids, c =>
    let r := c.forget id
    let rest := forgetAll ids r.2
    (r.1.toList ++ rest.1, rest.2)

/-- Strikes out every reservation that satisfies `p`. -/
def forgetWhere (p : Reservation → Bool) (c : GangControl) : List Reservation × GangControl :=
  forgetAll ((c.known.values.filter p).map Reservation.id) c

/-- A reservation that waits, with its resources given back. -/
def backedOff? (id : ReservationId) (c : GangControl) : Option Reservation :=
  (c.known.get? id).filter fun r => r.status = .backedOff

/-- Adds a reservation that is about to be submitted. -/
def submit (r : Reservation) (c : GangControl) : GangControl :=
  { c with known := c.known.insert r.id r, submitted := c.submitted.add r.id }

/-- A random time to wait: at least the least delay, and less than the greatest if that is
greater. -/
def drawDelay (c : GangControl) : Span × GangControl :=
  let least := c.options.backoffMinDelay
  let most := c.options.backoffMaxDelay
  if most ≤ least then (least, c)
  else
    let d := c.dice.draw (most.nanos - least.nanos)
    (.ofNanos (least.nanos + d.1), { c with dice := d.2 })

/-- Puts a reservation into the backoff queue, to wake up a drawn delay after `now`. -/
def wait (now : Time) (r : Reservation) (c : GangControl) : GangControl :=
  let d := c.drawDelay
  let c := d.2
  let c := { c with
    known := c.known.insert r.id { r with status := .backedOff }
    backoff := c.backoff.push (now.add d.1) r.id }.noteWaiting
  { c with tally := { c.tally with backedOff := c.tally.backedOff + 1 } }

/-! ### Choosing who steps back -/

/-- The number of resources of the submitted reservations. -/
def submittedResources (c : GangControl) : Nat :=
  (c.submitted.keys.filterMap c.known.get?).foldl (fun n r => n + r.resources.length) 0

/-- How many resources a round has to free. -/
def target (c : GangControl) : Nat := c.submittedResources * c.options.backoffPercent.toNat / 100

/-- Draws up to `n` submitted reservations, until they have `wanted` resources together. They
leave the submitted set and count as backed off. -/
def pick (wanted : Nat) : Nat → GangControl → List (ReservationId × HandleId) × GangControl
  | 0, c => ([], c)
  | n + 1, c =>
    if wanted = 0 then ([], c)
    else
      let d := c.dice.draw c.submitted.size
      match c.submitted.keys[d.1]? with
      | none => ([], c)
      | some id =>
        let c := { c with dice := d.2, submitted := c.submitted.remove id }
        match c.known.get? id with
        | none => pick wanted n c
        | some r =>
          let c := { c with known := c.known.insert id { r with status := .backedOff } }
          let rest := pick (wanted - r.resources.length) n c
          ((id, r.handle) :: rest.1, rest.2)

/-- The reservations that step back in a round. -/
def pickVictims (c : GangControl) : List (ReservationId × HandleId) × GangControl :=
  c.pick c.target c.submitted.size

/-- The controller once a round has begun. -/
def noteRound (victims : List (ReservationId × HandleId)) (c : GangControl) : GangControl :=
  if victims.isEmpty then c else { c with tally := { c.tally with rounds := c.tally.rounds + 1 } }

/-- Puts a reservation that was just released into the backoff queue. A delay is drawn also for
one that is no longer known. -/
def stepBack (now : Time) (id : ReservationId) (c : GangControl) : GangControl :=
  match c.known.get? id with
  | none => c.drawDelay.2
  | some r => c.wait now r.reset

/-! ### Trying again -/

/-- Takes what is due out of the backoff queue: copies fit to be placed, in wake-up order. -/
def wake (now : Time) (c : GangControl) : List Reservation × GangControl :=
  let d := c.backoff.drain now
  let c := { c with backoff := d.2 }.noteWaiting
  go d.1 c
where
  /-- Makes the drained reservations submitted ones. -/
  go : List ReservationId → GangControl → List Reservation × GangControl
    | [], c => ([], c)
    | id :: ids, c =>
      match c.known.get? id with
      | none => go ids c
      | some r =>
        let rest := go ids (c.submit r.reset)
        (r.reset :: rest.1, rest.2)

/-- The controller after a reservation was placed again, or not. -/
def noteResubmission (ok : Bool) (c : GangControl) : GangControl :=
  let t := c.tally
  { c with tally :=
      if ok then { t with resubmitted := t.resubmitted + 1 }
      else { t with resubmissionsFailed := t.resubmissionsFailed + 1 } }

/-! ### Learning from events -/

/-- What an event of the registry teaches: an allocation for a submitted reservation restarts
the wait, and reservations that are allocated or rejected are struck out. -/
def learn (clock : Time) (e : Event) (c : GangControl) : GangControl :=
  let c := if e.allocated.any fun r => c.submitted.contains r.reservation
    then { c with lastAllocation := clock } else c
  (c.forgetAll (e.allocatedReservations ++ e.rejectedReservations)).2

end GangControl

end ClusterBroker
