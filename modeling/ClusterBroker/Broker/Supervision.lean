import ClusterBroker.Broker

/-!
# Supervision

What a supervisor does from time to time: when nothing was allocated for too long, some gangs
step back, and gangs whose time has come are placed again. A turn does both and tells how long
to rest. A broker without a supervisor does neither.
-/
namespace ClusterBroker.Broker

variable {σ : Type}

/-! ### Stepping back -/

/-- One gang steps back: it is released, whatever the connector says, and waits. -/
def stepBack (C : Connector σ) (clock now : Time) (b : Broker σ)
    (victim : ReservationId × HandleId) : Broker σ :=
  let a := b.desk.release C clock victim.2 victim.1 false
  ({ b with desk := a.2 } : Broker σ).modifyControl (GangControl.stepBack now victim.1)

/-- A round of stepping back. The wait for the next allocation starts over at its end. -/
def backOffRound (C : Connector σ) (clock now : Time) (control : GangControl) (b : Broker σ) :
    Broker σ :=
  let v := control.pickVictims
  let b := b.modifyControl fun _ => v.2.noteRound v.1
  (v.1.foldl (stepBack C clock now) b).modifyControl fun c => { c with lastAllocation := clock }

/-- Starts a round if nothing was allocated for too long; how long until the next one might. -/
def avoidDeadlock (C : Connector σ) (clock now : Time) (b : Broker σ) : Option Span × Broker σ :=
  match b.control? with
  | none => (none, b)
  | some c =>
    let limit := c.options.noAllocationLimit
    let elapsed := now.since c.lastAllocation
    if elapsed < limit then (some (limit.sub elapsed), b)
    else (some limit, b.backOffRound C clock now c)

/-! ### Trying again -/

/-- Places one gang again. If that fails it is forgotten, and the clients learn that it is
rejected. -/
def placeAgain (C : Connector σ) (clock : Time) (b : Broker σ) (r : Reservation) : Broker σ :=
  let a := b.place C clock r
  match a.1 with
  | .ok _ => a.2.modifyControl (GangControl.noteResubmission true)
  | .error _ =>
    (a.2.modifyControl fun c => ((c.noteResubmission false).forget r.id).2).forward
      (.rejection r.handle r.id)

/-- Places the gangs again whose time has come; how long until the next one's time comes. -/
def retry (C : Connector σ) (clock now : Time) (b : Broker σ) : Option Span × Broker σ :=
  match b.control? with
  | none => (none, b)
  | some c =>
    let due := c.wake now
    let b := due.1.foldl (placeAgain C clock) (b.modifyControl fun _ => due.2)
    (b.control?.bind fun c => c.backoff.untilNext? clock, b)

/-- One turn of supervision; how long to rest before the next one. -/
def supervisionTurn (C : Connector σ) (clock : Time) (b : Broker σ) : Option Span × Broker σ :=
  let a := b.avoidDeadlock C clock clock
  let r := a.2.retry C clock clock
  (a.1.map fun rest => match r.1 with
    | some next => rest.min next
    | none => rest, r.2)

end ClusterBroker.Broker
