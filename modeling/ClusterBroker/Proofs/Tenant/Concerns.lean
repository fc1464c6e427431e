import ClusterBroker.Proofs.Desk.Protocol
import ClusterBroker.Proofs.Tenant.Share

/-!
# What concerns a tenant

From a run of a desk one can read off what concerns a single tenant: its own calls, with what the
connector does about them, and the parts of batches that are about its resources, whoever's call
brings them. A release of a whole queue and the stopping of the registry concern everybody. Such a
list can be played to a desk where the tenant is alone, over a connector that does what it is told.
-/
namespace ClusterBroker

/-- What a connector does when it is called next: what it reports, and how it answers. -/
structure Script where
  batches : List (List Change) := []
  answer : Except ConnectorFault Unit := .ok ()
  deriving DecidableEq

def Script.connector : Connector Script where
  register _ s := (.ok (), s)
  unregister _ s := (.ok (), s)
  nodes s := (.ok [], s)
  reserve _ _ s := (s.answer, s.batches.map fun cs => ⟨cs, id⟩, s)
  release _ _ _ s := (s.answer, s)
  reassign _ _ s := (.ok false, s)
  incoming _ s := s
  halted s := s

inductive Concern where
  | reserve (id : ReservationId) (request : Request) (script : Script)
  | place (reservation : Reservation) (script : Script)
  | release (id : ReservationId) (noCache : Bool) (script : Script)
  | releaseHandle (noCache : Bool) (script : Script)
  | report (changes : List Change)
  | releaseQueue (queue : QueueName) (noCache : Bool)
  | stop
  deriving DecidableEq

/-- How a concern of a handle is played. -/
def Concern.ops (h : HandleId) : Concern → List (Desk.Op Script)
  | .reserve id q s => [.tend fun _ => s, .reserve id q]
  | .place r s => [.tend fun _ => s, .place r]
  | .release id n s => [.tend fun _ => s, .release h id n]
  | .releaseHandle n s => [.tend fun _ => s, .releaseHandle h n]
  | .report cs => [.deliver cs]
  | .releaseQueue q n => [.releaseQueue q n]
  | .stop => [.stop]

namespace Desk

variable {σ : Type} (C : Connector σ) (clock : Time)

/-! ### Answers -/

/-- What a handle is answered. -/
inductive Reply where
  | reservation (answer : Except BrokerFault Reservation)
  | released (answer : Except BrokerFault (Option Reservation))
  | releasedAll (answer : Except BrokerFault (List Reservation))

def Op.replyTo (h : HandleId) : Op σ → Desk σ → Option Reply
  | .reserve id q, d =>
    if q.handle = h then some (.reservation (d.reserve C clock id q).answer) else none
  | .place r, d => if r.handle = h then some (.reservation (d.place C clock r).answer) else none
  | .release k id n, d => if k = h then some (.released (d.release C clock k id n).1) else none
  | .releaseHandle k n, d =>
    if k = h then some (.releasedAll (d.releaseHandle C clock k n).1) else none
  | _, _ => none

/-- What a handle is answered during a run. -/
def replies (h : HandleId) : List (Time × Op σ) → Desk σ → List Reply
  | [], _ => []
  | e :: run, d => (e.2.replyTo C e.1 h d).toList ++ replies h run (e.2.run C e.1 d).1

/-- What the connector answers to a submission, if it is asked. -/
def submission (r : Reservation) (d : Desk σ) : Except ConnectorFault Unit :=
  if d.registry.stopped = false ∧ d.ledger.conflict? r = none then
    (C.reserve clock r.resources d.connector).1
  else .ok ()

/-- What the connector answers when resources are given back, if there are any. -/
def restitution (removed : List Reservation) (noCache : Bool) (d : Desk σ) :
    Except ConnectorFault Unit :=
  let resources := removed.flatMap Reservation.resources
  if resources.isEmpty then .ok () else (C.release clock resources noCache d.connector).1

/-- What the connector answers to the call that an operation of a client makes, if it makes one. -/
def Op.answered : Op σ → Desk σ → Except ConnectorFault Unit
  | .reserve id q, d =>
    match q.fault? with
    | some _ => .ok ()
    | none => d.submission C clock (.ofRequest id q clock)
  | .place r, d => d.submission C clock r
  | .release h id n, d =>
    d.restitution C clock
      (((d.ledger.get? id).filter fun r => r.handle = h).toList.map Reservation.ended) n
  | .releaseHandle h n, d => d.restitution C clock (d.ledger.removeWhere fun r => r.handle = h).1 n
  | _, _ => .ok ()

/-- The batches of an operation, without the desks that take them in. -/
def Op.reported (op : Op σ) (d : Desk σ) : List (List Change) :=
  (op.arrivals C clock d).map Prod.fst

/-! ### Operations in terms of ledgers -/

theorem arrivals_fst (xs : List (Delivery σ)) (d : Desk σ) :
    (arrivals C clock xs d).map Prod.fst = xs.map Delivery.changes := by
  induction xs generalizing d with
  | nil => rfl
  | cons x xs ih => exact congrArg (x.changes :: ·) (ih _)

theorem receiveAll_takeIn (xs : List (Delivery σ)) (d : Desk σ) :
    ((receiveAll C clock xs d).1.ledger, eventsOf (receiveAll C clock xs d).2) =
      d.ledger.takeIn clock (xs.map Delivery.changes) := by
  induction xs generalizing d with
  | nil => rfl
  | cons x xs ih =>
    have hl : (d.receive C clock x).1.ledger = (d.ledger.reconcile clock x.changes).ledger :=
      onChanges_ledger C clock x.changes { d with connector := x.passing d.connector }
    have he : eventsOf (d.receive C clock x).2 = (d.ledger.reconcile clock x.changes).events :=
      eventsOf_onChanges C clock x.changes { d with connector := x.passing d.connector }
    have hcons : receiveAll C clock (x :: xs) d =
        ((receiveAll C clock xs (d.receive C clock x).1).1,
          (d.receive C clock x).2 ++ (receiveAll C clock xs (d.receive C clock x).1).2) := rfl
    rw [hcons, eventsOf_append, List.map_cons, Ledger.takeIn_cons, ← hl, ← he, ← ih]

theorem placeArrivals_fst {r : Reservation} {d : Desk σ} (ha : d.Admits r) :
    (d.placeArrivals C clock r).map Prod.fst =
      (C.reserve clock r.resources d.connector).2.1.map Delivery.changes := by
  obtain ⟨hs, hc⟩ := ha
  unfold placeArrivals
  rw [if_neg (by simp [hs]), Ledger.insert, show d.registry.ledger.conflict? r = none from hc]
  exact arrivals_fst C clock _ _

theorem place_of_stopped {r : Reservation} {d : Desk σ} (h : d.registry.stopped = true) :
    d.place C clock r = ⟨.error .shutDown, d, []⟩ := by
  unfold place
  rw [if_pos h]

theorem place_of_conflict {r : Reservation} {d : Desk σ} {f : RequestFault}
    (h : d.registry.stopped = false) (hf : d.ledger.conflict? r = some f) :
    d.place C clock r = ⟨.error (.invalid f), d, []⟩ := by
  unfold place
  rw [if_neg (by simp [h]), Ledger.insert, show d.registry.ledger.conflict? r = some f from hf]

/-- What becomes of a submitted reservation with the answer of the connector; `l` has taken in what
was reported meanwhile. -/
def conclude (r : Reservation) (l : Ledger) :
    Except ConnectorFault Unit → Except BrokerFault Reservation × Ledger
  | .error f => (.error (.connector f), (l.remove r.id).2)
  | .ok () => (.ok ((l.get? r.id).getD r), l)

theorem place_admitted {r : Reservation} {d : Desk σ} (ha : d.Admits r)
    {bs : List (List Change)} {answer : Except ConnectorFault Unit}
    (hbs : (C.reserve clock r.resources d.connector).2.1.map Delivery.changes = bs)
    (hanswer : (C.reserve clock r.resources d.connector).1 = answer) :
    eventsOf (d.place C clock r).sent = ((d.ledger.add r).takeIn clock bs).2 ∧
      ((d.place C clock r).answer, (d.place C clock r).desk.ledger) =
        conclude r ((d.ledger.add r).takeIn clock bs).1 answer ∧
      (d.place C clock r).desk.registry.stopped = d.registry.stopped := by
  obtain ⟨hs, hc⟩ := ha
  rcases hres : C.reserve clock r.resources d.connector with ⟨a, xs, s⟩
  rw [hres] at hbs hanswer
  dsimp only at hbs hanswer
  have htake := receiveAll_takeIn C clock xs { d.setLedger (d.ledger.add r) with connector := s }
  have hstop := receiveAll_stopped C clock xs { d.setLedger (d.ledger.add r) with connector := s }
  rw [hbs] at htake
  change _ = (d.ledger.add r).takeIn clock bs at htake
  rw [← htake, ← hanswer]
  unfold place
  rw [if_neg (by simp [hs]), Ledger.insert, show d.registry.ledger.conflict? r = none from hc]
  dsimp only
  rw [show C.reserve clock r.resources (d.setLedger (d.registry.ledger.add r)).connector =
      _ from hres]
  cases a with
  | error f => exact ⟨rfl, rfl, hstop⟩
  | ok u => exact ⟨rfl, rfl, hstop⟩

theorem giveBack_answer (removed : List Reservation) (noCache : Bool) (d : Desk σ) :
    (d.giveBack C clock removed noCache).1 =
      (d.restitution C clock removed noCache).mapError .connector := by
  unfold giveBack restitution
  dsimp only
  split <;> rfl

/-- Over a script that was told what another connector answers, giving back goes the same. -/
theorem restitution_script {removed : List Reservation} {noCache : Bool} {d : Desk σ}
    {d' : Desk Script} (h : d'.connector.answer = d.restitution C clock removed noCache) :
    d'.restitution Script.connector clock removed noCache =
      d.restitution C clock removed noCache := by
  have hscript : d'.restitution Script.connector clock removed noCache =
      if (removed.flatMap Reservation.resources).isEmpty then .ok () else d'.connector.answer := rfl
  rw [hscript, h]
  unfold restitution
  dsimp only
  split <;> rfl

/-! ### Runs one after the other -/

theorem after_append (run run' : List (Time × Op σ)) (d : Desk σ) :
    after C (run ++ run') d = after C run' (after C run d) := List.foldl_append

theorem sends_append (run run' : List (Time × Op σ)) (d : Desk σ) :
    sends C (run ++ run') d = sends C run d ++ sends C run' (after C run d) := by
  induction run generalizing d with
  | nil => rfl
  | cons e run ih =>
    exact (congrArg ((e.2.run C e.1 d).2 ++ ·) (ih _)).trans (List.append_assoc ..).symm

theorem eventsOf_sends_single (e : Time × Op σ) (d : Desk σ) :
    eventsOf (sends C [e] d) = eventsOf (e.2.run C e.1 d).2 := by
  unfold sends sends
  rw [List.append_nil]

theorem replies_append (h : HandleId) (run run' : List (Time × Op σ)) (d : Desk σ) :
    replies C h (run ++ run') d = replies C h run d ++ replies C h run' (after C run d) := by
  induction run generalizing d with
  | nil => rfl
  | cons e run ih =>
    exact (congrArg ((e.2.replyTo C e.1 h d).toList ++ ·) (ih _)).trans
      (List.append_assoc ..).symm

end Desk

namespace Tenant

open Desk (Op)

variable {σ : Type} (T : Tenant) (C : Connector σ)

/-- Nobody else asks for an id or a resource of the tenant, and it asks for no other ones. -/
def Respects : Op σ → Prop
  | .reserve id q =>
    (T.owns id = true ↔ q.handle = T.handle) ∧ ∀ a ∈ q.asks, T.uses a.resource = T.owns id
  | .place r => T.Separates r
  | _ => True

theorem separates_ofRequest {id : ReservationId} {q : Request} (clock : Time)
    (h : T.Respects (.reserve id q : Op σ)) : T.Separates (.ofRequest id q clock) := by
  refine ⟨h.1, fun x hx => ?_⟩
  obtain ⟨y, hy, rfl⟩ := List.mem_map.1 hx
  obtain ⟨a, ha, rfl⟩ := List.mem_map.1 hy
  exact h.2 a ha

/-- What the connector does about a call of the tenant, as far as the tenant sees it. -/
def scriptOf (clock : Time) (op : Op σ) (d : Desk σ) : Script where
  batches := T.batches (op.reported C clock d)
  answer := op.answered C clock d

/-- What an operation reports to the tenant. -/
def reportsOf (clock : Time) (op : Op σ) (d : Desk σ) : List Concern :=
  (T.batches (op.reported C clock d)).map .report

/-- What concerns the tenant in one operation. -/
def concernsOf (clock : Time) (op : Op σ) (d : Desk σ) : List Concern :=
  match op with
  | .reserve id q =>
    if q.handle = T.handle then [.reserve id q (T.scriptOf C clock op d)]
    else T.reportsOf C clock op d
  | .place r =>
    if r.handle = T.handle then [.place r (T.scriptOf C clock op d)] else T.reportsOf C clock op d
  | .release h id n =>
    if h = T.handle then [.release id n (T.scriptOf C clock op d)] else []
  | .releaseHandle h n =>
    if h = T.handle then [.releaseHandle n (T.scriptOf C clock op d)] else []
  | .deliver _ | .halt _ => T.reportsOf C clock op d
  | .releaseQueue q n => [.releaseQueue q n]
  | .stop => [.stop]
  | .start | .nodes | .tend _ => []

/-- What concerns the tenant in a run, and when. -/
def concerns : List (Time × Op σ) → Desk σ → List (Time × Concern)
  | [], _ => []
  | e :: run, d =>
    (T.concernsOf C e.1 e.2 d).map (Prod.mk e.1) ++ concerns run (e.2.run C e.1 d).1

/-- Plays to the tenant alone. -/
def playing (cs : List (Time × Concern)) : List (Time × Op Script) :=
  cs.flatMap fun e => (e.2.ops T.handle).map (Prod.mk e.1)

end Tenant

end ClusterBroker
