import ClusterBroker.Connector

/-!
# A scripted resource manager

A resource manager that grants everything by default, records what it was asked to do, and can
be told to fail, to refuse, or to report batches of changes while it serves a reservation.
Calls that fail or are refused are not recorded.
-/
namespace ClusterBroker

/-- A call that the manager has carried out. -/
inductive ManagerCall where
  | register (queue : QueueName)
  | unregister
  | reserve (ids : List ResourceId)
  | release (ids : List ResourceId) (noCache : Bool)
  | reassign (managerId : ManagerId) (id : ResourceId)
  deriving DecidableEq, Repr

/-- The calls that a script can make fail. -/
inductive ManagerOp where
  | register | unregister | nodes | reserve | release | reassign
  deriving DecidableEq, Repr

structure ScriptedManager where
  nodes : List Node := []
  registered : Bool := false
  failReserve : Bool := false
  failRelease : Bool := false
  refuseReassign : Bool := false
  /-- Faults that come before everything else. -/
  faults : ManagerOp → Option ConnectorFault := fun _ => none
  /-- What to report during the next reservations, one batch each. -/
  batches : List (List Change) := []
  calls : List ManagerCall := []

namespace ScriptedManager

/-- Carries a call out: it is recorded. -/
def record (m : ScriptedManager) (c : ManagerCall) : ScriptedManager :=
  { m with calls := m.calls ++ [c] }

/-- Sets or clears the fault of a call. -/
def setFault (m : ScriptedManager) (op : ManagerOp) (f : Option ConnectorFault) : ScriptedManager :=
  { m with faults := fun o => if o = op then f else m.faults o }

/-- The answer of a call unless the script makes it fail. -/
def unlessFaulty {α : Type} (op : ManagerOp) (m : ScriptedManager)
    (act : ScriptedManager → Answer ScriptedManager α) : Answer ScriptedManager α :=
  match m.faults op with
  | some f => (.error f, m)
  | none => act m

def register (q : QueueName) (m : ScriptedManager) : Answer ScriptedManager Unit :=
  m.unlessFaulty .register fun m =>
    if m.registered then (.error (.alreadyRegistered q), m)
    else (.ok (), { m with registered := true }.record (.register q))

def unregister (m : ScriptedManager) : Answer ScriptedManager Unit :=
  m.unlessFaulty .unregister fun m =>
    if m.registered then (.ok (), { m with registered := false }.record .unregister)
    else (.error .notRegistered, m)

def listNodes (m : ScriptedManager) : Answer ScriptedManager (List Node) :=
  m.unlessFaulty .nodes fun m => (.ok m.nodes, m)

/-- The batch due with this reservation; it is reported only if someone is registered. -/
def report (m : ScriptedManager) : List (Delivery ScriptedManager) × ScriptedManager :=
  match m.batches with
  | [] => ([], m)
  | b :: rest => (if m.registered then [⟨b, id⟩] else [], { m with batches := rest })

def reserve (rs : List Resource) (m : ScriptedManager) :
    Answer (List (Delivery ScriptedManager) × ScriptedManager) Unit :=
  match m.faults .reserve with
  | some f => (.error f, [], m)
  | none =>
    if m.failReserve then (.error (.unavailable "mock reserve failure"), [], m)
    else (.ok (), (m.record (.reserve (rs.map Resource.id))).report)

def release (rs : List Resource) (noCache : Bool) (m : ScriptedManager) :
    Answer ScriptedManager Unit :=
  m.unlessFaulty .release fun m =>
    if m.failRelease then (.error (.unavailable "mock release failure"), m)
    else (.ok (), m.record (.release (rs.map Resource.id) noCache))

def reassign (g : ManagerId) (id : ResourceId) (m : ScriptedManager) :
    Answer ScriptedManager Bool :=
  m.unlessFaulty .reassign fun m =>
    if m.refuseReassign then (.ok false, m) else (.ok true, m.record (.reassign g id))

/-- The manager as a connector. -/
def connector : Connector ScriptedManager where
  register := register
  unregister _ := unregister
  nodes := listNodes
  reserve _ := reserve
  release _ := release
  reassign := reassign
  incoming _ := id
  halted := id

end ScriptedManager

end ClusterBroker
