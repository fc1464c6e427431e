import ClusterBroker.Connector

/-!
# Calls on record

A recorded connector answers as it would without a record, and writes down every call on it together
with the answer, in order. What it reports by itself is no call.
-/
namespace ClusterBroker

/-- A call on a connector, and what was answered. -/
inductive Call where
  | register (q : QueueName) (answer : Except ConnectorFault Unit)
  | unregister (answer : Except ConnectorFault Unit)
  | nodes (answer : Except ConnectorFault (List Node))
  | reserve (rs : List Resource) (answer : Except ConnectorFault Unit)
  | release (rs : List Resource) (noCache : Bool) (answer : Except ConnectorFault Unit)
  | reassign (m : ManagerId) (id : ResourceId) (answer : Except ConnectorFault Bool)

namespace Call

/-- The resources given back by a call, and whether they may be kept. -/
def givenBack : Call → List (Resource × Bool)
  | .release rs noCache _ => rs.map fun r => (r, noCache)
  | _ => []

/-- The resources submitted by a call. -/
def submitted : Call → List Resource
  | .reserve rs _ => rs
  | _ => []

end Call

structure Recorded (σ : Type) where
  state : σ
  calls : List Call := []

variable {σ : Type}

def Recorded.lift (d : Delivery σ) : Delivery (Recorded σ) :=
  ⟨d.changes, fun s => { s with state := d.passing s.state }⟩

/-- The connector with a record of the calls on it. -/
def Connector.recorded (C : Connector σ) : Connector (Recorded σ) where
  register q s :=
    let a := C.register q s.state
    (a.1, ⟨a.2, s.calls ++ [.register q a.1]⟩)
  unregister t s :=
    let a := C.unregister t s.state
    (a.1, ⟨a.2, s.calls ++ [.unregister a.1]⟩)
  nodes s :=
    let a := C.nodes s.state
    (a.1, ⟨a.2, s.calls ++ [.nodes a.1]⟩)
  reserve t rs s :=
    let a := C.reserve t rs s.state
    (a.1, a.2.1.map Recorded.lift, ⟨a.2.2, s.calls ++ [.reserve rs a.1]⟩)
  release t rs n s :=
    let a := C.release t rs n s.state
    (a.1, ⟨a.2, s.calls ++ [.release rs n a.1]⟩)
  reassign m id s :=
    let a := C.reassign m id s.state
    (a.1, ⟨a.2, s.calls ++ [.reassign m id a.1]⟩)
  incoming cs s := { s with state := C.incoming cs s.state }
  halted s := { s with state := C.halted s.state }

end ClusterBroker
