import ClusterBroker.Event

/-!
# Connectors

A connector is the way to a resource manager: a state `σ` and six calls on it. Nothing is
assumed about how it answers. What a connector reports while a call is under way comes back as
deliveries beside the answer, in order; what it reports otherwise enters through `incoming`.
-/
namespace ClusterBroker

/-- A node of the cluster. -/
structure Node where
  location : Location
  cpu : UInt32
  memory : UInt64
  deriving DecidableEq, Repr

/-- Why a connector does not do what it is asked. -/
inductive ConnectorFault where
  | notRegistered
  | alreadyRegistered (queue : QueueName)
  | rejected (reason : String)
  | unavailable (reason : String)
  | other (text : String)
  deriving DecidableEq, Repr

def ConnectorFault.message : ConnectorFault → String
  | .notRegistered => "connector is not registered with a queue"
  | .alreadyRegistered q => "connector is already registered with queue '" ++ q.text ++ "'"
  | .rejected reason => "resource manager rejected the request: " ++ reason
  | .unavailable reason => "resource manager unavailable: " ++ reason
  | .other text => text

/-- A batch of changes on its way up, and what it does to the connector that it passes through. -/
structure Delivery (σ : Type) where
  changes : List Change
  passing : σ → σ

/-- The answer to a call, and the connector after it. -/
abbrev Answer (σ α : Type) := Except ConnectorFault α × σ

/-- The calls on a connector whose state is `σ`. Calls that may put something aside for later
take the reading of the clock. -/
structure Connector (σ : Type) where
  register : QueueName → σ → Answer σ Unit
  unregister : Time → σ → Answer σ Unit
  nodes : σ → Answer σ (List Node)
  /-- Submits resources; the batches are delivered, in order, before the answer. -/
  reserve : Time → List Resource → σ → Answer (List (Delivery σ) × σ) Unit
  /-- Gives resources back; with the flag set, no cache on the way may keep them. -/
  release : Time → List Resource → Bool → σ → Answer σ Unit
  /-- Lets what the manager calls by its own id go by another resource id from now on; false if
  the manager does not know it. -/
  reassign : ManagerId → ResourceId → σ → Answer σ Bool
  /-- What a batch reported by the manager does to the connector on its way up. -/
  incoming : List Change → σ → σ
  /-- What the manager's stopping does to the connector. -/
  halted : σ → σ

end ClusterBroker
