import ClusterBroker.Ident

/-!
# Asks

What a client wants: a set of resources, each of a size and, more or less strictly, at a place.
-/
namespace ClusterBroker

/-- The name of a resource manager's queue. -/
structure QueueName where
  text : String
  deriving DecidableEq, Repr, Inhabited

/-- The name of a place in the cluster. -/
structure Location where
  text : String
  deriving DecidableEq, Repr, Inhabited

/-- The resource manager's own name for something it handed out. -/
structure ManagerId where
  text : String
  deriving DecidableEq, Repr, Inhabited

/-- How strictly the location of an ask is meant. -/
inductive Locality where
  /-- Only this location will do. -/
  | must
  /-- Any location will do, this one best. -/
  | preferred
  | dontCare
  deriving DecidableEq, Repr

namespace Locality

def text : Locality → String
  | .must => "must"
  | .preferred => "preferred"
  | .dontCare => "dont-care"

instance : Inhabited Locality := ⟨.dontCare⟩

def ofText? (s : String) : Option Locality :=
  [.must, .preferred, .dontCare].find? fun l => l.text = s

/-- What is said of a text that is no locality. -/
def unknownMessage : String := "Matching variant not found"

theorem ofText?_text (l : Locality) : ofText? l.text = some l := by cases l <;> decide

end Locality

/-- An ask for one resource. -/
structure Ask where
  resource : ResourceId
  location : Location
  locality : Locality
  cpu : UInt32
  memory : UInt64
  deriving DecidableEq, Repr

/-- A client's ask for several resources at once. A gang is allocated as a whole or not at
all. -/
structure Request where
  handle : HandleId
  queue : QueueName
  gang : Bool
  asks : List Ask
  deriving DecidableEq, Repr

/-- Why a request cannot be taken. -/
inductive RequestFault where
  | noAsk
  | repeatedResource (id : ResourceId)
  | emptyAsk (id : ResourceId)
  | knownReservation (id : ReservationId)
  | placedResource (id : ResourceId)
  deriving DecidableEq, Repr

def RequestFault.message : RequestFault → String
  | .noAsk => "a reservation must ask for at least one resource"
  | .repeatedResource id => "resource id '" ++ id.toText ++ "' is used more than once"
  | .emptyAsk id => "resource '" ++ id.toText ++ "' asks for neither cpu nor memory"
  | .knownReservation id => "reservation '" ++ id.toText ++ "' already exists"
  | .placedResource id => "resource '" ++ id.toText ++ "' is already placed"

/-- The first fault of a list of asks, given the resources named before it. -/
def Ask.firstFault (seen : List ResourceId) : List Ask → Option RequestFault
  | [] => none
  | a :: rest =>
    if a.resource ∈ seen then some (.repeatedResource a.resource)
    else if a.cpu = 0 ∧ a.memory = 0 then some (.emptyAsk a.resource)
    else Ask.firstFault (a.resource :: seen) rest

/-- The fault that keeps a request from being placed, whatever else is placed. -/
def Request.fault? (r : Request) : Option RequestFault :=
  if r.asks = [] then some .noAsk else Ask.firstFault [] r.asks

end ClusterBroker
