import ClusterBroker.Value

/-!
# Envelopes

A file may give a value inside an envelope: an object that stands for the value under one of its
names, with a tag that tells where the value came from under another. Opening the envelopes of a
value leaves the values themselves; the tags are dropped.
-/
namespace ClusterBroker.Value

/-- The names that make an object an envelope. -/
structure Envelope where
  value : String
  tag : String
  deriving DecidableEq, Repr

namespace Envelope

/-- Whether an object has no tag, or one that is a whole number. -/
def goodTag (e : Envelope) (fs : List (String × Value)) : Bool :=
  match field? e.tag fs with
  | none | some (.int _) => true
  | _ => false

mutual

/-- A value without envelopes, unless one has a bad tag. -/
def openAll (e : Envelope) : Value → Option Value
  | .array vs => (openItems e vs).map .array
  | .object fs =>
    if e.goodTag fs then
      (openFields e fs).map fun fs =>
        (field? e.value fs).getD (.object (fs.filter fun f => f.1 ≠ e.tag))
    else none
  | v => some v

/-- The items of an array without envelopes. -/
def openItems (e : Envelope) : List Value → Option (List Value)
  | [] => some []
  | v :: vs => do return (← openAll e v) :: (← openItems e vs)

/-- The fields of an object without envelopes; the object itself is none. -/
def openFields (e : Envelope) : List (String × Value) → Option (List (String × Value))
  | [] => some []
  | (k, v) :: rest => do return (k, ← openAll e v) :: (← openFields e rest)

end

end Envelope

end ClusterBroker.Value
