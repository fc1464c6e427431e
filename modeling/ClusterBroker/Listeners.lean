import ClusterBroker.Event

/-!
# Listeners

A list of listeners under ids that are never used twice. A dispatch hands every event that is
not empty to every listener that is on the list when it begins; a listener that fails keeps
nobody else from hearing.
-/
namespace ClusterBroker

/-- The id of a listener in its list. -/
structure ListenerId where
  index : Nat
  deriving DecidableEq, Repr

def ListenerId.toText (i : ListenerId) : String := "listener-" ++ toString i.index

instance : ToString ListenerId := ⟨ListenerId.toText⟩

/-- Listeners of type `α`. -/
structure Listeners (α : Type) where
  nextId : Nat := 0
  entries : List (ListenerId × α) := []
  /-- How many events were dispatched. -/
  dispatched : Nat := 0
  /-- How many calls of a listener failed. -/
  failures : Nat := 0
  deriving DecidableEq

namespace Listeners

variable {α : Type}

def add (a : α) (l : Listeners α) : ListenerId × Listeners α :=
  (⟨l.nextId⟩, { l with nextId := l.nextId + 1, entries := l.entries ++ [(⟨l.nextId⟩, a)] })

/-- Removes the listener with an id; tells whether there was one. -/
def remove (id : ListenerId) (l : Listeners α) : Bool × Listeners α :=
  let left := l.entries.filter fun e => !decide (e.1 = id)
  (left.length ≠ l.entries.length, { l with entries := left })

def size (l : Listeners α) : Nat := l.entries.length

/-- A call of one listener with one event. -/
structure Call (α : Type) where
  event : Event
  id : ListenerId
  listener : α

/-- The calls that a dispatch makes, in order. -/
def calls (events : List Event) (l : Listeners α) : List (Call α) :=
  (events.filter fun e => !e.isEmpty).flatMap fun e => l.entries.map fun x => ⟨e, x.1, x.2⟩

/-- The list after a dispatch; `fails` tells which calls fail. -/
def afterDispatch (fails : α → Event → Bool) (events : List Event) (l : Listeners α) :
    Listeners α :=
  { l with
    dispatched := l.dispatched + (events.filter fun e => !e.isEmpty).length
    failures := l.failures + (l.calls events).countP fun c => fails c.listener c.event }

/-- The list without those who satisfy `p`. -/
def dismissWhere (p : α → Bool) (l : Listeners α) : Listeners α :=
  { l with entries := l.entries.filter fun x => !p x.2 }

end Listeners

end ClusterBroker
