import ClusterBroker.Time

/-!
# Delay queues

A bag of timers, each with a payload to be handed out once its time has come. The earliest
timer is the least by wake-up time and, among equal times, by order of insertion, which the
sequence numbers keep.
-/
namespace ClusterBroker

structure Timer (α : Type) where
  wakeUp : Time
  seq : Nat
  payload : α
  deriving DecidableEq, Repr

/-- The order of timers: by wake-up time, then by sequence number. Payloads do not count. -/
def Timer.compare {α β : Type} (a : Timer α) (b : Timer β) : Ordering :=
  (Ord.compare a.wakeUp.millis b.wakeUp.millis).then (Ord.compare a.seq b.seq)

structure DelayQueue (α : Type) where
  timers : List (Timer α) := []
  nextSeq : Nat := 0
  deriving DecidableEq, Repr

namespace DelayQueue

variable {α : Type}

def size (q : DelayQueue α) : Nat := q.timers.length

def isEmpty (q : DelayQueue α) : Bool := q.timers.isEmpty

/-- Adds a timer. -/
def push (q : DelayQueue α) (wakeUp : Time) (a : α) : DelayQueue α :=
  { timers := ⟨wakeUp, q.nextSeq, a⟩ :: q.timers, nextSeq := q.nextSeq + 1 }

def ofList (l : List (Time × α)) : DelayQueue α := l.foldl (fun q e => q.push e.1 e.2) {}

/-- The least of a list of timers, and the others. -/
def extractLeast (t : Timer α) : List (Timer α) → Timer α × List (Timer α)
  | [] => (t, [])
  | u :: rest =>
    let r := extractLeast u rest
    if (t.compare r.1).isLT then (t, u :: rest) else (r.1, t :: r.2)

/-- The earliest timer, and the queue without it. -/
def popEarliest? (q : DelayQueue α) : Option (Timer α × DelayQueue α) :=
  match q.timers with
  | [] => none
  | t :: rest =>
    let r := extractLeast t rest
    some (r.1, { q with timers := r.2 })

/-- When the earliest timer wakes up. -/
def nextWakeUp? (q : DelayQueue α) : Option Time := q.popEarliest?.map fun r => r.1.wakeUp

/-- How long until then, nothing if it has passed. -/
def untilNext? (q : DelayQueue α) (now : Time) : Option Span := q.nextWakeUp?.map (·.since now)

/-- Takes the earliest timer if it is due. -/
def pop (now : Time) (q : DelayQueue α) : Option (Timer α) × DelayQueue α :=
  match q.popEarliest? with
  | some (t, rest) => if t.wakeUp ≤ now then (some t, rest) else (none, q)
  | none => (none, q)

/-- Takes up to `n` timers that are due, in wake-up order. -/
def drainUpTo (now : Time) : Nat → DelayQueue α → List α × DelayQueue α
  | 0, q => ([], q)
  | n + 1, q =>
    match q.pop now with
    | (none, q) => ([], q)
    | (some t, q) =>
      let r := drainUpTo now n q
      (t.payload :: r.1, r.2)

/-- Takes every timer that is due, in wake-up order. -/
def drain (now : Time) (q : DelayQueue α) : List α × DelayQueue α := q.drainUpTo now q.size

/-- The timers whose payload satisfies `p`. -/
def filter (p : α → Bool) (q : DelayQueue α) : DelayQueue α :=
  { q with timers := q.timers.filter fun t => p t.payload }

/-- All timers as pairs, in no particular order. -/
def toList (q : DelayQueue α) : List (Time × α) := q.timers.map fun t => (t.wakeUp, t.payload)

end DelayQueue

end ClusterBroker
