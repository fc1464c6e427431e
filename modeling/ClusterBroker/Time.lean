/-!
# Points in time and spans of time

A point in time is a number of milliseconds since the epoch in 64 bits; a span is a number of
nanoseconds whose whole seconds fit in 64 bits. Arithmetic on points works in whole
milliseconds and saturates at both ends: a span is first rounded down to milliseconds.
-/
namespace ClusterBroker

/-- The number of values of 64 bits. -/
def wordRange : Nat := 0x10000000000000000

/-- A length of time in nanoseconds. -/
structure Span where
  nanos : Nat
  nanos_lt : nanos < wordRange * 1000000000
  deriving DecidableEq, Repr

/-- Milliseconds since the epoch. -/
structure Time where
  millis : Nat
  millis_lt : millis < wordRange
  deriving DecidableEq, Repr

namespace Span

instance : LE Span := ⟨fun a b => a.nanos ≤ b.nanos⟩
instance : LT Span := ⟨fun a b => a.nanos < b.nanos⟩
instance : DecidableLE Span := fun a b => Nat.decLe a.nanos b.nanos
instance : DecidableLT Span := fun a b => Nat.decLt a.nanos b.nanos

/-- The span of `n` nanoseconds, or the longest span. -/
def ofNanos (n : Nat) : Span := ⟨min n (wordRange * 1000000000 - 1), by unfold wordRange; omega⟩

/-- The span of `n` milliseconds, or the longest span. -/
def ofMillis (n : Nat) : Span := ofNanos (n * 1000000)

/-- The span of `n` seconds, or the longest span. -/
def ofSecs (n : Nat) : Span := ofNanos (n * 1000000000)

def zero : Span := ofNanos 0

instance : Inhabited Span := ⟨zero⟩

/-- Whole milliseconds. -/
def millis (d : Span) : Nat := d.nanos / 1000000

/-- Whole milliseconds, rounded up. -/
def ceilMillis (d : Span) : Nat := (d.nanos + 999999) / 1000000

/-- What is left of `a` after `b`, never less than nothing. -/
def sub (a b : Span) : Span := ⟨a.nanos - b.nanos, by have := a.nanos_lt; omega⟩

/-- The shorter of two spans. -/
def min (a b : Span) : Span := if a ≤ b then a else b

theorem ext_nanos {a b : Span} (h : a.nanos = b.nanos) : a = b := by
  cases a; cases b; simp_all

end Span

namespace Time

instance : LE Time := ⟨fun a b => a.millis ≤ b.millis⟩
instance : LT Time := ⟨fun a b => a.millis < b.millis⟩
instance : DecidableLE Time := fun a b => Nat.decLe a.millis b.millis
instance : DecidableLT Time := fun a b => Nat.decLt a.millis b.millis

/-- The point `n` milliseconds after the epoch, or the last one. -/
def ofMillis (n : Nat) : Time := ⟨min n (wordRange - 1), by unfold wordRange; omega⟩

instance : Inhabited Time := ⟨ofMillis 0⟩

/-- The point a span later, or the last one. -/
def add (t : Time) (d : Span) : Time := ofMillis (t.millis + d.millis)

/-- The span from `earlier` to `t`, nothing if `t` is not later. -/
def since (t earlier : Time) : Span :=
  ⟨(t.millis - earlier.millis) * 1000000, by have := t.millis_lt; omega⟩

/-- A counter of milliseconds that went on by `n`: it starts over after its last value. -/
def tick (t : Time) (n : Nat) : Time := ⟨(t.millis + n) % wordRange, Nat.mod_lt _ (by decide)⟩

def toText (t : Time) : String := toString t.millis ++ " ms since epoch"

instance : ToString Time := ⟨toText⟩

theorem ext_millis {a b : Time} (h : a.millis = b.millis) : a = b := by
  cases a; cases b; simp_all

end Time

end ClusterBroker
