import ClusterBroker.Reservation

/-!
# The cache of released resources

Resources that a client gave back while the resource manager still holds them for the broker.
Entries are found by their id and, through an index of buckets, by capacity: an ask is served
from the smallest bucket that is large enough, an entry at the asked location before any other.
The index is kept beside the entries and is not derived from them.
-/
namespace ClusterBroker

/-- A size, ordered by memory and then by cpu. -/
structure Capacity where
  memory : UInt64
  cpu : UInt32
  deriving DecidableEq, Repr

namespace Capacity

instance : Key Capacity where
  lt a b := a.memory < b.memory ∨ a.memory = b.memory ∧ a.cpu < b.cpu
  decLt _ _ := inferInstanceAs (Decidable (_ ∨ _))
  lt_irrefl a h := by
    rcases h with h | ⟨_, h⟩
    · exact UInt64.lt_irrefl _ h
    · exact UInt32.lt_irrefl _ h
  lt_trans {a b c} h h' := by
    rcases h with h | ⟨e, h⟩ <;> rcases h' with h' | ⟨e', h'⟩
    · exact .inl (UInt64.lt_trans h h')
    · exact .inl (e' ▸ h)
    · exact .inl (e ▸ h')
    · exact .inr ⟨e.trans e', UInt32.lt_trans h h'⟩
  connected {a b} h h' := by
    obtain ⟨m, c⟩ := a
    obtain ⟨m', c'⟩ := b
    simp only [not_or, not_and, UInt64.not_lt, UInt32.not_lt] at h h'
    have hm : m = m' := UInt64.le_antisymm h'.1 h.1
    have hc : c = c' := UInt32.le_antisymm (h'.2 hm.symm) (h.2 hm)
    rw [hm, hc]

/-- Large enough for an ask. -/
def fits (c : Capacity) (a : Ask) : Bool := a.memory ≤ c.memory && a.cpu ≤ c.cpu

/-- The size of an ask. -/
def ofAsk (a : Ask) : Capacity := ⟨a.memory, a.cpu⟩

end Capacity

/-- Where an entry is: its location and its id, in this order. -/
structure Spot where
  location : Location
  id : ResourceId
  deriving DecidableEq, Repr

instance : Key Spot where
  lt a b := a.location.text < b.location.text ∨ a.location.text = b.location.text ∧ a.id < b.id
  decLt _ _ := inferInstanceAs (Decidable (_ ∨ _))
  lt_irrefl a h := by
    rcases h with h | ⟨_, h⟩
    · exact String.lt_irrefl _ h
    · exact Key.lt_irrefl _ h
  lt_trans {a b c} h h' := by
    rcases h with h | ⟨e, h⟩ <;> rcases h' with h' | ⟨e', h'⟩
    · exact .inl (String.lt_trans h h')
    · exact .inl (e' ▸ h)
    · exact .inl (e ▸ h')
    · exact .inr ⟨e.trans e', Key.lt_trans h h'⟩
  connected {a b} h h' := by
    obtain ⟨⟨l⟩, i⟩ := a
    obtain ⟨⟨l'⟩, i'⟩ := b
    simp only [not_or, not_and, String.not_lt] at h h'
    have hl : l = l' := String.le_antisymm h'.1 h.1
    have hi : i = i' := Key.connected (h.2 hl) (h'.2 hl.symm)
    rw [hl, hi]

/-- A resource in the cache, under the id by which the manager knows it. -/
structure CacheEntry where
  id : ResourceId
  released : Resource
  allocation : Allocation
  cachedOn : Time
  deriving DecidableEq, Repr

namespace CacheEntry

def capacity (e : CacheEntry) : Capacity := ⟨e.allocation.memory, e.allocation.cpu⟩

def spot (e : CacheEntry) : Spot := ⟨e.allocation.location, e.id⟩

/-- The resource to give back in the entry's stead: it goes by the entry's id. -/
def toReleased (e : CacheEntry) : Resource where
  ask := { e.released.ask with resource := e.id }
  reservation := e.released.reservation
  handle := e.released.handle
  queue := e.released.queue
  status := .allocated
  allocation := some e.allocation

end CacheEntry

/-- When an entry has been in the cache for too long. -/
inductive EvictionPolicy where
  | idleTimeout (limit : Span)
  | never
  deriving DecidableEq, Repr

def EvictionPolicy.evicts (p : EvictionPolicy) (now : Time) (e : CacheEntry) : Bool :=
  match p with
  | .idleTimeout limit => limit ≤ now.since e.cachedOn
  | .never => false

/-- How an ask was served. -/
inductive HitKind where
  | strictLocation
  | anyLocation
  deriving DecidableEq, Repr

/-- How many entries came and went; `size` is set whenever they change. -/
structure Cache.Tally where
  size : Nat := 0
  hits : Nat := 0
  misses : Nat := 0
  inserted : Nat := 0
  evicted : Nat := 0
  invalidated : Nat := 0
  deriving DecidableEq, Repr

structure Cache where
  policy : EvictionPolicy
  entries : Table ResourceId CacheEntry := ∅
  byCapacity : Table Capacity (KeySet Spot) := ∅
  tally : Cache.Tally := {}
  deriving DecidableEq

namespace Cache

def size (c : Cache) : Nat := c.entries.size

def contains (c : Cache) (id : ResourceId) : Bool := c.entries.contains id

/-- The cache with its size noted. -/
def noteSize (c : Cache) : Cache := { c with tally := { c.tally with size := c.entries.size } }

/-- The bucket of a capacity. -/
def bucket (c : Cache) (k : Capacity) : KeySet Spot := (c.byCapacity.get? k).getD ∅

/-- The entry in both indexes. -/
def insert (c : Cache) (e : CacheEntry) : Cache :=
  { c with
    byCapacity := c.byCapacity.insert e.capacity ((c.bucket e.capacity).add e.spot)
    entries := c.entries.insert e.id e }

/-- Keeps an allocated resource under `id`; nothing without an allocation can be kept. -/
def store (now : Time) (id : ResourceId) (r : Resource) (c : Cache) : Bool × Cache :=
  match r.allocation with
  | none => (false, c)
  | some a =>
    let c := c.insert { id := id, released := r, allocation := a, cachedOn := now }
    (true, { c with tally := { c.tally with inserted := c.tally.inserted + 1 } }.noteSize)

/-- A place in the capacity index. -/
structure Found where
  capacity : Capacity
  spot : Spot
  kind : HitKind
  deriving DecidableEq, Repr

/-- The first spot of a bucket at a location, looked for from the lowest id there on. -/
def firstAt (l : Location) (spots : KeySet Spot) : Option Spot :=
  ((spots.onward ⟨l, .ofNat 0⟩).head?.map Prod.fst).filter fun s => s.location = l

/-- Searches buckets, smallest first, for an ask: the first that holds the asked location wins,
else the first that is large enough, unless the location is a must. -/
def search (a : Ask) (best : Option Found) : List (Capacity × KeySet Spot) → Option Found
  | [] => if a.locality = .must then none else best
  | (k, spots) :: rest =>
    if k.fits a then
      match firstAt a.location spots with
      | some s => some ⟨k, s, .strictLocation⟩
      | none => search a (best <|> spots.keys.head?.map fun s => ⟨k, s, .anyLocation⟩) rest
    else search a best rest

/-- The place to serve an ask from. -/
def lookup (c : Cache) (a : Ask) : Option Found :=
  search a none (c.byCapacity.onward (Capacity.ofAsk a))

/-- The index without one spot, and without its bucket if that was the last one. -/
def unindex (c : Cache) (k : Capacity) (s : Spot) : Cache :=
  match c.byCapacity.get? k with
  | none => c
  | some spots =>
    let left := spots.remove s
    { c with
      byCapacity := if left.isEmpty then c.byCapacity.erase k else c.byCapacity.insert k left }

/-- Takes an entry for an ask out of the cache. A spot without an entry is dropped and is no
hit. -/
def take (a : Ask) (c : Cache) : Option (HitKind × CacheEntry) × Cache :=
  let miss (c : Cache) : Option (HitKind × CacheEntry) × Cache :=
    (none, { c with tally := { c.tally with misses := c.tally.misses + 1 } }.noteSize)
  match c.lookup a with
  | none => miss c
  | some f =>
    let c := c.unindex f.capacity f.spot
    match c.entries.get? f.spot.id with
    | none => miss c
    | some e =>
      (some (f.kind, e),
        { c with
          entries := c.entries.erase f.spot.id
          tally := { c.tally with hits := c.tally.hits + 1 } }.noteSize)

/-- Takes the entry of an id out of both indexes. -/
def removeEntry (id : ResourceId) (c : Cache) : Option CacheEntry × Cache :=
  match c.entries.get? id with
  | none => (none, c)
  | some e => (some e, { c with entries := c.entries.erase id }.unindex e.capacity e.spot)

/-- Takes the entry of an id. -/
def takeById (id : ResourceId) (c : Cache) : Option CacheEntry × Cache :=
  ((c.removeEntry id).1, (c.removeEntry id).2.noteSize)

/-- Drops the entry of an id that the manager reported about. -/
def invalidate (id : ResourceId) (c : Cache) : Option CacheEntry × Cache :=
  match c.takeById id with
  | (none, c) => (none, c)
  | (some e, c) =>
    (some e, { c with tally := { c.tally with invalidated := c.tally.invalidated + 1 } })

/-- Drops the entries of all these ids. -/
def invalidateAll (ids : List ResourceId) (c : Cache) : Cache :=
  ids.foldl (fun c id => (c.invalidate id).2) c

/-- Takes the entries of these ids, as far as there are any. -/
def removeEntries : List ResourceId → Cache → List CacheEntry × Cache
  | [], c => ([], c)
  | id :: ids, c =>
    let r := c.removeEntry id
    let rest := removeEntries ids r.2
    (r.1.toList ++ rest.1, rest.2)

/-- Takes every entry that is selected. -/
def evictWhere (selects : CacheEntry → Bool) (c : Cache) : List CacheEntry × Cache :=
  let r := c.removeEntries ((c.entries.values.filter selects).map CacheEntry.id)
  (r.1, { r.2 with tally := { r.2.tally with evicted := r.2.tally.evicted + r.1.length } }.noteSize)

/-- Takes every entry that the policy selects. -/
def evict (now : Time) (c : Cache) : List CacheEntry × Cache := c.evictWhere (c.policy.evicts now)

/-- Takes everything. -/
def drain (c : Cache) : List CacheEntry × Cache :=
  (c.entries.values, { c with entries := ∅, byCapacity := ∅ }.noteSize)

end Cache

end ClusterBroker
