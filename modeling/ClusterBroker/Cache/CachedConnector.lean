import ClusterBroker.Cache
import ClusterBroker.Connector

/-!
# A connector with a cache

Stands in front of a connector. Resources given back are kept under fresh ids, and asks are
served from what is kept before they go to the manager. A kept resource changes its id only
with the inner connector's consent: when it enters the cache, and when it leaves it for an ask.
Entries that the inner connector will not move are given back under the id it knows.

Fresh ids come from a supply `mint`, indexed by how many were drawn before. One is drawn for
every allocated resource offered to the cache, also if it is not kept in the end.
-/
namespace ClusterBroker

/-- An inner connector and the cache in front of it. -/
structure CachedConnector (σ : Type) where
  inner : σ
  cache : Cache
  /-- Whether anyone is there to be told about cache hits. -/
  registered : Bool := false
  /-- How many ids were drawn. -/
  drawn : Nat := 0

namespace CachedConnector

variable {σ : Type}

/-- Gives entries back for good. Whether that works is not reported. -/
def giveBack (C : Connector σ) (clock : Time) (es : List CacheEntry) (s : CachedConnector σ) :
    CachedConnector σ :=
  { s with inner := (C.release clock (es.map CacheEntry.toReleased) true s.inner).2 }

/-- Gives back what the eviction policy selects. -/
def evict (C : Connector σ) (clock : Time) (s : CachedConnector σ) : CachedConnector σ :=
  let r := s.cache.evict clock
  let s := { s with cache := r.2 }
  if r.1.isEmpty then s else s.giveBack C clock r.1

/-- Empties the cache and gives everything back. -/
def stop (C : Connector σ) (clock : Time) (s : CachedConnector σ) : CachedConnector σ :=
  let r := s.cache.drain
  let s := { s with cache := r.2 }
  if r.1.isEmpty then s else s.giveBack C clock r.1

/-- Moves an entry to a resource's id; if the inner connector will not, the entry is given back. -/
def claim (C : Connector σ) (clock : Time) (r : Resource) (e : CacheEntry)
    (s : CachedConnector σ) : Bool × CachedConnector σ :=
  let a := C.reassign e.allocation.managerId r.id s.inner
  let s := { s with inner := a.2 }
  match a.1 with
  | .ok true => (true, s)
  | _ => (false, s.giveBack C clock [e])

/-- Resources served from the cache, with their entries, and resources left to ask for. -/
structure Gathered where
  hits : List (Resource × CacheEntry) := []
  misses : List Resource := []
  deriving DecidableEq

/-- Serves one resource from the cache. -/
def gatherOne (C : Connector σ) (clock : Time) (r : Resource) (s : CachedConnector σ) :
    Gathered × CachedConnector σ :=
  let t := s.cache.take r.ask
  let s := { s with cache := t.2 }
  match t.1 with
  | none => ({ misses := [r] }, s)
  | some (_, e) =>
    let c := s.claim C clock r e
    (if c.1 then { hits := [(r, e)] } else { misses := [r] }, c.2)

/-- Serves resources from the cache, in order. -/
def gather (C : Connector σ) (clock : Time) : List Resource → CachedConnector σ →
    Gathered × CachedConnector σ
  | [], s => ({}, s)
  | r :: rs, s =>
    let one := s.gatherOne C clock r
    let rest := one.2.gather C clock rs
    (⟨one.1.hits ++ rest.1.hits, one.1.misses ++ rest.1.misses⟩, rest.2)

/-- What happens when a batch of changes comes through: entries it speaks of are dropped. -/
def incoming (C : Connector σ) (cs : List Change) (s : CachedConnector σ) : CachedConnector σ :=
  { s with
    inner := C.incoming cs s.inner
    cache := s.cache.invalidateAll (cs.map Change.resource) }

/-- A delivery of the inner connector, seen from here. -/
def lift (d : Delivery σ) : Delivery (CachedConnector σ) where
  changes := d.changes
  passing s := { s with
    inner := d.passing s.inner
    cache := s.cache.invalidateAll (d.changes.map Change.resource) }

/-- The report of cache hits. It does not come from the manager, so the cache stays as it is. -/
def hitDelivery (hits : List (Resource × CacheEntry)) : List (Delivery (CachedConnector σ)) :=
  if hits.isEmpty then []
  else [⟨hits.map fun h => .allocated h.1.id h.2.allocation, id⟩]

/-- Serves what it can from the cache and asks the inner connector for the rest. If that fails,
the hits are given back under the ids they moved to. What the inner connector reported before it
failed is handed on with the answer, so it is taken in after the hits went back. In a running system
it is taken in first; no theorem tells the two orders apart. -/
def reserve (C : Connector σ) (clock : Time) (rs : List Resource) (s : CachedConnector σ) :
    Answer (List (Delivery (CachedConnector σ)) × CachedConnector σ) Unit :=
  if s.registered then
    let g := s.gather C clock rs
    let s := g.2
    if g.1.misses.isEmpty then (.ok (), hitDelivery g.1.hits, s)
    else
      let a := C.reserve clock g.1.misses s.inner
      let s := { s with inner := a.2.2 }
      let inner := a.2.1.map lift
      match a.1 with
      | .ok () => (.ok (), inner ++ hitDelivery g.1.hits, s)
      | .error f =>
        let claimed := g.1.hits.map fun h => h.1.allocate h.2.allocation
        let s := if claimed.isEmpty then s
          else { s with inner := (C.release clock claimed true s.inner).2 }
        (.error f, inner, s)
  else (.error .notRegistered, [], s)

/-- Keeps an allocated resource under a fresh id if the inner connector agrees. -/
def keep (C : Connector σ) (mint : Nat → ResourceId) (clock : Time) (r : Resource)
    (s : CachedConnector σ) : Bool × CachedConnector σ :=
  match r.allocation with
  | none => (false, s)
  | some alloc =>
    let fresh := mint s.drawn
    let a := C.reassign alloc.managerId fresh s.inner
    let s := { s with inner := a.2, drawn := s.drawn + 1 }
    match a.1 with
    | .ok true =>
      let k := s.cache.store clock fresh r
      (k.1, { s with cache := k.2 })
    | _ => (false, s)

/-- Keeps what it can and returns the rest. -/
def keepAll (C : Connector σ) (mint : Nat → ResourceId) (clock : Time) : List Resource →
    CachedConnector σ → List Resource × CachedConnector σ
  | [], s => ([], s)
  | r :: rs, s =>
    let one := s.keep C mint clock r
    let rest := one.2.keepAll C mint clock rs
    (if one.1 then rest.1 else r :: rest.1, rest.2)

/-- Keeps what it can, unless told not to, and gives the rest back. -/
def release (C : Connector σ) (mint : Nat → ResourceId) (clock : Time) (rs : List Resource)
    (noCache : Bool) (s : CachedConnector σ) : Answer (CachedConnector σ) Unit :=
  if noCache then
    let a := C.release clock rs true s.inner
    (a.1, { s with inner := a.2 })
  else
    let k := s.keepAll C mint clock rs
    if k.1.isEmpty then (.ok (), k.2)
    else
      let a := C.release clock k.1 false k.2.inner
      (a.1, { k.2 with inner := a.2 })

def register (C : Connector σ) (q : QueueName) (s : CachedConnector σ) :
    Answer (CachedConnector σ) Unit :=
  let a := C.register q s.inner
  match a.1 with
  | .ok () => (.ok (), { s with inner := a.2, registered := true })
  | .error f => (.error f, { s with inner := a.2 })

/-- The cache goes back while the inner connector still takes releases. -/
def unregister (C : Connector σ) (clock : Time) (s : CachedConnector σ) :
    Answer (CachedConnector σ) Unit :=
  let s := { s.stop C clock with registered := false }
  let a := C.unregister clock s.inner
  (a.1, { s with inner := a.2 })

def nodes (C : Connector σ) (s : CachedConnector σ) : Answer (CachedConnector σ) (List Node) :=
  let a := C.nodes s.inner
  (a.1, { s with inner := a.2 })

def reassign (C : Connector σ) (g : ManagerId) (id : ResourceId) (s : CachedConnector σ) :
    Answer (CachedConnector σ) Bool :=
  let a := C.reassign g id s.inner
  (a.1, { s with inner := a.2 })

/-- When the manager stops, nothing that is kept is worth anything. -/
def halted (C : Connector σ) (s : CachedConnector σ) : CachedConnector σ :=
  { s with inner := C.halted s.inner, cache := s.cache.drain.2 }

end CachedConnector

end ClusterBroker
