import ClusterBroker.Cache.CachedConnector

/-!
# Connectors with and without a cache

A stack may have a cache in front of its connector or not. Both are one type here, so that what
works through a connector need not know.
-/
namespace ClusterBroker

/-- A connector with or without a cache in front of it. -/
inductive Tier (σ : Type) where
  | plain (inner : σ)
  | cached (c : CachedConnector σ)

namespace Tier

variable {σ : Type}

/-- What lies below the cache. -/
def inner : Tier σ → σ
  | .plain s => s
  | .cached c => c.inner

/-- The cached connector, if there is one. -/
def cached? : Tier σ → Option (CachedConnector σ)
  | .plain _ => none
  | .cached c => some c

/-- Changes the state below the cache. -/
def modifyInner (f : σ → σ) : Tier σ → Tier σ
  | .plain s => .plain (f s)
  | .cached c => .cached { c with inner := f c.inner }

/-- Acts on the cached connector, if there is one. -/
def modifyCached (f : CachedConnector σ → CachedConnector σ) : Tier σ → Tier σ
  | .plain s => .plain s
  | .cached c => .cached (f c)

/-- A call on whatever is there. -/
def call {α : Type} (plain : σ → Answer σ α)
    (cached : CachedConnector σ → Answer (CachedConnector σ) α) : Tier σ → Answer (Tier σ) α
  | .plain s => ((plain s).1, .plain (plain s).2)
  | .cached c => ((cached c).1, .cached (cached c).2)

/-- A delivery below, seen from here. -/
def liftPlain (d : Delivery σ) : Delivery (Tier σ) :=
  ⟨d.changes, modifyInner d.passing⟩

def liftCached (d : Delivery (CachedConnector σ)) : Delivery (Tier σ) :=
  ⟨d.changes, modifyCached d.passing⟩

def connector (C : Connector σ) (mint : Nat → ResourceId) : Connector (Tier σ) where
  register q := call (C.register q) (CachedConnector.register C q)
  unregister t := call (C.unregister t) (CachedConnector.unregister C t)
  nodes := call C.nodes (CachedConnector.nodes C)
  reserve t rs := fun
    | .plain s =>
      let a := C.reserve t rs s
      (a.1, a.2.1.map liftPlain, .plain a.2.2)
    | .cached c =>
      let a := c.reserve C t rs
      (a.1, a.2.1.map liftCached, .cached a.2.2)
  release t rs n := call (C.release t rs n) (CachedConnector.release C mint t rs n)
  reassign g id := call (C.reassign g id) (CachedConnector.reassign C g id)
  incoming cs := fun
    | .plain s => .plain (C.incoming cs s)
    | .cached c => .cached (c.incoming C cs)
  halted := fun
    | .plain s => .plain (C.halted s)
    | .cached c => .cached (c.halted C)

end Tier

end ClusterBroker
