import ClusterBroker.Proofs.Tally.Stack

/-!
# Ids of clients and ids of a cache

What is tracked goes by the ids that clients chose, what is cached by ids that were drawn from a
supply. As long as clients keep off the supply, no operation of a desk or of a broker mixes them up,
whatever the connector answers and reports: what is tracked afterwards was tracked before or is what
was placed, and what is cached was cached before or stands under an id drawn meanwhile.
-/
namespace ClusterBroker

/-- The id is not one of the supply. -/
def Supply.Lacks (u : Supply) (id : ResourceId) : Prop := ∀ n < u.size, id ≠ u.mint n

/-! ### Tracked resources -/

namespace Ledger

variable {p : ResourceId → Prop} {l l' : Ledger}

/-- Every tracked resource goes by an id that satisfies `p`. -/
def GoesBy (p : ResourceId → Prop) (l : Ledger) : Prop :=
  ∀ id r, l.get? id = some r → ∀ k ∈ r.resourceIds, p k

theorem goesBy_empty (p : ResourceId → Prop) : ({} : Ledger).GoesBy p := by
  intro id r hr
  have hnone : (none : Option Reservation) = some r := hr
  simp at hnone

theorem GoesBy.resource (h : l.GoesBy p) {x : Resource} (hx : x ∈ l.resources) : p x.id := by
  obtain ⟨id, r, hr, hx⟩ := mem_resources.1 hx
  exact h id r hr x.id (List.mem_map_of_mem hx)

theorem GoesBy.add (h : l.GoesBy p) {r : Reservation} (hr : ∀ k ∈ r.resourceIds, p k) :
    (l.add r).GoesBy p := by
  intro id s hs
  rw [get?_add] at hs
  split at hs
  next =>
    rw [← Option.some.inj hs]
    exact hr
  next => exact h id s hs

/-- What is tracked later is what was tracked, further on. -/
theorem GoesBy.succeeds (h : l.GoesBy p) {ids : List ReservationId} (hs : l.Succeeds ids l') :
    l'.GoesBy p := by
  intro id s hs'
  obtain ⟨r, hr, hadv⟩ := hs.origin hs'
  rw [Reservation.resourceIds_of_claim hadv.claim_eq]
  exact h id r hr

theorem GoesBy.leaves (h : l.GoesBy p) (hl : ∀ id, Desk.Leaves id l l') : l'.GoesBy p := by
  intro id r hr
  rcases hl id with he | he
  · rw [he] at hr
    exact h id r hr
  · rw [he] at hr
    simp at hr

end Ledger

/-! ### Cached entries -/

namespace Cache

variable {mint : Nat → ResourceId} {c c' : Cache} {n : Nat}

/-- Every entry stands under its own id, and this is one of the first `n` of the supply. -/
structure Minted (mint : Nat → ResourceId) (c : Cache) (n : Nat) : Prop where
  keyed : c.Keyed
  drawn : ∀ id e, c.entries.get? id = some e → ∃ m < n, id = mint m

theorem minted_empty (mint : Nat → ResourceId) (policy : EvictionPolicy) (n : Nat) :
    Minted mint { policy } n := ⟨nofun, nofun⟩

theorem Minted.sheds (h : c.Minted mint n) {es : List CacheEntry} (hs : c.Sheds es c') :
    c'.Minted mint n := ⟨hs.keyed h.keyed, fun id e he => h.drawn id e (hs.sub id e he)⟩

theorem Minted.draw (h : c.Minted mint n) : c.Minted mint (n + 1) := by
  refine ⟨h.keyed, fun id e he => ?_⟩
  obtain ⟨m, hm, hid⟩ := h.drawn id e he
  exact ⟨m, Nat.lt_succ_of_lt hm, hid⟩

theorem Minted.store (h : c.Minted mint n) (clock : Time) (r : Resource) :
    (c.store clock (mint n) r).2.Minted mint (n + 1) := by
  cases ha : r.allocation with
  | none =>
    unfold Cache.store
    rw [ha]
    exact h.draw
  | some a =>
    have hentries := (store_entries clock (mint n) c ha).2
    constructor
    · intro id e he
      rw [hentries, Table.get?_insert] at he
      split at he
      next hid =>
        rw [← Option.some.inj he]
        exact hid
      next => exact h.keyed id e he
    · intro id e he
      rw [hentries, Table.get?_insert] at he
      split at he
      next hid => exact ⟨n, Nat.lt_succ_self n, hid.symm⟩
      next => exact h.draw.drawn id e he

theorem minted_steady (mint : Nat → ResourceId) : Steady mint (Minted mint) where
  take a h := h.sheds (take_sheds a _)
  invalidate id h := h.sheds (invalidate_sheds id _)
  draw h := h.draw
  store clock r h := h.store clock r

end Cache

namespace Tier

variable {σ : Type} {C : Connector σ} {mint : Nat → ResourceId} {t : Tier σ}

theorem Every.act (h : t.Every (Cache.Minted mint)) (clock : Time) (k : Care σ) :
    (k.act C clock t).Every (Cache.Minted mint) := by
  cases t with
  | plain s => cases k <;> exact .plain _ _
  | cached s =>
    have hs := h s rfl
    refine Has.every ?_
    cases k with
    | evict =>
      obtain ⟨hc, hd⟩ := s.evict_cache C clock
      refine ⟨_, rfl, ?_⟩
      rw [hc, hd]
      exact hs.sheds (s.cache.evict_sheds clock)
    | stop =>
      obtain ⟨hc, hd⟩ := s.stop_cache C clock
      refine ⟨_, rfl, ?_⟩
      rw [hc, hd]
      exact hs.sheds s.cache.drain_sheds
    | unregister =>
      obtain ⟨hc, hd⟩ := s.unregister_cache C clock
      refine ⟨_, rfl, ?_⟩
      rw [hc, hd]
      exact hs.sheds s.cache.drain_sheds
    | inner f => exact ⟨_, rfl, hs⟩

theorem Every.unregister (h : t.Every (Cache.Minted mint)) (clock : Time) :
    ((Tier.connector C mint).unregister clock t).2.Every (Cache.Minted mint) := by
  cases t with
  | plain s => exact .plain _ _
  | cached s => exact h.act clock (.unregister : Care σ)

theorem Every.halted (h : t.Every (Cache.Minted mint)) :
    ((Tier.connector C mint).halted t).Every (Cache.Minted mint) := by
  cases t with
  | plain s => exact .plain _ _
  | cached s => exact Has.every ⟨_, rfl, (h s rfl).sheds s.cache.drain_sheds⟩

end Tier

/-! ### Both together -/

namespace Tier

variable {σ : Type}

/-- What is cached, if there is a cache. -/
def kept : Tier σ → List CacheEntry
  | .plain _ => []
  | .cached s => s.cache.entries.values

/-- How many ids the cache has drawn. -/
def drawn : Tier σ → Nat
  | .plain _ => 0
  | .cached s => s.drawn

theorem Every.kept {mint : Nat → ResourceId} {t : Tier σ} (h : t.Every (Cache.Minted mint)) :
    (t.kept.map CacheEntry.id).Nodup ∧ ∀ e ∈ t.kept, ∃ n < t.drawn, e.id = mint n := by
  cases t with
  | plain s => exact ⟨List.nodup_nil, List.forall_mem_nil _⟩
  | cached s =>
    have hs := h s rfl
    exact ⟨hs.keyed.ids_nodup, fun e he => hs.drawn e.id e (hs.keyed.mem_values.1 he)⟩

end Tier

/-! ### Operations of a desk -/

namespace Desk

variable {σ : Type} {C : Connector σ} {u : Supply} (clock : Time)

theorem place_goesBy (C : Connector σ) {p : ResourceId → Prop} {r : Reservation} (hr : r.Sound)
    (hp : ∀ k ∈ r.resourceIds, p k) {d : Desk σ} (h : d.ledger.Sound)
    (hg : d.ledger.GoesBy p) : (d.place C clock r).desk.ledger.GoesBy p := by
  have hplaced := place_placed C clock hr h
  generalize d.place C clock r = o at hplaced ⊢
  cases hplaced with
  | refused _ => exact hg
  | done _ _ hs => exact (hg.add hp).succeeds hs
  | @undone f d' sent l hc hst hs hl hC =>
    refine ((hg.add hp).succeeds hs).leaves fun id => ?_
    rw [hl]
    exact .of_removal (fun k => r.id = k) (Ledger.remove_ledger hs.sound r.id).2

/-- Clients keep off the ids of the supply, and the connector changes by care only. -/
def Op.Heeds (C : Connector σ) (u : Supply) (clock : Time) : Op (Tier σ) → Prop
  | .reserve _ q => Unminted u q
  | .place r => Placeable u r
  | .tend f => ∃ k : Tier.Care σ, f = k.act C clock
  | _ => True

theorem Op.Heeds.proper {op : Op (Tier σ)} (h : op.Heeds C u clock) : op.Proper := by
  cases op with
  | place r => exact h.fresh
  | reserve | release | releaseHandle | releaseQueue | start | nodes | deliver | halt | stop
  | tend => trivial

/-- What is tracked goes by ids that are not of the supply, what is cached by ids drawn from it. -/
structure Apart (u : Supply) (d : Desk (Tier σ)) : Prop where
  sound : d.ledger.Sound
  unminted : d.ledger.GoesBy u.Lacks
  minted : d.connector.Every (Cache.Minted u.mint)

variable {d : Desk (Tier σ)}

theorem Apart.ids_nodup (h : d.Apart u) (hw : d.connector.drawn ≤ u.size) :
    (d.connector.kept.map CacheEntry.id ++ d.ledger.resources.map Resource.id).Nodup := by
  obtain ⟨hnodup, hdrawn⟩ := h.minted.kept
  rw [List.nodup_append]
  refine ⟨hnodup, h.sound.resources_nodup, fun k hk k' hk' he => ?_⟩
  obtain ⟨e, hkept, rfl⟩ := List.mem_map.1 hk
  obtain ⟨x, hx, rfl⟩ := List.mem_map.1 hk'
  obtain ⟨n, hn, hid⟩ := hdrawn e hkept
  exact h.unminted.resource hx n (Nat.lt_of_lt_of_le hn hw) (he.symm.trans hid)

theorem Op.run_goesBy {op : Op (Tier σ)} (hop : op.Heeds C u clock) (h : d.Apart u) :
    (op.run (Tier.connector C u.mint) clock d).1.ledger.GoesBy u.Lacks := by
  cases op with
  | reserve id q =>
    unfold run Desk.reserve
    dsimp only
    cases hf : q.fault? with
    | some f => exact h.unminted
    | none =>
      have hr := placeable_ofRequest hop hf id clock
      exact place_goesBy clock _ hr.fresh.sound hr.unminted h.sound h.unminted
  | place r => exact place_goesBy clock _ hop.fresh.sound hop.unminted h.sound h.unminted
  | release hd id n =>
    exact h.unminted.leaves fun _ => .of_removal _ (release_ledger _ clock h.sound hd id n).2
  | releaseHandle hd n =>
    exact h.unminted.leaves fun _ => .of_removal _ (releaseWhere_ledger _ clock h.sound _ n).2
  | releaseQueue q n =>
    exact h.unminted.leaves fun _ => .of_removal _ (releaseWhere_ledger _ clock h.sound _ n).2
  | start | nodes | tend => exact h.unminted
  | deliver cs => exact h.unminted.succeeds (deliver_succeeds _ clock h.sound cs)
  | halt order => exact h.unminted.succeeds (onHaltedIn_succeeds _ clock h.sound order)
  | stop =>
    refine h.unminted.leaves fun id => ?_
    unfold Leaves
    rw [show (Op.stop.run (Tier.connector C u.mint) clock d).1.ledger.get? id = _ from
      (stop_ledger (Tier.connector C u.mint) clock h.sound).2 id]
    split
    next => exact .inl rfl
    next => exact .inr rfl

theorem stop_minted (h : d.connector.Every (Cache.Minted u.mint)) :
    (d.stop (Tier.connector C u.mint) clock).2.connector.Every (Cache.Minted u.mint) := by
  have hK := Tier.connector_keeps_every (C := C) (Cache.minted_steady u.mint)
  unfold stop
  split
  next => exact h
  next =>
    have hreleased := releaseWhere_connector hK clock
      (d := { d with registry := { d.registry with stopped := true } }) h (fun _ => true) true
    exact hreleased.unregister clock

theorem Op.run_minted {op : Op (Tier σ)} (hop : op.Heeds C u clock)
    (h : d.connector.Every (Cache.Minted u.mint)) :
    (op.run (Tier.connector C u.mint) clock d).1.connector.Every (Cache.Minted u.mint) := by
  have hK := Tier.connector_keeps_every (C := C) (Cache.minted_steady u.mint)
  cases op with
  | halt order => exact h.halted
  | stop => exact stop_minted clock h
  | tend f =>
    obtain ⟨k, rfl⟩ := hop
    exact h.act clock k
  | reserve | place | release | releaseHandle | releaseQueue | start | nodes | deliver =>
    exact Op.run_connector hK clock h rfl

theorem Apart.run (h : d.Apart u) {op : Op (Tier σ)} (hop : op.Heeds C u clock) :
    (op.run (Tier.connector C u.mint) clock d).1.Apart u :=
  ⟨(Op.run_keeps _ clock hop.proper h.sound).sound, Op.run_goesBy clock hop h,
    Op.run_minted clock hop h.minted⟩

end Desk

/-! ### Operations of a broker -/

namespace Broker

open Desk (Placeable Unminted)

variable {σ : Type} {C : Connector σ} {u : Supply} (clock : Time) {b : Broker (Tier σ)}

/-- Nothing is mixed up, and what the supervisor places again can be placed. -/
structure Apart (u : Supply) (b : Broker (Tier σ)) : Prop where
  desk : b.desk.Apart u
  watched : b.Watched (Placeable u)

/-- Clients keep off the ids of the supply, and the connector changes by care only. -/
def Op.Heeds (C : Connector σ) (u : Supply) (clock : Time) : Op (Tier σ) → Prop
  | .reserve _ q => Unminted u q
  | .tend f => ∃ k : Tier.Care σ, f = k.act C clock
  | _ => True

theorem Apart.run (h : b.Apart u) {op : Op (Tier σ)} (hop : op.Heeds C u clock) :
    (op.run (Tier.connector C u.mint) clock b).Apart u := by
  have hplace : ∀ id q, op = .reserve id q → q.fault? = none →
      Placeable u (.ofRequest id q clock) := by
    rintro id q rfl hf
    exact Desk.placeable_ofRequest hop hf id clock
  refine ⟨?_, h.watched.run _ clock hplace⟩
  rw [Op.run_desk]
  refine serve_keeps _ clock (P := Desk.Apart u) (fun o ho _ hd => hd.run clock ?_) h.desk
  rcases Op.errand_cases _ clock h.watched hplace ho with hd | ⟨_, _, rfl⟩ | ⟨r, hr, rfl⟩
  · cases op with
    | avoidDeadlock | retry | turn | roll | addClient | removeClient => simp [Op.direct] at hd
    | reserve | tend =>
      rw [← Option.some.inj hd]
      exact hop
    | release | releaseHandle | releaseQueue | start | nodes | deliver | halt | stop =>
      rw [← Option.some.inj hd]
      trivial
  · trivial
  · exact hr

/-- The registry is called past the supervisor. -/
theorem Apart.follow (h : b.Apart u) {o : Desk.Op (Tier σ)} (ho : o.Heeds C u clock) :
    (b.follow clock (o.run (Tier.connector C u.mint) clock b.desk).2
      (o.run (Tier.connector C u.mint) clock b.desk).1).Apart u :=
  ⟨h.desk.run clock ho,
    Controls.follow clock ((GangControl.keeping_knows (Placeable u)).stable clock).toSettles
      h.watched _ _⟩

end Broker

end ClusterBroker
