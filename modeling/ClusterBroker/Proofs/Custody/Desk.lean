import ClusterBroker.Proofs.Custody.Reports
import ClusterBroker.Proofs.Desk.Run

/-!
# Custody through the operations of a desk

A desk works through a cached connector over a traced one. Each of its operations is a move of its
stock, whatever the connector answers, as long as it is silent while a submission fails and hands
out nothing that is in stock already.
-/
namespace ClusterBroker.Desk

variable {σ : Type}

/-- What a desk has in stock, with hits that are still to be reported. -/
def stock (hits : List (Resource × CacheEntry)) (d : Desk (Tier (Traced σ))) : Stock :=
  match d.connector with
  | .plain s => ⟨d.ledger.resources, hits, { policy := .never }, 0, s.log⟩
  | .cached c => c.stock d.ledger.resources hits

/-- The desk is in order, with what it has in stock. -/
structure Guards (u : Supply) (hits : List (Resource × CacheEntry))
    (d : Desk (Tier (Traced σ))) : Prop where
  cached : ∃ c, d.connector = .cached c
  sound : d.ledger.Sound
  kept : (d.stock hits).Kept u

/-- From one desk to another the stock moves. -/
structure Shifts (u : Supply) (hits hits' : List (Resource × CacheEntry))
    (d d' : Desk (Tier (Traced σ))) : Prop where
  cached : ∃ c, d'.connector = .cached c
  sound : d'.ledger.Sound
  moves : (d.stock hits).Moves u (d'.stock hits')

variable {C : Connector σ} {u : Supply} (clock : Time)
  {hits hits' hits'' : List (Resource × CacheEntry)} {d d' d'' : Desk (Tier (Traced σ))}

theorem Shifts.guards (h : Shifts u hits hits' d d') : Guards u hits' d' :=
  ⟨h.cached, h.sound, h.moves.kept⟩

theorem Shifts.trans (h : Shifts u hits hits' d d') (h' : Shifts u hits' hits'' d' d'') :
    Shifts u hits hits'' d d'' := ⟨h'.cached, h'.sound, h.moves.trans h'.moves⟩

theorem Guards.refl (h : Guards u hits d) : Shifts u hits hits d d :=
  ⟨h.cached, h.sound, h.kept.refl⟩

theorem stock_cached {c : CachedConnector (Traced σ)} (hc : d.connector = .cached c)
    (hits : List (Resource × CacheEntry)) : d.stock hits = c.stock d.ledger.resources hits := by
  unfold stock
  rw [hc]

theorem Guards.connector_kept (h : Guards u hits d) :
    ∃ c, d.connector = .cached c ∧ (c.stock d.ledger.resources hits).Kept u := by
  obtain ⟨c, hc⟩ := h.cached
  have hk := h.kept
  rw [stock_cached hc] at hk
  exact ⟨c, hc, hk⟩

theorem Shifts.of_cached {c c' : CachedConnector (Traced σ)} (hc : d.connector = .cached c)
    (hc' : d'.connector = .cached c') (hl : d'.ledger.Sound)
    (hm : (c.stock d.ledger.resources hits).Moves u (c'.stock d'.ledger.resources hits')) :
    Shifts u hits hits' d d' := by
  refine ⟨⟨c', hc'⟩, hl, ?_⟩
  rw [stock_cached hc, stock_cached hc']
  exact hm

/-- From one desk to another the stock moves, and so it does from any of these moments on. -/
structure Follows (u : Supply) (hits hits' : List (Resource × CacheEntry)) (ms : List Moment)
    (d d' : Desk (Tier (Traced σ))) : Prop where
  shifts : Shifts u hits hits' d d'
  moments : ∀ m ∈ ms, m.stock.Moves u (d'.stock hits')

variable {ms ms' : List Moment}

theorem Shifts.follows (h : Shifts u hits hits' d d') : Follows u hits hits' [] d d' :=
  ⟨h, List.forall_mem_nil _⟩

theorem Follows.trans (h : Follows u hits hits' ms d d') (h' : Follows u hits' hits'' ms' d' d'') :
    Follows u hits hits'' (ms ++ ms') d d'' := by
  refine ⟨h.shifts.trans h'.shifts, fun m hm => ?_⟩
  rcases List.mem_append.1 hm with hm | hm
  · exact (h.moments m hm).trans h'.shifts.moves
  · exact h'.moments m hm

theorem Follows.shift (h : Follows u hits hits' ms d d') (h' : Shifts u hits' hits'' d' d'') :
    Follows u hits hits'' ms d d'' :=
  ⟨h.shifts.trans h', fun m hm => (h.moments m hm).trans h'.moves⟩

/-! ### Calls on the connector -/

/-- The cached connector changes by itself. -/
theorem Guards.connector (h : Guards u hits d) {f : Tier (Traced σ) → Tier (Traced σ)}
    (hf : ∀ c, (c.stock d.ledger.resources hits).Kept u → ∃ c', f (.cached c) = .cached c' ∧
      (c.stock d.ledger.resources hits).Moves u (c'.stock d.ledger.resources hits)) :
    Shifts u hits hits d { d with connector := f d.connector } := by
  obtain ⟨c, hc, hk⟩ := h.connector_kept
  obtain ⟨c', hfc, hm⟩ := hf c hk
  rw [hc, hfc]
  exact .of_cached hc rfl h.sound hm

/-- Resources leave the ledger and are given back. -/
theorem Guards.release (h : Guards u hits d) {gone : List Resource} {reg : Registry}
    (hl : reg.ledger.Sound) (hp : d.ledger.resources.Perm (gone ++ reg.ledger.resources))
    (noCache : Bool) : Shifts u hits hits d
      ⟨reg, ((Tier.connector C.traced u.mint).release clock gone noCache d.connector).2⟩ := by
  obtain ⟨c, hc, hk⟩ := h.connector_kept
  rw [hc]
  exact .of_cached hc rfl hl (CachedConnector.release_moves clock hk hp noCache)

/-- Resources leave the ledger, and there is nothing to give back. -/
theorem Guards.forget (h : Guards u hits d) (reg : Registry) (hl : reg.ledger.Sound)
    (hp : d.ledger.resources.Perm reg.ledger.resources) :
    Shifts u hits hits d ⟨reg, d.connector⟩ := by
  obtain ⟨c, hc, hk⟩ := h.connector_kept
  exact .of_cached hc hc hl (hk.perm hp)

theorem giveBack_shifts (h : Guards u hits d)
    {removed : List Reservation} {l : Ledger} (hl : l.Sound)
    (hp : d.ledger.resources.Perm (removed.flatMap Reservation.resources ++ l.resources))
    (noCache : Bool) :
    Shifts u hits hits d
      ((d.setLedger l).giveBack (Tier.connector C.traced u.mint) clock removed noCache).2 := by
  unfold giveBack
  dsimp only
  split
  next he =>
    rw [List.isEmpty_iff.1 he] at hp
    exact h.forget (d.registry.setLedger l) hl hp
  next => exact h.release clock hl hp noCache

/-! ### Releases -/

theorem releaseWhere_shifts (h : Guards u hits d)
    (p : Reservation → Bool) (noCache : Bool) :
    Shifts u hits hits d
      (d.releaseWhere (Tier.connector C.traced u.mint) clock p noCache).2 :=
  giveBack_shifts clock h (Ledger.removeWhere_ledger h.sound p).1
    (Ledger.resources_removeWhere h.sound p) noCache

theorem release_shifts (h : Guards u hits d) (hd : HandleId)
    (id : ReservationId) (noCache : Bool) :
    Shifts u hits hits d
      (d.release (Tier.connector C.traced u.mint) clock hd id noCache).2 := by
  unfold release
  have hget : d.registry.get? id = d.ledger.get? id := rfl
  rw [hget]
  cases hr : d.ledger.get? id with
  | none => exact h.refl
  | some r =>
    have hid := h.sound.id_eq hr
    subst hid
    dsimp only
    split
    next =>
      refine giveBack_shifts clock h (h.sound.drop hr) ?_ noCache
      simpa using Ledger.resources_drop hr
    next => exact h.refl

theorem stop_shifts (h : Guards u hits d) :
    Shifts u hits hits d (d.stop (Tier.connector C.traced u.mint) clock).2 := by
  unfold stop
  split
  next => exact h.refl
  next =>
    have hstop : Shifts u hits hits d
        { d with registry := { d.registry with stopped := true } } :=
      h.forget _ h.sound (.refl _)
    have hall := releaseWhere_shifts (C := C) clock hstop.guards (fun _ => true) true
    refine (hstop.trans hall).trans ?_
    exact hall.guards.connector (f := fun t =>
      ((Tier.connector C.traced u.mint).unregister clock t).2) fun c hk =>
        ⟨_, rfl, CachedConnector.unregister_moves clock hk⟩

/-! ### Batches -/

/-- A batch passes a cached connector: the log has it, and the cache drops what it speaks of. -/
def Passing (x : Delivery (Tier (Traced σ))) : Prop :=
  ∀ c, ∃ c', x.passing (.cached c) = .cached c' ∧
    ∀ rs rs' hits, (c.stock rs hits).takesAll x.changes rs' = c'.stock rs' hits

theorem incoming_passing (cs : List Change) :
    Passing ⟨cs, (Tier.connector C.traced u.mint).incoming cs⟩ :=
  fun _ => ⟨_, rfl, fun _ _ _ => rfl⟩

theorem heard_passing (rs : List Resource) (c : CachedConnector (Traced σ)) :
    ∀ x ∈ (c.heard C.traced clock rs).map Tier.liftCached, Passing x := by
  intro x hx
  obtain ⟨y, hy, rfl⟩ := List.mem_map.1 hx
  unfold CachedConnector.heard at hy
  dsimp only at hy
  split at hy
  next =>
    obtain ⟨z, hz, rfl⟩ := List.mem_map.1 hy
    obtain ⟨w, hw, rfl⟩ := List.mem_map.1 hz
    exact fun _ => ⟨_, rfl, fun _ _ _ => rfl⟩
  next => simp at hy

/-- The moments of a batch that comes to a desk. -/
def moments (hits : List (Resource × CacheEntry)) (cs : List Change)
    (d : Desk (Tier (Traced σ))) : List Moment :=
  reportMoments clock cs { ledger := d.ledger } (d.stock hits)

theorem onChanges_desk {τ : Type} (T : Connector τ) (cs : List Change) (d : Desk τ) :
    (d.onChanges T clock cs).1.ledger = (d.ledger.midway clock cs).ledger ∧
      (d.onChanges T clock cs).1.connector =
        if (d.ledger.midway clock cs).toRelease.isEmpty then d.connector
        else (T.release clock (d.ledger.midway clock cs).toRelease false d.connector).2 := by
  unfold onChanges
  split
  next he =>
    rw [List.isEmpty_iff.1 he]
    exact ⟨rfl, rfl⟩
  next =>
    change _ ∧ _ = if (d.registry.ledger.reconcile clock cs).toRelease.isEmpty then _ else _
    dsimp only
    split
    next => exact ⟨rfl, rfl⟩
    next => exact ⟨rfl, rfl⟩

/-- What a batch frees is still outside the cache, and is given back at its end. -/
theorem giveUp_moves {b : Ledger.Batch} {c : CachedConnector (Traced σ)}
    (h : (c.stock b.resources hits).Kept u) :
    ∃ c', (if b.toRelease.isEmpty then Tier.cached c
      else ((Tier.connector C.traced u.mint).release clock b.toRelease false (.cached c)).2) =
        .cached c' ∧
      (c.stock b.resources hits).Moves u (c'.stock b.ledger.resources hits) := by
  split
  next he =>
    have hres : b.resources = b.ledger.resources := by
      unfold Ledger.Batch.resources
      rw [List.isEmpty_iff.1 he, List.append_nil]
    rw [← hres]
    exact ⟨c, rfl, h.refl⟩
  next =>
    exact ⟨_, rfl, CachedConnector.release_moves clock h List.perm_append_comm false⟩

theorem receive_follows (h : Guards u hits d) {x : Delivery (Tier (Traced σ))} (hx : Passing x)
    (hs : ∀ m ∈ d.moments clock hits x.changes, m.Spared) :
    Follows u hits hits (d.moments clock hits x.changes) d
      (d.receive (Tier.connector C.traced u.mint) clock x).1 := by
  obtain ⟨c, hc⟩ := h.cached
  obtain ⟨c', hxc, hend⟩ := hx c
  have hst := stock_cached hc hits
  have hres : (d.stock hits).resources = ({ ledger := d.ledger } : Ledger.Batch).resources := by
    rw [hst]
    exact (List.append_nil _).symm
  have hmid : ∀ m ∈ d.moments clock hits x.changes, m.stock.Moves u
      (c'.stock (d.ledger.midway clock x.changes).resources hits) := by
    rw [← hend d.ledger.resources, ← hst]
    exact reports_move clock h.sound h.kept hres hs
  obtain ⟨first, hfirst, hfirstst⟩ :=
    reportMoments_first clock x.changes { ledger := d.ledger } (d.stock hits)
  have hstart := hmid first hfirst
  rw [hfirstst] at hstart
  obtain ⟨c'', hconn, hm⟩ := giveUp_moves (C := C) clock hstart.kept
  obtain ⟨hl', hconn'⟩ := onChanges_desk clock (Tier.connector C.traced u.mint) x.changes
    { d with connector := x.passing d.connector }
  have hl : (d.receive (Tier.connector C.traced u.mint) clock x).1.ledger =
    (d.ledger.midway clock x.changes).ledger := hl'
  have hc'' : (d.receive (Tier.connector C.traced u.mint) clock x).1.connector = .cached c'' := by
    rw [← hconn, ← hxc, ← hc]
    exact hconn'
  have hfin : (d.receive (Tier.connector C.traced u.mint) clock x).1.stock hits =
      c''.stock (d.ledger.midway clock x.changes).ledger.resources hits := by
    rw [stock_cached hc'', hl]
  refine ⟨⟨⟨c'', hc''⟩, ?_, ?_⟩, fun m hmm => ?_⟩
  · rw [hl]
    exact (Ledger.midway_succeeds h.sound clock x.changes).sound
  · rw [hfin]
    exact hstart.trans hm
  · rw [hfin]
    exact (hmid m hmm).trans hm

/-- The moments of batches that come one after the other. -/
def heardMoments (T : Connector (Tier (Traced σ))) (hits : List (Resource × CacheEntry)) :
    List (Delivery (Tier (Traced σ))) → Desk (Tier (Traced σ)) → List Moment
  | [], _ => []
  | x :: xs, d => d.moments clock hits x.changes ++ heardMoments T hits xs (d.receive T clock x).1

theorem receiveAll_follows (h : Guards u hits d) {xs : List (Delivery (Tier (Traced σ)))}
    (hx : ∀ x ∈ xs, Passing x)
    (hs : ∀ m ∈ heardMoments clock (Tier.connector C.traced u.mint) hits xs d, m.Spared) :
    Follows u hits hits (heardMoments clock (Tier.connector C.traced u.mint) hits xs d) d
      (receiveAll (Tier.connector C.traced u.mint) clock xs d).1 := by
  induction xs generalizing d with
  | nil => exact h.refl.follows
  | cons x xs ih =>
    have hone := receive_follows (C := C) clock h (hx x (List.mem_cons_self ..))
      fun m hm => hs m (List.mem_append_left _ hm)
    have hrest := ih hone.shifts.guards (fun y hy => hx y (List.mem_cons_of_mem _ hy))
      fun m hm => hs m (List.mem_append_right _ hm)
    exact hone.trans hrest

theorem receiveAll_append {τ : Type} (T : Connector τ) (xs ys : List (Delivery τ)) (d : Desk τ) :
    (receiveAll T clock (xs ++ ys) d).1 =
      (receiveAll T clock ys (receiveAll T clock xs d).1).1 := by
  induction xs generalizing d with
  | nil => rfl
  | cons x xs ih =>
    rw [List.cons_append]
    exact ih (d.receive T clock x).1

/-- The cache reports its hits. -/
theorem hits_shifts (h : Guards u hits d) :
    Shifts u hits [] d (receiveAll (Tier.connector C.traced u.mint) clock
      ((CachedConnector.hitDelivery hits).map Tier.liftCached) d).1 := by
  cases hits with
  | nil => exact h.refl
  | cons q hits =>
    obtain ⟨c, hc, hk⟩ := h.connector_kept
    let cs := (q :: hits).map fun q => Change.allocated q.1.id q.2.allocation
    obtain ⟨hrel, hm⟩ := hits_move clock (b := { ledger := d.ledger }) h.sound rfl hk rfl rfl
    obtain ⟨hl, hconn⟩ := onChanges_desk clock (Tier.connector C.traced u.mint) cs
      { d with connector := Tier.modifyCached id d.connector }
    change (d.ledger.midway clock cs).toRelease = [] at hrel
    change _ = (d.ledger.midway clock cs).ledger at hl
    change _ = if (d.ledger.midway clock cs).toRelease.isEmpty then _ else _ at hconn
    rw [hrel, if_pos List.isEmpty_nil, hc] at hconn
    change Shifts u (q :: hits) [] d (onChanges (Tier.connector C.traced u.mint) clock cs
      { d with connector := Tier.modifyCached id d.connector }).1
    rw [hc] at hl ⊢
    refine .of_cached hc hconn ?_ ?_
    · rw [hl]
      exact (Ledger.midway_succeeds h.sound clock cs).sound
    · rw [hl]
      exact hm

/-! ### Placing -/

def placeMoments (C : Connector σ) (u : Supply) (r : Reservation)
    (d : Desk (Tier (Traced σ))) : List Moment :=
  if d.registry.stopped then []
  else match d.registry.ledger.insert r, d.connector with
    | .ok l, .cached c =>
      heardMoments clock (Tier.connector C.traced u.mint) (c.served C.traced clock r.resources)
        ((c.heard C.traced clock r.resources).map Tier.liftCached)
        { d.setLedger l with connector := .cached (c.reserve C.traced clock r.resources).2.2 }
    | _, _ => []

/-- What can be placed at any time, with resource ids that are not of the supply. -/
structure Placeable (u : Supply) (r : Reservation) : Prop where
  fresh : r.Fresh
  unminted : ∀ id ∈ r.resourceIds, ∀ n < u.size, id ≠ u.mint n

theorem enter_shifts (h : Guards u [] d) {r : Reservation} (hr : Placeable u r)
    (hc : d.ledger.conflict? r = none) :
    Shifts u [] [] d (d.setLedger (d.ledger.add r)) := by
  obtain ⟨c, hconn, hk⟩ := h.connector_kept
  have hsound := h.sound.add hr.fresh.sound hc
  have hun : ∀ x ∈ r.resources, ∀ n < u.size, x.id ≠ u.mint n :=
    fun x hx => hr.unminted x.id (List.mem_map_of_mem hx)
  exact .of_cached hconn hconn hsound
    (hk.enter rfl (Ledger.resources_add (Ledger.conflict?_eq_none_iff.1 hc).1)
      hr.fresh.allocation_eq_none hsound.resources_nodup hun)

section

variable {c : CachedConnector (Traced σ)} {reg : Registry} {r : Reservation}

/-- The submission fails, and what was to be placed is dropped. -/
theorem withdraw_shifts (h : Guards u [] ⟨reg, .cached c⟩) (hr : reg.ledger.get? r.id = some r)
    (hf : r.Fresh) {f : ConnectorFault} (ha : (c.reserve C.traced clock r.resources).1 = .error f) :
    Shifts u [] [] ⟨reg, .cached c⟩ ⟨reg.setLedger (reg.ledger.remove r.id).2,
      .cached (c.reserve C.traced clock r.resources).2.2⟩ := by
  have hgone : (reg.ledger.remove r.id).2 = reg.ledger.drop r := by
    unfold Ledger.remove
    rw [hr]
  rw [hgone]
  exact .of_cached rfl rfl (h.sound.drop hr) (CachedConnector.reserve_failed clock h.kept
    h.sound.resources_nodup ((Ledger.resources_drop hr).trans List.perm_append_comm)
    hf.allocation_eq_none ha)

/-- The submission succeeds: the manager's reports come first, and then the hits. -/
theorem submit_follows (h : Guards u [] ⟨reg, .cached c⟩) (hr : reg.ledger.get? r.id = some r)
    (hf : r.Fresh) (ha : (c.reserve C.traced clock r.resources).1 = .ok ())
    (hs : ∀ m ∈ heardMoments clock (Tier.connector C.traced u.mint)
      (c.served C.traced clock r.resources)
      ((c.heard C.traced clock r.resources).map Tier.liftCached)
      ⟨reg, .cached (c.reserve C.traced clock r.resources).2.2⟩, m.Spared) :
    Follows u [] [] (heardMoments clock (Tier.connector C.traced u.mint)
      (c.served C.traced clock r.resources)
      ((c.heard C.traced clock r.resources).map Tier.liftCached)
      ⟨reg, .cached (c.reserve C.traced clock r.resources).2.2⟩) ⟨reg, .cached c⟩
      (receiveAll (Tier.connector C.traced u.mint) clock
        ((c.reserve C.traced clock r.resources).2.1.map Tier.liftCached)
        ⟨reg, .cached (c.reserve C.traced clock r.resources).2.2⟩).1 := by
  obtain ⟨hdel, hm⟩ := CachedConnector.reserve_done clock h.kept h.sound.resources_nodup
    ((Ledger.resources_drop hr).trans List.perm_append_comm) hf.allocation_eq_none ha
  have hserve : Shifts u [] (c.served C.traced clock r.resources) ⟨reg, .cached c⟩
      ⟨reg, .cached (c.reserve C.traced clock r.resources).2.2⟩ := .of_cached rfl rfl h.sound hm
  have hheard := receiveAll_follows clock hserve.guards (heard_passing clock r.resources c) hs
  rw [hdel, List.map_append, receiveAll_append]
  exact (hserve.follows.trans hheard).shift (hits_shifts clock hheard.shifts.guards)

end

section

variable {τ : Type} {T : Connector τ} {e : Desk τ} {r : Reservation} {l : Ledger}
  {ds : List (Delivery τ)} {t : τ}

theorem place_failed (hs : ¬ e.registry.stopped = true) (hi : e.registry.ledger.insert r = .ok l)
    {f : ConnectorFault} (ha : T.reserve clock r.resources e.connector = (.error f, ds, t)) :
    (e.place T clock r).desk =
      (receiveAll T clock ds { e.setLedger l with connector := t }).1.setLedger
        ((receiveAll T clock ds { e.setLedger l with connector := t }).1.ledger.remove r.id).2 := by
  have ha' : T.reserve clock r.resources (e.setLedger l).connector = (.error f, ds, t) := ha
  unfold place
  rw [if_neg hs]
  simp only [hi, ha']
  rfl

theorem place_done (hs : ¬ e.registry.stopped = true) (hi : e.registry.ledger.insert r = .ok l)
    (ha : T.reserve clock r.resources e.connector = (.ok (), ds, t)) :
    ∃ reg : Registry, (e.place T clock r).desk =
        ⟨reg, (receiveAll T clock ds { e.setLedger l with connector := t }).1.connector⟩ ∧
      reg.ledger = (receiveAll T clock ds { e.setLedger l with connector := t }).1.ledger := by
  have ha' : T.reserve clock r.resources (e.setLedger l).connector = (.ok (), ds, t) := ha
  unfold place
  rw [if_neg hs]
  simp only [hi, ha']
  exact ⟨_, rfl, rfl⟩

end

theorem place_follows (hC : C.Silent) (h : Guards u [] d) {r : Reservation} (hr : Placeable u r)
    (hs : ∀ m ∈ d.placeMoments clock C u r, m.Spared) :
    Follows u [] [] (d.placeMoments clock C u r) d
      (d.place (Tier.connector C.traced u.mint) clock r).desk := by
  obtain ⟨reg, conn⟩ := d
  obtain ⟨c, hc⟩ := h.cached
  change conn = .cached c at hc
  subst hc
  by_cases hstop : reg.stopped = true
  · unfold placeMoments place
    simp only [hstop, if_true]
    exact h.refl.follows
  cases hi : reg.ledger.insert r with
  | error f =>
    unfold placeMoments place
    simp only [hstop, hi]
    exact h.refl.follows
  | ok l =>
    unfold placeMoments at hs ⊢
    rw [if_neg hstop] at hs ⊢
    simp only [hi] at hs ⊢
    obtain ⟨hconf, rfl⟩ := insert_eq_ok hi
    have henter := enter_shifts h hr hconf
    have hself : (reg.ledger.add r).get? r.id = some r := by simp
    have hres : (Tier.connector C.traced u.mint).reserve clock r.resources (.cached c) =
        ((c.reserve C.traced clock r.resources).1,
          (c.reserve C.traced clock r.resources).2.1.map Tier.liftCached,
          .cached (c.reserve C.traced clock r.resources).2.2) := rfl
    cases ha : (c.reserve C.traced clock r.resources).1 with
    | error f =>
      have hgone := withdraw_shifts clock henter.guards hself hr.fresh ha
      rw [ha, CachedConnector.reserve_silent (Connector.traced_silent hC) clock r.resources c ha]
        at hres
      rw [CachedConnector.heard_failed clock hC ha, place_failed clock hstop hi hres]
      exact (henter.trans hgone).follows
    | ok _ =>
      rw [ha] at hres
      obtain ⟨reg', hdesk, hled⟩ := place_done clock (e := ⟨reg, Tier.cached c⟩) hstop hi hres
      have hsubmit := submit_follows clock henter.guards hself hr.fresh ha hs
      have hlast := hsubmit.shifts.guards.forget reg' (by rw [hled]; exact hsubmit.shifts.sound)
        (by rw [hled]; exact .refl _)
      rw [hdesk]
      exact (henter.follows.trans hsubmit).shift hlast

end ClusterBroker.Desk
