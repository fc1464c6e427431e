import ClusterBroker.Proofs.Custody.Barred

/-!
# What a desk keeps out of its cache

What the manager calls `m` is barred from a desk if its cached connector does not have it, and if
only the resource `k` may still hold it, which is in no gang that could be torn down. Then nothing
but a release of that resource offers it to the cache. So it stays barred as long as no such release
may use the cache, and the manager does not hand it out again.
-/
namespace ClusterBroker.Desk

variable {σ : Type} {C : Connector σ} {mint : Nat → ResourceId} (clock : Time) {m : ManagerId}
  {k : ResourceId} {n : Nat} {d : Desk (Tier (Traced σ))}

/-- What the manager calls `m` is held by the resource `k` at most, which is not in a gang that may
still be torn down; it is not in the cache, and so far was renamed `n` times. -/
structure Barred (m : ManagerId) (k : ResourceId) (n : Nat) (d : Desk (Tier (Traced σ))) :
    Prop where
  sound : d.ledger.Sound
  only : d.ledger.Only m k
  firm : d.ledger.Firm m
  connector : ∃ c, d.connector = .cached c ∧ c.Barred m n

/-- Reservations leave the ledger. -/
theorem Barred.forget (h : d.Barred m k n) {reg : Registry} (hs : reg.ledger.Sound)
    (hsub : ∀ id r, reg.ledger.get? id = some r → d.ledger.get? id = some r) :
    Barred m k n ⟨reg, d.connector⟩ :=
  ⟨hs, h.only.of_sub hsub, h.firm.of_sub hsub, h.connector⟩

/-- The connector is called. -/
theorem Barred.call (h : d.Barred m k n) {f : Tier (Traced σ) → Tier (Traced σ)}
    (hf : ∀ c : CachedConnector (Traced σ), c.Barred m n →
      ∃ c', f (.cached c) = .cached c' ∧ c'.Barred m n) :
    Barred m k n { d with connector := f d.connector } := by
  obtain ⟨c, hc, hb⟩ := h.connector
  obtain ⟨c', hfc, hb'⟩ := hf c hb
  refine ⟨h.sound, h.only, h.firm, c', ?_, hb'⟩
  rw [hc]
  exact hfc

/-! ### Batches -/

/-- A batch on its way up keeps what the manager calls `m` out of the cache. -/
def Harmless (m : ManagerId) (x : Delivery (Tier (Traced σ))) : Prop :=
  (∀ c ∈ x.changes, c.grants m = false) ∧
    ∀ {n} {c : CachedConnector (Traced σ)}, c.Barred m n →
      ∃ c', x.passing (.cached c) = .cached c' ∧ c'.Barred m n

theorem Passing.harmless {x : Delivery (Tier (Traced σ))} (hx : Passing x)
    (hc : ∀ c ∈ x.changes, c.grants m = false) : Harmless m x := by
  refine ⟨hc, fun {n c} h => ?_⟩
  obtain ⟨c', he, hst⟩ := hx c
  have hcache := congrArg Stock.cache (hst [] [] [])
  have hlog := congrArg Stock.log (hst [] [] [])
  refine ⟨c', he, ?_, ?_⟩
  · rw [show c'.cache = _ from hcache.symm]
    exact h.lacks.invalidateAll _
  · rw [show c'.inner.log = _ from hlog.symm]
    exact (renamings_reported m _ _).trans h.count_eq

theorem hitDelivery_harmless {hits : List (Resource × CacheEntry)}
    (hh : ∀ q ∈ hits, q.2.allocation.managerId ≠ m) {x : Delivery (Tier (Traced σ))}
    (hx : x ∈ (CachedConnector.hitDelivery hits).map Tier.liftCached) : Harmless m x := by
  obtain ⟨y, hy, rfl⟩ := List.mem_map.1 hx
  unfold CachedConnector.hitDelivery at hy
  split at hy
  next => simp at hy
  next =>
    rw [List.mem_singleton.1 hy]
    refine ⟨fun c hc => ?_, fun {n c} h => ⟨c, rfl, h⟩⟩
    obtain ⟨q, hq, rfl⟩ := List.mem_map.1 hc
    exact decide_eq_false (hh q hq)

/-- What a batch leaves behind, if what it gives back is nothing that the manager calls `m`. -/
theorem onChanges_barred_of {cs : List Change} (h : d.ledger.Sound)
    (ho : (d.ledger.midway clock cs).ledger.Only m k)
    (hf : (d.ledger.midway clock cs).ledger.Firm m)
    (hrel : ∀ x ∈ (d.ledger.midway clock cs).toRelease, x.holds m = false)
    (hc : ∃ c, d.connector = .cached c ∧ c.Barred m n) :
    ((d.onChanges (Tier.connector C.traced mint) clock cs).1).Barred m k n := by
  obtain ⟨hl, hconn⟩ := onChanges_desk clock (Tier.connector C.traced mint) cs d
  obtain ⟨c, hc, hb⟩ := hc
  constructor
  · rw [hl]
    exact (Ledger.midway_succeeds h clock cs).sound
  · rw [hl]
    exact ho
  · rw [hl]
    exact hf
  · rw [hconn, hc]
    split
    next => exact ⟨c, rfl, hb⟩
    next => exact ⟨_, rfl, CachedConnector.release_barred clock hb (.inr hrel)⟩

theorem receive_barred (h : d.Barred m k n) {x : Delivery (Tier (Traced σ))} (hx : Harmless m x) :
    (d.receive (Tier.connector C.traced mint) clock x).1.Barred m k n := by
  have hpass : Barred m k n { d with connector := x.passing d.connector } :=
    h.call fun c hc => hx.2 hc
  apply onChanges_barred_of (d := { d with connector := x.passing d.connector }) clock hpass.sound
  · exact Ledger.Batch.foldl_only hpass.only hpass.sound hx.1
  · exact Ledger.Batch.foldl_firm hpass.firm hpass.sound hx.1
  · exact Ledger.Batch.foldl_toRelease hpass.firm hpass.sound hx.1 (List.forall_mem_nil _)
  · exact hpass.connector

theorem receiveAll_barred (h : d.Barred m k n) {xs : List (Delivery (Tier (Traced σ)))}
    (hx : ∀ x ∈ xs, Harmless m x) :
    (receiveAll (Tier.connector C.traced mint) clock xs d).1.Barred m k n := by
  induction xs generalizing d with
  | nil => exact h
  | cons x xs ih =>
    exact ih (receive_barred clock h (hx x (List.mem_cons_self ..)))
      fun y hy => hx y (List.mem_cons_of_mem _ hy)

/-! ### Placing -/

/-- What the manager reports while the resources of a reservation are submitted. -/
def reportsOn (C : Connector σ) (r : Reservation) (d : Desk (Tier (Traced σ))) : List Change :=
  match d.connector with
  | .plain _ => []
  | .cached c => (c.heard C.traced clock r.resources).flatMap Delivery.changes

/-- A new reservation is tracked, and what is reported while it is submitted is taken in. -/
theorem submit_barred (h : d.Barred m k n) {c : CachedConnector (Traced σ)}
    (hconn : d.connector = .cached c) {r : Reservation} (hr : r.Fresh)
    (hconf : d.ledger.conflict? r = none) (hc : ∀ c ∈ d.reportsOn clock C r, c.grants m = false) :
    Barred m k n (receiveAll (Tier.connector C.traced mint) clock
      ((c.reserve C.traced clock r.resources).2.1.map Tier.liftCached)
      { d.setLedger (d.registry.ledger.add r) with
        connector := .cached (c.reserve C.traced clock r.resources).2.2 }).1 := by
  have hb : c.Barred m n := by
    obtain ⟨c', hc', hb⟩ := h.connector
    rw [hconn] at hc'
    exact Tier.cached.inj hc' ▸ hb
  obtain ⟨hres, hits, hh, hdel⟩ := CachedConnector.reserve_barred (C := C) clock hb r.resources
  unfold reportsOn at hc
  rw [hconn] at hc
  apply receiveAll_barred clock
  · exact ⟨h.sound.add hr.sound hconf, h.only.add hr, h.firm.add hr, _, rfl, hres⟩
  · intro x hx
    rw [hdel, List.map_append] at hx
    rcases List.mem_append.1 hx with hx | hx
    · apply (heard_passing clock r.resources c x hx).harmless
      intro y hy
      apply hc y
      obtain ⟨z, hz, rfl⟩ := List.mem_map.1 hx
      exact List.mem_flatMap.2 ⟨z, hz, hy⟩
    · exact hitDelivery_harmless hh hx

theorem place_barred (h : d.Barred m k n) {r : Reservation} (hr : r.Fresh)
    (hc : ∀ c ∈ d.reportsOn clock C r, c.grants m = false) :
    (d.place (Tier.connector C.traced mint) clock r).desk.Barred m k n := by
  by_cases hstop : d.registry.stopped = true
  · unfold place
    rw [if_pos hstop]
    exact h
  cases hi : d.registry.ledger.insert r with
  | error f =>
    unfold place
    rw [if_neg hstop, hi]
    exact h
  | ok l =>
    obtain ⟨hconf, rfl⟩ := insert_eq_ok hi
    obtain ⟨c, hconn, -⟩ := h.connector
    have hall : Barred m k n (receiveAll (Tier.connector C.traced mint) clock
        ((c.reserve C.traced clock r.resources).2.1.map Tier.liftCached)
        { d.setLedger (d.registry.ledger.add r) with
          connector := .cached (c.reserve C.traced clock r.resources).2.2 }).1 :=
      submit_barred clock h hconn hr hconf hc
    have hcall : (Tier.connector C.traced mint).reserve clock r.resources d.connector =
        ((c.reserve C.traced clock r.resources).1,
          (c.reserve C.traced clock r.resources).2.1.map Tier.liftCached,
          .cached (c.reserve C.traced clock r.resources).2.2) := by
      rw [hconn]
      rfl
    cases ha : (c.reserve C.traced clock r.resources).1 with
    | error f =>
      rw [ha] at hcall
      rw [place_failed clock hstop hi hcall]
      obtain ⟨hs, hg⟩ := Ledger.remove_ledger hall.sound r.id
      apply hall.forget hs
      intro id t ht
      have hleft := (hg id).symm.trans ht
      split at hleft
      next => simp at hleft
      next => exact hleft
    | ok _ =>
      rw [ha] at hcall
      obtain ⟨reg, hdesk, hled⟩ := place_done clock hstop hi hcall
      rw [hdesk]
      apply hall.forget
      · rw [hled]
        exact hall.sound
      · intro id t ht
        rw [← hled]
        exact ht

/-! ### Releasing -/

/-- Reservations leave the ledger and are given back, but nothing that the manager calls `m` is
offered to the cache. -/
theorem giveBack_barred (h : d.Barred m k n) {removed : List Reservation} {reg : Registry}
    (hs : reg.ledger.Sound) (hsub : ∀ id r, reg.ledger.get? id = some r → d.ledger.get? id = some r)
    {noCache : Bool}
    (hr : noCache = true ∨ ∀ r ∈ removed, ∀ x ∈ r.resources, x.holds m = false) :
    Barred m k n (giveBack (Tier.connector C.traced mint) clock removed noCache
      ⟨reg, d.connector⟩).2 := by
  have hleft := h.forget hs hsub
  unfold giveBack
  dsimp only
  split
  next => exact hleft
  next =>
    have hoffered : noCache = true ∨ ∀ x ∈ removed.flatMap Reservation.resources,
        x.holds m = false := by
      refine hr.imp_right fun hr x hx => ?_
      obtain ⟨r, hmem, hxr⟩ := List.mem_flatMap.1 hx
      exact hr r hmem x hxr
    have hcall := hleft.call (f := fun t => ((Tier.connector C.traced mint).release clock
      (removed.flatMap Reservation.resources) noCache t).2) fun c hc =>
        ⟨_, rfl, CachedConnector.release_barred clock hc hoffered⟩
    exact ⟨hcall.sound, hcall.only, hcall.firm, hcall.connector⟩

/-- A reservation without the resource `k` holds nothing that the manager calls `m`. -/
theorem Barred.spares (h : d.Barred m k n) {id : ReservationId} {r : Reservation}
    (hr : d.ledger.get? id = some r) (hk : k ∉ r.resourceIds) :
    ∀ x ∈ r.resources, x.holds m = false := by
  intro x hx
  cases hm : x.holds m with
  | false => rfl
  | true =>
    have hxk : x.id = k := h.only id r hr x hx hm
    rw [← hxk] at hk
    exact absurd (List.mem_map_of_mem hx) hk

theorem release_barred (h : d.Barred m k n) (hd : HandleId) (id : ReservationId) {noCache : Bool}
    (hk : noCache = true ∨
      ∀ r, d.ledger.get? id = some r → r.handle = hd → k ∉ r.resourceIds) :
    (d.release (Tier.connector C.traced mint) clock hd id noCache).2.Barred m k n := by
  unfold release
  rw [show d.registry.get? id = d.ledger.get? id from rfl]
  cases hr : d.ledger.get? id with
  | none => exact h
  | some r =>
    have hid := h.sound.id_eq hr
    subst hid
    dsimp only
    split
    next hh =>
      apply giveBack_barred clock h (h.sound.drop hr)
      · intro id s hs
        rw [show (d.registry.setLedger (d.registry.ledger.drop r)).ledger.get? id =
          (d.ledger.drop r).get? id from rfl, Ledger.get?_drop] at hs
        split at hs
        next => simp at hs
        next => exact hs
      · refine hk.imp_right fun hk s hs => ?_
        rw [List.mem_singleton.1 hs]
        exact h.spares (r := r) hr (hk r hr hh)
    next => exact h

theorem releaseWhere_barred (h : d.Barred m k n) (p : Reservation → Bool) {noCache : Bool}
    (hk : noCache = true ∨
      ∀ id r, d.ledger.get? id = some r → p r = true → k ∉ r.resourceIds) :
    (d.releaseWhere (Tier.connector C.traced mint) clock p noCache).2.Barred m k n := by
  obtain ⟨hs, hg⟩ := Ledger.removeWhere_ledger h.sound p
  apply giveBack_barred clock h hs
  · intro id s hs
    have hleft := (hg id).symm.trans hs
    split at hleft
    next => simp at hleft
    next => exact hleft
  · refine hk.imp_right fun hk s hs => ?_
    obtain ⟨r, hr, hp, rfl⟩ := (Ledger.mem_removeWhere h.sound).1 hs
    exact h.spares (r := r) hr (hk r.id r hr hp)

theorem stop_barred (h : d.Barred m k n) :
    (d.stop (Tier.connector C.traced mint) clock).2.Barred m k n := by
  unfold stop
  split
  next => exact h
  next =>
    have hstop : Barred m k n { d with registry := { d.registry with stopped := true } } :=
      h.forget h.sound fun _ _ hr => hr
    have hall : Barred m k n (releaseWhere (Tier.connector C.traced mint) clock (fun _ => true) true
        { d with registry := { d.registry with stopped := true } }).2 :=
      releaseWhere_barred clock hstop _ (.inl rfl)
    exact hall.call (f := fun t => ((Tier.connector C.traced mint).unregister clock t).2)
      fun c hc => ⟨_, rfl, CachedConnector.unregister_barred clock hc⟩

/-! ### The manager stops, and upkeep -/

/-- When the manager stops, the cache is empty and nothing is given back. -/
theorem onHaltedIn_barred_of {order : Ledger → List ResourceId} (h : d.ledger.Sound)
    (ho : d.ledger.Only m k)
    (hf : (d.ledger.midway clock ((order d.ledger).map .lost)).ledger.Firm m)
    (hc : ∃ c, d.connector = .cached c ∧ renamings m c.inner.log = n) :
    (d.onHaltedIn order (Tier.connector C.traced mint) clock).1.Barred m k n := by
  have hlost : ∀ x ∈ (order d.ledger).map Change.lost, x.grants m = false := by
    intro x hx
    obtain ⟨id, -, rfl⟩ := List.mem_map.1 hx
    rfl
  obtain ⟨c, hc, hn⟩ := hc
  constructor
  · exact (Ledger.midway_succeeds h clock _).sound
  · exact Ledger.Batch.foldl_only ho h hlost
  · exact hf
  · refine ⟨c.halted C.traced, ?_, ?_, ?_⟩
    · unfold onHaltedIn
      dsimp only
      rw [hc]
      rfl
    · exact (List.forall_mem_nil _ : ∀ e ∈ [], _)
    · exact (renamings_concat rfl).trans hn

theorem onHaltedIn_barred (h : d.Barred m k n) (order : Ledger → List ResourceId) :
    (d.onHaltedIn order (Tier.connector C.traced mint) clock).1.Barred m k n := by
  apply onHaltedIn_barred_of clock h.sound h.only
  · apply Ledger.Batch.foldl_firm h.firm h.sound
    intro x hx
    obtain ⟨id, -, rfl⟩ := List.mem_map.1 hx
    rfl
  · obtain ⟨c, hc, hb⟩ := h.connector
    exact ⟨c, hc, hb.count_eq⟩

theorem Upkeep.barred {f : Tier (Traced σ) → Tier (Traced σ)} (hf : Upkeep C clock f)
    (h : d.Barred m k n) : Barred m k n { d with connector := f d.connector } := by
  refine h.call fun c hc => ?_
  cases hf with
  | sweep => exact ⟨_, rfl, CachedConnector.evict_barred clock hc⟩
  | drain => exact ⟨_, rfl, CachedConnector.stop_barred clock hc⟩
  | inner f => exact ⟨_, rfl, hc.congr rfl rfl⟩

/-! ### Runs -/

/-- The operation does not offer the resource `k` to the cache, and the manager does not hand out
what it calls `m` meanwhile. -/
def Op.Avoids (C : Connector σ) (m : ManagerId) (k : ResourceId) (clock : Time)
    (d : Desk (Tier (Traced σ))) : Op (Tier (Traced σ)) → Prop
  | .reserve id q => ∀ c ∈ d.reportsOn clock C (.ofRequest id q clock), c.grants m = false
  | .place r => r.Fresh ∧ ∀ c ∈ d.reportsOn clock C r, c.grants m = false
  | .release h id noCache => noCache = true ∨
      ∀ r, d.ledger.get? id = some r → r.handle = h → k ∉ r.resourceIds
  | .releaseHandle h noCache => noCache = true ∨
      ∀ id r, d.ledger.get? id = some r → r.handle = h → k ∉ r.resourceIds
  | .releaseQueue q noCache => noCache = true ∨
      ∀ id r, d.ledger.get? id = some r → r.queue = q → k ∉ r.resourceIds
  | .deliver cs => ∀ c ∈ cs, c.grants m = false
  | .tend f => Upkeep C clock f
  | _ => True

theorem Op.run_barred (h : d.Barred m k n) {op : Op (Tier (Traced σ))}
    (hop : op.Avoids C m k clock d) :
    (op.run (Tier.connector C.traced mint) clock d).1.Barred m k n := by
  cases op with
  | reserve id q =>
    dsimp only [run]
    unfold Desk.reserve
    cases hf : q.fault? with
    | some f => exact h
    | none => exact place_barred clock h (Reservation.fresh_ofRequest id clock hf) hop
  | place r => exact place_barred clock h hop.1 hop.2
  | release hd id noCache => exact release_barred clock h hd id hop
  | releaseHandle hd noCache =>
    refine releaseWhere_barred clock h _ (hop.imp_right fun hk id r hr hp => ?_)
    exact hk id r hr (of_decide_eq_true hp)
  | releaseQueue q noCache =>
    refine releaseWhere_barred clock h _ (hop.imp_right fun hk id r hr hp => ?_)
    exact hk id r hr (of_decide_eq_true hp)
  | start =>
    exact h.call (f := fun t => ((Tier.connector C.traced mint).register d.registry.queue t).2)
      fun c hc => ⟨_, rfl, CachedConnector.register_barred hc _⟩
  | nodes =>
    exact h.call (f := fun t => ((Tier.connector C.traced mint).nodes t).2)
      fun c hc => ⟨_, rfl, hc.congr rfl rfl⟩
  | deliver cs =>
    have hpass : Passing ⟨cs, (Tier.connector C.traced mint).incoming cs⟩ :=
      fun _ => ⟨_, rfl, fun _ _ _ => rfl⟩
    exact receive_barred clock h (hpass.harmless hop)
  | halt order => exact onHaltedIn_barred clock h order
  | stop => exact stop_barred clock h
  | tend f => exact Upkeep.barred clock hop h

/-- No operation of the run offers the resource `k` to the cache, and the manager does not hand out
what it calls `m`. -/
def Avoids (C : Connector σ) (mint : Nat → ResourceId) (m : ManagerId) (k : ResourceId) :
    List (Time × Op (Tier (Traced σ))) → Desk (Tier (Traced σ)) → Prop
  | [], _ => True
  | e :: run, d => e.2.Avoids C m k e.1 d ∧
      Avoids C mint m k run (e.2.run (Tier.connector C.traced mint) e.1 d).1

theorem after_barred (h : d.Barred m k n) {run : List (Time × Op (Tier (Traced σ)))}
    (hrun : Avoids C mint m k run d) :
    (after (Tier.connector C.traced mint) run d).Barred m k n := by
  induction run generalizing d with
  | nil => exact h
  | cons e run ih =>
    rw [after_cons]
    exact ih (Op.run_barred e.1 h hrun.1) hrun.2

end ClusterBroker.Desk
