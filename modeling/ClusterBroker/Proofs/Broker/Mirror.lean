import ClusterBroker.Proofs.Broker.Admission
import ClusterBroker.Proofs.Ledger.Removal

/-!
# A broker without its supervisor

Without a supervisor, clients listen to the registry themselves. A broker mirrors a supervised one
if it is the same but for the supervisor: the desk is the same, the same clients are on the list
under the same ids, and they have heard the same. Clients that leave by themselves do not count,
since a client on the registry's list still hears the rest of the batch.

While nothing waits, every operation at the desk is the same operation on both sides, so both
sides stay mirror images, and they answer alike.
-/
namespace ClusterBroker

/-! ### Rounds that change nothing -/

namespace GangControl

variable {c : GangControl} {l : Ledger}

theorem Agrees.filed (h : c.Agrees l [] []) : c.Filed := by
  intro id hs hn
  have hk := (h.known_iff id).2 (.inl (Option.isSome_iff_ne_none.2 hs))
  rw [hn] at hk
  simp at hk

/-- A round that draws somebody picks it, since it is known; one that picks nobody drew nobody. -/
theorem pick_eq_self (h : c.Filed) {wanted n : Nat} (hp : (c.pick wanted n).1 = []) :
    (c.pick wanted n).2 = c := by
  cases n with
  | zero => rfl
  | succ n =>
    unfold pick at hp ⊢
    dsimp only at hp ⊢
    split
    next => rfl
    next hw =>
      rw [if_neg hw] at hp
      split
      next => rfl
      next id hid =>
        have hsub := Table.mem_keys.1 (List.mem_of_getElem? hid)
        obtain ⟨r, hr⟩ := Option.ne_none_iff_exists'.1 (h id (Option.isSome_iff_ne_none.1 hsub))
        rw [hid] at hp
        dsimp only at hp
        rw [hr] at hp
        simp at hp

theorem pick_unknown (h : ∀ id, c.known.get? id = none) (wanted n : Nat) :
    (c.pick wanted n).1 = [] := by
  induction n generalizing wanted c with
  | zero => rfl
  | succ n ih =>
    unfold pick
    dsimp only
    split
    next => rfl
    next =>
      split
      next => rfl
      next id _ =>
        rw [h id]
        apply ih
        exact h

theorem wake_idle (h : c.waiting = []) (now : Time) :
    (c.wake now).1 = [] ∧ (c.wake now).2.waiting = [] := by
  have hd := c.backoff.drain_perm now
  rw [show c.backoff.payloads = [] from h, List.perm_nil, List.append_eq_nil_iff] at hd
  unfold wake
  dsimp only
  rw [hd.1]
  exact ⟨rfl, hd.2⟩

end GangControl

namespace Broker

open Listeners
open GangControl (Struck)

variable {σ : Type} (C : Connector σ) (clock now : Time) {b b' b'' : Broker σ} {s : Supervisor}

/-! ### Clients of the registry -/

/-- From `b` to `b'`, both without a supervisor, the clients are told of these events. -/
structure Announces (b : Broker σ) (es : List Event) (b' : Broker σ) : Prop where
  alone : b'.supervisor = none
  nextId_eq : b'.listeners.nextId = b.listeners.nextId
  stayers_eq : b'.listeners.stayers Subscriber.once = b.listeners.stayers Subscriber.once
  told : ∀ {x : Client}, x.once = false →
    b'.heardBy x = b.heardBy x ++ share (.client x) es (b.listeners.stayers Subscriber.once)

theorem Announces.refl (h : b.supervisor = none) : Announces b [] b :=
  ⟨h, rfl, rfl, fun _ => (List.append_nil _).symm⟩

theorem Announces.trans {es es' : List Event} (h : Announces b es b') (h' : Announces b' es' b'') :
    Announces b (es ++ es') b'' := by
  refine ⟨h'.alone, h'.nextId_eq.trans h.nextId_eq, h'.stayers_eq.trans h.stayers_eq, fun hx => ?_⟩
  rw [h'.told hx, h.told hx, h.stayers_eq, share_append, List.append_assoc]

theorem modifyControl_alone (h : b.supervisor = none) (f : GangControl → GangControl) :
    b.modifyControl f = b := by
  apply modifyControl_eq_self
  intro c hc
  unfold control? at hc
  rw [h] at hc
  simp at hc

theorem forward_alone (h : b.supervisor = none) (e : Event) : b.forward e = b := by
  unfold forward
  rw [h]

theorem answerCall_alone (h : b.supervisor = none) (c : Listeners.Call Subscriber) :
    (b.answerCall clock c).supervisor = none ∧ (b.answerCall clock c).listeners = b.listeners ∧
      ∀ x, (b.answerCall clock c).heardBy x = b.heardBy x ++
        ([c].filter fun c => c.listener = .client x).map Listeners.Call.event := by
  obtain ⟨e, i, y⟩ := c
  cases y with
  | supervisor =>
    have hself : b.answerCall clock ⟨e, i, .supervisor⟩ = b := by
      unfold answerCall
      dsimp only
      rw [modifyControl_alone h, forward_alone h]
    rw [hself]
    exact ⟨h, rfl, fun x => by simp⟩
  | client y =>
    refine ⟨h, rfl, fun x => ?_⟩
    have hheard : (b.tell e y).heardBy x = b.heardBy x ++
        ([⟨y, e, b.desk, b.control?⟩].filter fun n => n.client = x).map Notice.event :=
      heardBy_append x rfl
    refine hheard.trans ?_
    by_cases hx : y = x
    · simp [hx]
    · simp [hx]

theorem answerCalls_alone (h : b.supervisor = none) (cs : List (Listeners.Call Subscriber)) :
    (cs.foldl (answerCall clock) b).supervisor = none ∧
      (cs.foldl (answerCall clock) b).listeners = b.listeners ∧
      ∀ x, (cs.foldl (answerCall clock) b).heardBy x = b.heardBy x ++
        (cs.filter fun c => c.listener = .client x).map Listeners.Call.event := by
  induction cs generalizing b with
  | nil => exact ⟨h, rfl, fun x => by simp⟩
  | cons c cs ih =>
    obtain ⟨h₁, hl₁, ht₁⟩ := answerCall_alone clock h c
    obtain ⟨h₂, hl₂, ht₂⟩ := ih h₁
    refine ⟨h₂, hl₂.trans hl₁, fun x => ?_⟩
    rw [List.foldl_cons, ht₂, ht₁, List.append_assoc, ← List.map_append, ← List.filter_append]
    rfl

theorem hear_announces (h : b.supervisor = none) (d : Dispatch σ) :
    Announces b (spoken d) (b.hear clock d) := by
  have hcalls := answerCalls_alone (b := { b with
    desk := d.desk
    listeners := sendOut Subscriber.fails Subscriber.once d.events b.listeners }) clock h
    (b.listeners.calls d.events)
  obtain ⟨hs, hl, ht⟩ := hcalls
  unfold hear
  dsimp only
  refine ⟨hs, ?_, ?_, fun {x} hx => ?_⟩
  · rw [hl, sendOut_nextId]
  · rw [hl, sendOut_stayers]
  · have hstay : Subscriber.once (.client x) = false := hx
    rw [ht, calls_share hstay]
    rfl

theorem follow_announces (h : b.supervisor = none) (sent : List (Dispatch σ)) (d : Desk σ) :
    Announces b (sent.flatMap spoken) (b.follow clock sent d) := by
  have hall : Announces b (sent.flatMap spoken) (sent.foldl (hear clock) b) := by
    induction sent generalizing b with
    | nil => exact .refl h
    | cons x sent ih =>
      have h₁ := hear_announces clock h x
      exact h₁.trans (ih h₁.alone)
  exact ⟨hall.alone, hall.nextId_eq, hall.stayers_eq, hall.told⟩

/-! ### Mirror images -/

structure Mirrors (b : Broker σ) (s : Supervisor) (b' : Broker σ) : Prop where
  manned : Manned b s
  idle : s.control.waiting = []
  alone : b'.supervisor = none
  desk_eq : b'.desk = b.desk
  nextId_eq : b'.listeners.nextId = s.clients.nextId
  stayers_eq : b'.listeners.stayers Subscriber.once =
    (s.clients.stayers Client.once).map fun y => (y.1, .client y.2)
  heardBy_eq : ∀ {x}, x.once = false → b'.heardBy x = b.heardBy x

theorem share_map_client (x : Client) (es : List Event) (l : List (ListenerId × Client)) :
    share (.client x) es (l.map fun y => (y.1, Subscriber.client y.2)) = share x es l := by
  unfold share
  simp only [List.filter_map, List.map_map, Function.comp_def, Subscriber.client.injEq]

theorem Mirrors.with_desk (h : Mirrors b s b') (d : Desk σ) :
    Mirrors { b with desk := d } s { b' with desk := d } :=
  ⟨⟨h.manned.supervisor, h.manned.listeners⟩, h.idle, h.alone, rfl, h.nextId_eq, h.stayers_eq,
    h.heardBy_eq⟩

/-- What the controller has in its books cannot be seen, as long as nothing waits. -/
theorem Mirrors.with_control (h : Mirrors b s b') {c : GangControl} (hc : c.waiting = []) :
    Mirrors { b with supervisor := some { s with control := c } } { s with control := c } b' :=
  ⟨⟨rfl, h.manned.listeners⟩, hc, h.alone, h.desk_eq, h.nextId_eq, h.stayers_eq, h.heardBy_eq⟩

theorem Mirrors.modifyControl (h : Mirrors b s b') {f : GangControl → GangControl}
    (hf : (f s.control).waiting = []) :
    Mirrors (b.modifyControl f) { s with control := f s.control } b' :=
  ⟨h.manned.modifyControl f, hf, h.alone, h.desk_eq, h.nextId_eq, h.stayers_eq, h.heardBy_eq⟩

theorem tidy_of_idle {c : GangControl} (h : c.waiting = []) : c.Tidy := by
  intro id hid
  rw [h] at hid
  simp at hid

theorem Struck.idle {c c' : GangControl} {ids : List ReservationId} (h : Struck ids c c')
    (hc : c.waiting = []) : c'.waiting = [] := by
  rw [h.waiting, hc]
  rfl

theorem Mirrors.follow (h : Mirrors b s b') (sent : List (Dispatch σ)) (d : Desk σ) :
    ∃ s', Mirrors (b.follow clock sent d) s' (b'.follow clock sent d) := by
  obtain ⟨s', ht, hc⟩ := follow_tells h.manned clock sent d
  have ha := follow_announces clock h.alone sent d
  have hstruck := GangControl.foldl_learn_struck (tidy_of_idle h.idle) clock (sent.flatMap spoken)
  rw [← hc] at hstruck
  refine ⟨s', ht.manned, Struck.idle hstruck h.idle, ha.alone, rfl, ?_, ?_, fun hx => ?_⟩
  · rw [ha.nextId_eq, h.nextId_eq, ht.nextId_eq]
  · rw [ha.stayers_eq, h.stayers_eq, ht.stayers_eq]
  · rw [ha.told hx, ht.told hx, h.heardBy_eq hx, h.stayers_eq, share_map_client]

/-- What the controller knows is at the registry. -/
theorem Mirrors.tracked (h : Mirrors b s b') (ha : s.control.Agrees b.desk.ledger [] [])
    {id : ReservationId} {r : Reservation} (hr : s.control.known.get? id = some r) :
    ∃ t, b.desk.ledger.get? id = some t ∧ t.claim = r.claim := by
  have hknown : (s.control.known.get? id).isSome = true := by rw [hr, Option.isSome_some]
  have hopen : b.desk.ledger.openGang id = true := by
    have hsub := (ha.known_iff id).1 hknown
    rw [ha.submitted_iff, h.idle] at hsub
    simpa using hsub
  obtain ⟨t, ht, -⟩ := Ledger.openGang_iff.1 hopen
  exact ⟨t, ht, ha.claim_eq hr ht⟩

theorem Mirrors.get?_eq (h : Mirrors b s b') (ha : s.control.Agrees b.desk.ledger [] [])
    (id : ReservationId) : b.get? id = b'.get? id := by
  have hnone : s.control.backedOff? id = none := by
    unfold GangControl.backedOff?
    cases hk : s.control.known.get? id with
    | none => rfl
    | some r =>
      have hb := ha.backedOff_iff hk
      rw [h.idle] at hb
      simpa using hb
  unfold get? registry control?
  rw [h.manned.supervisor, h.alone, h.desk_eq, Option.map_some, Option.bind_some, hnone]
  rfl

/-! ### Who listens -/

theorem Mirrors.addClient (h : Mirrors b s b') (x : Client) :
    (∃ s', Mirrors (b.addClient x).2 s' (b'.addClient x).2) ∧
      (b.addClient x).1 = (b'.addClient x).1 := by
  unfold Broker.addClient
  rw [h.manned.supervisor, h.alone]
  dsimp only
  constructor
  · refine ⟨_, ⟨rfl, h.manned.listeners⟩, h.idle, rfl, h.desk_eq, ?_, ?_, h.heardBy_eq⟩
    · exact congrArg (· + 1) h.nextId_eq
    · have hst := h.stayers_eq
      unfold stayers at hst ⊢
      unfold add
      dsimp only
      rw [List.filter_append, List.filter_append, hst, List.map_append, h.nextId_eq]
      cases hx : x.once with
      | false => simp [Subscriber.once, hx]
      | true => simp [Subscriber.once, hx]
  · exact congrArg ListenerId.mk h.nextId_eq.symm

theorem stayers_remove {α : Type} (once : α → Bool) (i : ListenerId) (l : Listeners α) :
    (l.remove i).2.stayers once = (l.stayers once).filter fun y => !decide (y.1 = i) := by
  unfold stayers Listeners.remove
  exact List.filter_comm ..

theorem Mirrors.removeClient (h : Mirrors b s b') (i : ListenerId) :
    ∃ s', Mirrors (b.removeClient i).2 s' (b'.removeClient i).2 := by
  unfold Broker.removeClient
  rw [h.manned.supervisor, h.alone]
  dsimp only
  refine ⟨_, ⟨rfl, h.manned.listeners⟩, h.idle, rfl, h.desk_eq, h.nextId_eq, ?_, h.heardBy_eq⟩
  dsimp only
  rw [stayers_remove, stayers_remove, h.stayers_eq, List.filter_map]
  rfl

/-! ### Placing -/

theorem Mirrors.place (h : Mirrors b s b') (r : Reservation) :
    (∃ s', Mirrors (b.place C clock r).2 s' (b'.place C clock r).2) ∧
      (b.place C clock r).1 = (b'.place C clock r).1 := by
  unfold Broker.place
  rw [h.desk_eq]
  exact ⟨h.follow clock _ _, rfl⟩

theorem Mirrors.reserveDirectly (h : Mirrors b s b') (id : ReservationId) (q : Request) :
    (∃ s', Mirrors (b.reserveDirectly C clock id q).2 s' (b'.reserveDirectly C clock id q).2) ∧
      (b.reserveDirectly C clock id q).1 = (b'.reserveDirectly C clock id q).1 := by
  unfold Broker.reserveDirectly
  rw [h.desk_eq]
  exact ⟨h.follow clock _ _, rfl⟩

/-- The controller knows a gang while it is submitted, and no longer if that fails. -/
theorem Mirrors.submitGang (h : Mirrors b s b') (r : Reservation) :
    (∃ s', Mirrors (b.submitGang C clock r).2 s' (b'.place C clock r).2) ∧
      (b.submitGang C clock r).1 = (b'.place C clock r).1 := by
  have hsub : (GangControl.submit r s.control).waiting = [] := h.idle
  obtain ⟨⟨s', h'⟩, ha⟩ := (h.modifyControl hsub).place C clock r
  unfold Broker.submitGang
  dsimp only
  rw [ha]
  cases (b'.place C clock r).1 with
  | ok placed => exact ⟨⟨s', h'⟩, rfl⟩
  | error f =>
    have hstruck := GangControl.forget_struck (tidy_of_idle h'.idle) r.id
    exact ⟨⟨_, h'.modifyControl (f := fun c => (c.forget r.id).2) (Struck.idle hstruck h'.idle)⟩,
      rfl⟩

theorem reserve_alone (h : b.supervisor = none) (id : ReservationId) (q : Request) :
    b.reserve C clock id q = b.reserveDirectly C clock id q := by
  unfold reserve control?
  rw [h]
  rfl

theorem place_known {d : Desk σ} {r : Reservation} (hs : d.registry.stopped = false)
    (hr : d.ledger.get? r.id ≠ none) :
    d.place C clock r = ⟨.error (.invalid (.knownReservation r.id)), d, []⟩ := by
  have hc : d.registry.ledger.conflict? r = some (.knownReservation r.id) := by
    unfold Ledger.conflict?
    rw [if_pos]
    exact Option.isSome_iff_ne_none.2 hr
  unfold Desk.place Ledger.insert
  rw [hs, if_neg (by simp), hc]

/-- A gang that the controller knows is known to the registry too, so it is refused either way. -/
theorem Mirrors.reserve (h : Mirrors b s b') (ha : s.control.Agrees b.desk.ledger [] [])
    (hs : b.registry.stopped = false) (id : ReservationId) (q : Request) :
    (∃ s', Mirrors (b.reserve C clock id q).2 s' (b'.reserve C clock id q).2) ∧
      (b.reserve C clock id q).1 = (b'.reserve C clock id q).1 := by
  rw [reserve_alone C clock h.alone]
  unfold Broker.reserve
  rw [h.manned.control?]
  dsimp only
  split
  next =>
    unfold reserveGang
    cases hf : q.fault? with
    | some f =>
      unfold Broker.reserveDirectly Desk.reserve
      rw [hf]
      exact ⟨⟨s, h⟩, rfl⟩
    | none =>
      have hdirect : b'.reserveDirectly C clock id q =
          b'.place C clock (.ofRequest id q clock) := by
        unfold Broker.reserveDirectly Desk.reserve
        rw [hf]
        rfl
      rw [hdirect]
      dsimp only
      split
      next hk =>
        obtain ⟨r, hr⟩ := (Table.contains_iff ..).1 hk
        obtain ⟨t, ht, -⟩ := h.tracked ha hr
        have hopen : b.desk.ledger.get? id ≠ none := by simp [ht]
        have hp := place_known C clock (r := .ofRequest id q clock) hs hopen
        unfold Broker.place
        rw [h.desk_eq, hp, ← h.desk_eq]
        exact ⟨⟨s, h⟩, rfl⟩
      next =>
        have he : s.control.backoff.isEmpty = true := DelayQueue.isEmpty_iff.2 h.idle
        rw [if_pos he]
        exact h.submitGang C clock _
  next => exact h.reserveDirectly C clock id q

/-! ### Releasing -/

theorem Mirrors.release (h : Mirrors b s b') (ha : s.control.Agrees b.desk.ledger [] [])
    (hd : HandleId) (id : ReservationId) (n : Bool) :
    (∃ s', Mirrors (b.release C clock hd id n).2 s' (b'.release C clock hd id n).2) ∧
      (b.release C clock hd id n).1 = (b'.release C clock hd id n).1 := by
  have hforget := GangControl.forget_struck (tidy_of_idle h.idle) id
  unfold Broker.release forgetOf
  rw [h.manned.supervisor, h.alone]
  dsimp only
  rw [h.desk_eq]
  split
  next hk =>
    obtain ⟨r, hr, hrh⟩ := (Option.any_eq_true _ _).1 hk
    obtain ⟨t, ht, hclaim⟩ := h.tracked ha hr
    have hth : t.handle = hd := by
      rw [(Reservation.claim_eq_iff.1 hclaim).2.1]
      exact of_decide_eq_true hrh
    obtain ⟨a, hans⟩ := Desk.release_found C clock ht hth n
    refine ⟨⟨_, (h.with_control (Struck.idle hforget h.idle)).with_desk _⟩, ?_⟩
    dsimp only
    rw [hans]
    cases a <;> rfl
  next => exact ⟨⟨s, h.with_desk _⟩, rfl⟩

/-- Whatever the controller strikes out, the registry had too, so there is nothing to merge. -/
theorem Mirrors.merge_eq (h : Mirrors b s b') (ha : s.control.Agrees b.desk.ledger [] [])
    {p : Reservation → Bool} (hp : ∀ r t : Reservation, r.claim = t.claim → p r = p t) :
    merge (b.desk.ledger.removeWhere p).1 (s.control.forgetWhere p).1 =
      (b.desk.ledger.removeWhere p).1 := by
  have hall : ∀ r ∈ (s.control.forgetWhere p).1,
      r.id ∈ (b.desk.ledger.removeWhere p).1.map Reservation.id := by
    intro r hr
    obtain ⟨hk, hpr⟩ := ((tidy_of_idle h.idle).mem_forgetWhere ha.known_id).1 hr
    obtain ⟨t, ht, hclaim⟩ := h.tracked ha hk
    rw [Ledger.mem_removeWhere_ids ha.sound, ht]
    exact (hp t r hclaim).trans hpr
  have hnone : ((s.control.forgetWhere p).1.filter fun r =>
      !((b.desk.ledger.removeWhere p).1.map Reservation.id).contains r.id) = [] := by
    rw [List.filter_eq_nil_iff]
    intro r hr
    simpa using hall r hr
  unfold merge
  rw [hnone, List.map_nil, List.append_nil]

theorem Mirrors.releaseWhere (h : Mirrors b s b') (ha : s.control.Agrees b.desk.ledger [] [])
    {p : Reservation → Bool} (hp : ∀ r t : Reservation, r.claim = t.claim → p r = p t) (n : Bool) :
    (∃ s', Mirrors
        { (b.forgetWhere p).2 with
          desk := ((b.forgetWhere p).2.desk.releaseWhere C clock p n).2 } s'
        { (b'.forgetWhere p).2 with
          desk := ((b'.forgetWhere p).2.desk.releaseWhere C clock p n).2 }) ∧
      ((b.forgetWhere p).2.desk.releaseWhere C clock p n).1.map (merge · (b.forgetWhere p).1) =
        ((b'.forgetWhere p).2.desk.releaseWhere C clock p n).1.map
          (merge · (b'.forgetWhere p).1) := by
  obtain ⟨ids, hs, -⟩ :=
    GangControl.forgetWhere_struck (tidy_of_idle h.idle) ha.known_id p
  have hm := h.merge_eq ha hp
  unfold Broker.forgetWhere
  rw [h.manned.supervisor, h.alone]
  dsimp only
  rw [h.desk_eq]
  refine ⟨⟨_, (h.with_control (Struck.idle hs h.idle)).with_desk _⟩, ?_⟩
  unfold Desk.releaseWhere
  dsimp only
  cases (Desk.giveBack C clock (b.desk.registry.ledger.removeWhere p).1 n
    (b.desk.setLedger (b.desk.registry.ledger.removeWhere p).2)).1 with
  | error f => rfl
  | ok u =>
    change Except.ok (merge (b.desk.ledger.removeWhere p).1 (s.control.forgetWhere p).1) =
      Except.ok (merge (b.desk.ledger.removeWhere p).1 [])
    rw [hm]
    unfold merge
    simp

/-! ### Turns -/

/-- The gangs that would step back now. -/
def victims (now : Time) (b : Broker σ) : List (ReservationId × HandleId) :=
  match b.control? with
  | none => []
  | some c =>
    if now.since c.lastAllocation < c.options.noAllocationLimit then [] else c.pickVictims.1

theorem Mirrors.avoidDeadlock (h : Mirrors b s b') (ha : s.control.Agrees b.desk.ledger [] [])
    (hv : b.victims now = []) : ∃ s', Mirrors (b.avoidDeadlock C clock now).2 s' b' := by
  unfold victims at hv
  unfold Broker.avoidDeadlock
  rw [h.manned.control?] at hv ⊢
  dsimp only at hv ⊢
  split
  next => exact ⟨s, h⟩
  next hlate =>
    rw [if_neg hlate] at hv
    have hself : s.control.pickVictims.2 = s.control := GangControl.pick_eq_self ha.filed hv
    unfold backOffRound
    dsimp only
    rw [hv, hself]
    have hfirst := h.modifyControl (f := fun _ => s.control.noteRound []) h.idle
    exact ⟨_, hfirst.modifyControl (f := fun c => { c with lastAllocation := clock }) h.idle⟩

theorem Mirrors.retry (h : Mirrors b s b') : ∃ s', Mirrors (b.retry C clock now).2 s' b' := by
  obtain ⟨hnone, hw⟩ := GangControl.wake_idle h.idle now
  unfold Broker.retry
  rw [h.manned.control?]
  dsimp only
  rw [hnone]
  exact ⟨_, h.modifyControl (f := fun _ => (s.control.wake now).2) hw⟩

theorem avoidDeadlock_alone (h : b.supervisor = none) : (b.avoidDeadlock C clock now).2 = b := by
  unfold avoidDeadlock control?
  rw [h]
  rfl

theorem retry_alone (h : b.supervisor = none) : (b.retry C clock now).2 = b := by
  unfold retry control?
  rw [h]
  rfl

end Broker

end ClusterBroker
