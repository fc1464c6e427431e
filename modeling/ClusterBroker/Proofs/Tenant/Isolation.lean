import ClusterBroker.Proofs.Tenant.Concerns

/-!
# Handles do not notice each other

A desk secludes a tenant if its ledger is the tenant's share of another desk's ledger. Every
operation on the other desk is followed by playing what concerns the tenant in it: afterwards the
desk still secludes the tenant, the tenant was answered the same, and was told the same. So what a
handle sees of a run is determined by what concerns it, and two runs in which that is the same
cannot be told apart, whatever the other handles do.
-/
namespace ClusterBroker.Tenant

open Desk (Op)

variable {σ : Type} {T : Tenant} (C : Connector σ) (clock : Time) {d : Desk σ} {d' : Desk Script}
  {r : Reservation}

/-- `d'` is as `d` would be if the tenant were alone. -/
structure Secludes (T : Tenant) (d : Desk σ) (d' : Desk Script) : Prop where
  divides : T.Divides d.ledger
  ledger_eq : d'.ledger = T.share d.ledger
  stopped_eq : d'.registry.stopped = d.registry.stopped

/-- The second run shows the tenant what the first one shows it. -/
structure Follows (T : Tenant) (C : Connector σ) (run : List (Time × Op σ)) (d : Desk σ)
    (solo : List (Time × Op Script)) (d' : Desk Script) : Prop where
  secludes : T.Secludes (Desk.after C run d) (Desk.after Script.connector solo d')
  replies_eq : Desk.replies Script.connector T.handle solo d' = Desk.replies C T.handle run d
  events_eq : eventsOf (Desk.sends Script.connector solo d') =
    T.told (eventsOf (Desk.sends C run d))

theorem Follows.append {run run' : List (Time × Op σ)} {solo solo' : List (Time × Op Script)}
    (h : T.Follows C run d solo d') (h' : T.Follows C run' (Desk.after C run d) solo'
      (Desk.after Script.connector solo d')) : T.Follows C (run ++ run') d (solo ++ solo') d' := by
  refine ⟨?_, ?_, ?_⟩
  · rw [Desk.after_append, Desk.after_append]
    exact h'.secludes
  · rw [Desk.replies_append, Desk.replies_append, h.replies_eq, h'.replies_eq]
  · rw [Desk.sends_append, Desk.sends_append, eventsOf_append, eventsOf_append, told_append,
      h.events_eq, h'.events_eq]

/-- A call of the tenant, over a connector that does what it did. -/
theorem Follows.of_call {op : Op σ} {op' : Op Script} (s : Script)
    (hsec : T.Secludes (op.run C clock d).1
      (op'.run Script.connector clock { d' with connector := s }).1)
    (hreply : op'.replyTo Script.connector clock T.handle { d' with connector := s } =
      op.replyTo C clock T.handle d)
    (hevents : eventsOf (op'.run Script.connector clock { d' with connector := s }).2 =
      T.told (eventsOf (op.run C clock d).2)) :
    T.Follows C [(clock, op)] d [(clock, .tend fun _ => s), (clock, op')] d' := by
  refine ⟨hsec, ?_, ?_⟩
  · exact congrArg (fun a => a.toList ++ []) hreply
  · rw [Desk.eventsOf_sends_single, ← hevents]
    exact Desk.eventsOf_sends_single Script.connector (clock, op') { d' with connector := s }

/-! ### Reports -/

/-- Batches that are reported one by one. -/
def reporting (bs : List (List Change)) : List (Time × Op Script) :=
  bs.map fun cs => (clock, .deliver cs)

theorem playing_reports (op : Op σ) (d : Desk σ) :
    T.playing ((T.reportsOf C clock op d).map (Prod.mk clock)) =
      reporting clock (T.batches (op.reported C clock d)) := by
  unfold reportsOf
  induction T.batches (op.reported C clock d) with
  | nil => rfl
  | cons cs bs ih => exact congrArg ((clock, .deliver cs) :: ·) ih

theorem after_reporting (bs : List (List Change)) (d' : Desk Script) :
    ((Desk.after Script.connector (reporting clock bs) d').ledger,
        eventsOf (Desk.sends Script.connector (reporting clock bs) d')) =
      d'.ledger.takeIn clock bs ∧
    (Desk.after Script.connector (reporting clock bs) d').registry.stopped =
      d'.registry.stopped ∧
    Desk.replies Script.connector T.handle (reporting clock bs) d' = [] := by
  induction bs generalizing d' with
  | nil => exact ⟨rfl, rfl, rfl⟩
  | cons cs bs ih =>
    obtain ⟨htake, hstop, hreply⟩ := ih (d'.deliver Script.connector clock cs).1
    have hl : (d'.deliver Script.connector clock cs).1.ledger =
        (d'.ledger.reconcile clock cs).ledger :=
      Desk.onChanges_ledger Script.connector clock cs d'
    have he : eventsOf (d'.deliver Script.connector clock cs).2 =
        (d'.ledger.reconcile clock cs).events :=
      Desk.eventsOf_onChanges Script.connector clock cs d'
    refine ⟨?_, hstop.trans (Desk.onChanges_stopped Script.connector clock cs d'), hreply⟩
    have hsends : Desk.sends Script.connector (reporting clock (cs :: bs)) d' =
        (d'.deliver Script.connector clock cs).2 ++ Desk.sends Script.connector
          (reporting clock bs) (d'.deliver Script.connector clock cs).1 := rfl
    rw [hsends, eventsOf_append, Ledger.takeIn_cons, ← hl, ← he, ← htake]
    rfl

/-- What others do is followed by the reports that it brings to the tenant. -/
theorem Follows.of_reports {op : Op σ} (h : T.Secludes d d')
    (hreply : op.replyTo C clock T.handle d = none)
    (hledger : T.Divides (op.run C clock d).1.ledger ∧
      d'.ledger.takeIn clock (T.batches (op.reported C clock d)) =
        (T.share (op.run C clock d).1.ledger, T.told (eventsOf (op.run C clock d).2)))
    (hstop : (op.run C clock d).1.registry.stopped = d.registry.stopped) :
    T.Follows C [(clock, op)] d
      (T.playing ((T.reportsOf C clock op d).map (Prod.mk clock))) d' := by
  obtain ⟨htake, hstop', hreply'⟩ :=
    after_reporting (T := T) clock (T.batches (op.reported C clock d)) d'
  rw [hledger.2] at htake
  obtain ⟨hl, he⟩ := Prod.mk.inj htake
  rw [playing_reports]
  refine ⟨⟨hledger.1, hl, ?_⟩, ?_, ?_⟩
  · rw [hstop', h.stopped_eq]
    exact hstop.symm
  · rw [hreply']
    exact (congrArg (fun a => a.toList ++ []) hreply).symm
  · rw [he, Desk.eventsOf_sends_single]

/-- An operation that brings the tenant nothing. -/
theorem Follows.of_nothing {op : Op σ} (h : T.Secludes d d')
    (hreply : op.replyTo C clock T.handle d = none) (hsent : (op.run C clock d).2 = [])
    (hdivides : T.Divides (op.run C clock d).1.ledger)
    (hledger : T.share (op.run C clock d).1.ledger = T.share d.ledger)
    (hstop : (op.run C clock d).1.registry.stopped = d.registry.stopped) :
    T.Follows C [(clock, op)] d [] d' := by
  refine ⟨⟨hdivides, h.ledger_eq.trans hledger.symm, h.stopped_eq.trans hstop.symm⟩, ?_, ?_⟩
  · exact (congrArg (fun a => a.toList ++ []) hreply).symm
  · rw [Desk.eventsOf_sends_single, hsent]
    rfl

/-! ### Placing -/

theorem Divides.conclude {l : Ledger} (h : T.Divides l) (r : Reservation)
    (answer : Except ConnectorFault Unit) : T.Divides (Desk.conclude r l answer).2 := by
  cases answer with
  | error f =>
    obtain ⟨hs, hg⟩ := Ledger.remove_ledger h.sound r.id
    exact h.of_removal hs (fun k => r.id = k) hg
  | ok u => exact h

theorem conclude_share_own {l : Ledger} (h : T.Divides l) (hr : T.owns r.id = true)
    (answer : Except ConnectorFault Unit) : Desk.conclude r (T.share l) answer =
      ((Desk.conclude r l answer).1, T.share (Desk.conclude r l answer).2) := by
  cases answer with
  | error f =>
    unfold Desk.conclude
    dsimp only
    rw [share_remove_own h hr]
  | ok u =>
    unfold Desk.conclude
    dsimp only
    rw [get?_share, if_pos hr]

theorem conclude_share_other {l : Ledger} (h : T.Divides l) (hr : T.owns r.id = false)
    (answer : Except ConnectorFault Unit) : T.share (Desk.conclude r l answer).2 = T.share l := by
  cases answer with
  | error f => exact share_remove_other h hr
  | ok u => rfl

/-- The tenant places a reservation, and the connector does the same about it. -/
theorem Secludes.place_own (h : T.Secludes d d') (hr : r.Sound) (hsep : T.Separates r)
    (hown : r.handle = T.handle)
    (hbs : d'.connector.batches = T.batches ((d.placeArrivals C clock r).map Prod.fst))
    (hanswer : d'.connector.answer = d.submission C clock r) :
    (d'.place Script.connector clock r).answer = (d.place C clock r).answer ∧
      T.Secludes (d.place C clock r).desk (d'.place Script.connector clock r).desk ∧
      eventsOf (d'.place Script.connector clock r).sent =
        T.told (eventsOf (d.place C clock r).sent) := by
  have ho := hsep.owns_iff.2 hown
  have hconf : d'.ledger.conflict? r = d.ledger.conflict? r := by
    rw [h.ledger_eq, conflict?_share _ hsep ho]
  cases hs : d.registry.stopped with
  | true =>
    rw [Desk.place_of_stopped C clock hs,
      Desk.place_of_stopped Script.connector clock (h.stopped_eq.trans hs)]
    exact ⟨rfl, h, rfl⟩
  | false =>
    have hs' := h.stopped_eq.trans hs
    cases hf : d.ledger.conflict? r with
    | some f =>
      rw [Desk.place_of_conflict C clock hs hf,
        Desk.place_of_conflict Script.connector clock hs' (hconf.trans hf)]
      exact ⟨rfl, h, rfl⟩
    | none =>
      rw [Desk.placeArrivals_fst C clock ⟨hs, hf⟩] at hbs
      rw [Desk.submission, if_pos ⟨hs, hf⟩] at hanswer
      have hscript : (Script.connector.reserve clock r.resources d'.connector).2.1.map
          Delivery.changes = d'.connector.batches := by
        unfold Script.connector
        rw [List.map_map]
        exact List.map_id _
      obtain ⟨he, hres, hst⟩ := Desk.place_admitted C clock ⟨hs, hf⟩ rfl rfl
      obtain ⟨he', hres', hst'⟩ := Desk.place_admitted Script.connector clock
        ⟨hs', hconf.trans hf⟩ (hscript.trans hbs) hanswer
      obtain ⟨hd, htake⟩ := takeIn_share (h.divides.add hr hf hsep) clock
        ((C.reserve clock r.resources d.connector).2.1.map Delivery.changes)
      rw [h.ledger_eq, ← share_add_own _ hsep ho, htake] at he' hres'
      rw [conclude_share_own hd ho, ← hres] at hres'
      have ha : (d'.place Script.connector clock r).answer = (d.place C clock r).answer :=
        congrArg Prod.fst hres'
      have hl : (d'.place Script.connector clock r).desk.ledger =
          T.share (d.place C clock r).desk.ledger := congrArg Prod.snd hres'
      have hdesk := hd.conclude r (C.reserve clock r.resources d.connector).1
      rw [← hres] at hdesk
      refine ⟨ha, ⟨hdesk, hl, ?_⟩, ?_⟩
      · rw [hst', hst, h.stopped_eq]
      · rw [he', he]

/-- Somebody else places a reservation. -/
theorem Secludes.place_other (h : T.Secludes d d') (hr : r.Sound) (hsep : T.Separates r)
    (hother : r.handle ≠ T.handle) :
    (T.Divides (d.place C clock r).desk.ledger ∧
      d'.ledger.takeIn clock (T.batches ((d.placeArrivals C clock r).map Prod.fst)) =
        (T.share (d.place C clock r).desk.ledger, T.told (eventsOf (d.place C clock r).sent))) ∧
      (d.place C clock r).desk.registry.stopped = d.registry.stopped := by
  have ho := hsep.owns_eq_false hother
  refine ⟨?_, Desk.place_stopped C clock hr h.divides.sound⟩
  by_cases hadm : d.Admits r
  · obtain ⟨he, hres, -⟩ := Desk.place_admitted C clock hadm rfl rfl
    obtain ⟨hd, htake⟩ := takeIn_share (h.divides.add hr hadm.2 hsep) clock
      ((C.reserve clock r.resources d.connector).2.1.map Delivery.changes)
    have hl : (d.place C clock r).desk.ledger = (Desk.conclude r _ _).2 := congrArg Prod.snd hres
    refine ⟨by rw [hl]; exact hd.conclude r _, ?_⟩
    rw [Desk.placeArrivals_fst C clock hadm, h.ledger_eq, ← share_add_other _ hsep ho, htake, he,
      hl, conclude_share_other hd ho]
  · obtain ⟨harr, hdesk⟩ := Desk.place_of_not_admits C clock hadm
    have he := Desk.eventsOf_place C clock r d
    rw [harr] at he ⊢
    rw [he, hdesk, h.ledger_eq]
    exact ⟨h.divides, rfl⟩

theorem Secludes.reserve_own (h : T.Secludes d d') {id : ReservationId} {q : Request}
    (hT : T.Respects (.reserve id q : Op σ)) (hown : q.handle = T.handle)
    (hscript : d'.connector = T.scriptOf C clock (.reserve id q) d) :
    (d'.reserve Script.connector clock id q).answer = (d.reserve C clock id q).answer ∧
      T.Secludes (d.reserve C clock id q).desk (d'.reserve Script.connector clock id q).desk ∧
      eventsOf (d'.reserve Script.connector clock id q).sent =
        T.told (eventsOf (d.reserve C clock id q).sent) := by
  unfold scriptOf Op.reported Op.arrivals Op.answered at hscript
  unfold Desk.reserve
  dsimp only at hscript ⊢
  cases hf : q.fault? with
  | some f => exact ⟨rfl, h, rfl⟩
  | none =>
    rw [hf] at hscript
    exact h.place_own C clock (Reservation.fresh_ofRequest id clock hf).sound
      (separates_ofRequest T clock hT) hown (congrArg Script.batches hscript)
      (congrArg Script.answer hscript)

theorem Secludes.reserve_other (h : T.Secludes d d') {id : ReservationId} {q : Request}
    (hT : T.Respects (.reserve id q : Op σ)) (hother : q.handle ≠ T.handle) :
    T.Divides (d.reserve C clock id q).desk.ledger ∧
      d'.ledger.takeIn clock (T.batches ((Op.reserve id q : Op σ).reported C clock d)) =
        (T.share (d.reserve C clock id q).desk.ledger,
          T.told (eventsOf (d.reserve C clock id q).sent)) := by
  unfold Op.reported Op.arrivals Desk.reserve
  dsimp only
  cases hf : q.fault? with
  | some f =>
    rw [h.ledger_eq]
    exact ⟨h.divides, rfl⟩
  | none =>
    exact (h.place_other C clock (Reservation.fresh_ofRequest id clock hf).sound
      (separates_ofRequest T clock hT) hother).1

/-! ### Releasing -/

theorem giveBack_secludes {l : Ledger} {l' : Ledger} (h : T.Secludes d d') (hd : T.Divides l)
    (hl : l' = T.share l) (removed removed' : List Reservation) (noCache : Bool) :
    T.Secludes ((d.setLedger l).giveBack C clock removed noCache).2
      ((d'.setLedger l').giveBack Script.connector clock removed' noCache).2 := by
  refine ⟨?_, ?_, ?_⟩
  · rw [Desk.giveBack_ledger]
    exact hd
  · rw [Desk.giveBack_ledger, Desk.giveBack_ledger]
    exact hl
  · rw [Desk.giveBack_stopped, Desk.giveBack_stopped]
    exact h.stopped_eq

/-- Both answers to giving the same back. -/
theorem giveBack_script {l l' : Ledger} {removed : List Reservation} {noCache : Bool}
    (hanswer : d'.connector.answer = d.restitution C clock removed noCache) :
    ((d'.setLedger l').giveBack Script.connector clock removed noCache).1 =
      ((d.setLedger l).giveBack C clock removed noCache).1 := by
  rw [Desk.giveBack_answer, Desk.giveBack_answer]
  exact congrArg _ (Desk.restitution_script C clock hanswer)

theorem Secludes.release_own (h : T.Secludes d d') (id : ReservationId) {noCache : Bool}
    (hanswer : d'.connector.answer =
      (Op.release T.handle id noCache : Op σ).answered C clock d) :
    (d'.release Script.connector clock T.handle id noCache).1 =
        (d.release C clock T.handle id noCache).1 ∧
      T.Secludes (d.release C clock T.handle id noCache).2
        (d'.release Script.connector clock T.handle id noCache).2 := by
  unfold Op.answered at hanswer
  dsimp only at hanswer
  have hget : d'.registry.get? id = if T.owns id then d.ledger.get? id else none := by
    rw [← get?_share, ← h.ledger_eq]
    rfl
  unfold Desk.release
  rw [hget, show d.registry.get? id = d.ledger.get? id from rfl]
  cases hr : d.ledger.get? id with
  | none =>
    rw [ite_self]
    exact ⟨rfl, h⟩
  | some r =>
    obtain rfl := h.divides.sound.id_eq hr
    have hsep := h.divides.separates hr
    by_cases hh : r.handle = T.handle
    · have ho := hsep.owns_iff.2 hh
      rw [hr, Option.filter_some_pos (by simpa using hh)] at hanswer
      have hback : d'.connector.answer = d.restitution C clock [r.ended] noCache := hanswer
      rw [if_pos ho]
      dsimp only
      rw [if_pos hh, if_pos hh]
      have hl : d'.registry.ledger.drop r = T.share (d.registry.ledger.drop r) := by
        rw [share_drop_own _ hsep ho, show T.share d.registry.ledger = _ from h.ledger_eq.symm]
        rfl
      exact ⟨congrArg (Except.map _) (giveBack_script C clock hback),
        giveBack_secludes C clock h (h.divides.drop hr) hl _ _ _⟩
    · rw [hsep.owns_eq_false hh]
      dsimp only
      rw [if_neg hh]
      exact ⟨rfl, h⟩

/-- Somebody else releases an id, which may be the tenant's. -/
theorem Secludes.release_other (h : T.Secludes d d') {k : HandleId} (hk : k ≠ T.handle)
    (id : ReservationId) (noCache : Bool) :
    T.Divides (d.release C clock k id noCache).2.ledger ∧
      T.share (d.release C clock k id noCache).2.ledger = T.share d.ledger := by
  unfold Desk.release
  rw [show d.registry.get? id = d.ledger.get? id from rfl]
  cases hr : d.ledger.get? id with
  | none => exact ⟨h.divides, rfl⟩
  | some r =>
    obtain rfl := h.divides.sound.id_eq hr
    have hsep := h.divides.separates hr
    dsimp only
    split
    next hh =>
      have ho := hsep.owns_eq_false fun he => hk (hh.symm.trans he)
      rw [Desk.giveBack_ledger, Desk.setLedger_ledger]
      exact ⟨h.divides.drop hr, share_drop_other _ hsep ho⟩
    next => exact ⟨h.divides, rfl⟩

/-- A release by a condition does to the share what it does to the ledger. -/
theorem Secludes.releaseWhere (h : T.Secludes d d') (p : Reservation → Bool) (noCache : Bool) :
    T.Secludes (d.releaseWhere C clock p noCache).2
      (d'.releaseWhere Script.connector clock p noCache).2 := by
  refine giveBack_secludes C clock h (h.divides.removeWhere p) ?_ _ _ _
  rw [← share_removeWhere h.divides p, ← h.ledger_eq]
  rfl

theorem Secludes.releaseHandle_own (h : T.Secludes d d') {noCache : Bool}
    (hanswer : d'.connector.answer =
      (Op.releaseHandle T.handle noCache : Op σ).answered C clock d) :
    (d'.releaseHandle Script.connector clock T.handle noCache).1 =
      (d.releaseHandle C clock T.handle noCache).1 := by
  unfold Op.answered at hanswer
  dsimp only at hanswer
  have hremoved : (d'.registry.ledger.removeWhere fun r => r.handle = T.handle).1 =
      (d.registry.ledger.removeWhere fun r => r.handle = T.handle).1 := by
    have hsame := share_removed_own h.divides (p := fun r => r.handle = T.handle)
      fun r hr => of_decide_eq_true hr
    rw [← h.ledger_eq] at hsame
    exact hsame
  unfold Desk.releaseHandle Desk.releaseWhere
  dsimp only
  rw [hremoved]
  exact congrArg _ (giveBack_script C clock hanswer)

theorem Secludes.stop (h : T.Secludes d d') :
    T.Secludes (d.stop C clock).2 (d'.stop Script.connector clock).2 := by
  unfold Desk.stop
  rw [h.stopped_eq]
  split
  next => exact h
  next =>
    have hopen : T.Secludes { d with registry := { d.registry with stopped := true } }
        { d' with registry := { d'.registry with stopped := true } } :=
      ⟨h.divides, h.ledger_eq, rfl⟩
    obtain ⟨hd, hl, hs⟩ := hopen.releaseWhere C clock (fun _ => true) true
    exact ⟨hd, hl, hs⟩

/-! ### One operation -/

/-- One batch that is not part of a call. -/
theorem Secludes.batch (h : T.Secludes d d') (cs : List Change) :
    T.Divides (d.ledger.reconcile clock cs).ledger ∧
      d'.ledger.takeIn clock (T.batches [cs]) =
        (T.share (d.ledger.reconcile clock cs).ledger,
          T.told (d.ledger.reconcile clock cs).events) := by
  have hone : d.ledger.takeIn clock [cs] =
      ((d.ledger.reconcile clock cs).ledger, (d.ledger.reconcile clock cs).events) := by
    rw [Ledger.takeIn_cons]
    unfold Ledger.takeIn
    rw [List.append_nil]
  have htake := takeIn_share h.divides clock [cs]
  rw [hone, ← h.ledger_eq] at htake
  exact htake

theorem Secludes.deliver (h : T.Secludes d d') (cs : List Change) :
    T.Divides (d.deliver C clock cs).1.ledger ∧
      d'.ledger.takeIn clock (T.batches ((Op.deliver cs : Op σ).reported C clock d)) =
        (T.share (d.deliver C clock cs).1.ledger, T.told (eventsOf (d.deliver C clock cs).2)) := by
  have hl : (d.deliver C clock cs).1.ledger = (d.ledger.reconcile clock cs).ledger :=
    Desk.onChanges_ledger C clock cs { d with connector := C.incoming cs d.connector }
  have he : eventsOf (d.deliver C clock cs).2 = (d.ledger.reconcile clock cs).events :=
    Desk.eventsOf_onChanges C clock cs { d with connector := C.incoming cs d.connector }
  rw [hl, he]
  exact h.batch clock cs

theorem Secludes.halt (h : T.Secludes d d') (order : Ledger → List ResourceId) :
    T.Divides (d.onHaltedIn order C clock).1.ledger ∧
      d'.ledger.takeIn clock (T.batches ((Op.halt order : Op σ).reported C clock d)) =
        (T.share (d.onHaltedIn order C clock).1.ledger,
          T.told (eventsOf (d.onHaltedIn order C clock).2)) := by
  unfold Desk.onHaltedIn
  rw [eventsOf_cons, eventsOf_nil, List.append_nil]
  exact h.batch clock ((order d.ledger).map .lost)

theorem follows_op {op : Op σ} (h : T.Secludes d d') (hop : op.Proper) (hT : T.Respects op) :
    T.Follows C [(clock, op)] d
      (T.playing ((T.concernsOf C clock op d).map (Prod.mk clock))) d' := by
  have hscripted : T.Secludes d { d' with connector := T.scriptOf C clock op d } :=
    ⟨h.divides, h.ledger_eq, h.stopped_eq⟩
  unfold concernsOf
  cases op with
  | reserve id q =>
    dsimp only
    split
    next hown =>
      obtain ⟨ha, hsec, he⟩ := hscripted.reserve_own C clock hT hown rfl
      refine Follows.of_call C clock _ hsec ?_ he
      unfold Op.replyTo
      dsimp only
      rw [if_pos hown, if_pos hown, ha]
    next hother =>
      exact Follows.of_reports C clock h (if_neg hother) (h.reserve_other C clock hT hother)
        (Desk.reserve_stopped C clock h.divides.sound id q)
  | place r =>
    dsimp only
    split
    next hown =>
      obtain ⟨ha, hsec, he⟩ :=
        hscripted.place_own C clock (Reservation.Fresh.sound hop) hT hown rfl rfl
      refine Follows.of_call C clock _ hsec ?_ he
      unfold Op.replyTo
      dsimp only
      rw [if_pos hown, if_pos hown, ha]
    next hother =>
      obtain ⟨hledger, hstop⟩ := h.place_other C clock (Reservation.Fresh.sound hop) hT hother
      exact Follows.of_reports C clock h (if_neg hother) hledger hstop
  | release k id n =>
    dsimp only
    split
    next hown =>
      subst hown
      obtain ⟨ha, hsec⟩ := hscripted.release_own C clock id rfl
      refine Follows.of_call C clock _ hsec ?_ rfl
      unfold Op.replyTo
      dsimp only
      rw [if_pos rfl, if_pos rfl, ha]
    next hother =>
      obtain ⟨hd, hl⟩ := h.release_other C clock hother id n
      exact Follows.of_nothing C clock h (if_neg hother) rfl hd hl (Desk.release_stopped ..)
  | releaseHandle k n =>
    dsimp only
    split
    next hown =>
      subst hown
      have ha := hscripted.releaseHandle_own C clock rfl
      refine Follows.of_call C clock _ (hscripted.releaseWhere C clock _ n) ?_ rfl
      unfold Op.replyTo
      dsimp only
      rw [if_pos rfl, if_pos rfl, ha]
    next hother =>
      refine Follows.of_nothing C clock h (if_neg hother) rfl ?_ ?_ (Desk.releaseWhere_stopped ..)
      · exact (h.releaseWhere C clock _ n).divides
      · refine Eq.trans (congrArg T.share (Desk.giveBack_ledger ..)) ?_
        refine share_removeWhere_other h.divides fun r hr => ?_
        rw [decide_eq_false_iff_not, hr]
        exact fun he => hother he.symm
  | releaseQueue q n => exact ⟨h.releaseWhere C clock _ n, rfl, rfl⟩
  | start => exact Follows.of_nothing C clock h rfl rfl h.divides rfl rfl
  | nodes => exact Follows.of_nothing C clock h rfl rfl h.divides rfl rfl
  | deliver cs =>
    exact Follows.of_reports C clock h rfl (h.deliver C clock cs)
      (Desk.onChanges_stopped C clock cs _)
  | halt order => exact Follows.of_reports C clock h rfl (h.halt C clock order) rfl
  | stop => exact ⟨h.stop C clock, rfl, rfl⟩
  | tend f => exact Follows.of_nothing C clock h rfl rfl h.divides rfl rfl

/-! ### Runs -/

/-- To a tenant a run is what concerns it, played to it alone. -/
theorem follows_run {run : List (Time × Op σ)} (h : T.Secludes d d')
    (hrun : ∀ e ∈ run, e.2.Proper ∧ T.Respects e.2) :
    T.Follows C run d (T.playing (T.concerns C run d)) d' := by
  induction run generalizing d d' with
  | nil => exact ⟨h, rfl, rfl⟩
  | cons e run ih =>
    obtain ⟨⟨hop, hT⟩, hrest⟩ := List.forall_mem_cons.1 hrun
    have hone := follows_op C e.1 h hop hT
    have hplaying : T.playing (T.concerns C (e :: run) d) =
        T.playing ((T.concernsOf C e.1 e.2 d).map (Prod.mk e.1)) ++
          T.playing (T.concerns C run (e.2.run C e.1 d).1) := List.flatMap_append
    rw [hplaying]
    exact hone.append C (ih hone.secludes hrest)

theorem secludes_opened (T : Tenant) (queue : QueueName) (s : σ) :
    T.Secludes (Desk.opened queue s) (Desk.opened queue {}) :=
  ⟨.empty, share_empty.symm, rfl⟩

theorem Secludes.ofHandle_eq (h : T.Secludes d d') :
    d.registry.ofHandle T.handle = d'.ledger.reservations.values := by
  rw [h.ledger_eq, values_share h.divides]
  rfl

/-- Two runs of a registry in which the same concerns a tenant: it gets the same answers, the same
reservations are tracked for it, and it is told the same. -/
theorem handles_isolated (T : Tenant) {σ σ' : Type} (C : Connector σ) (C' : Connector σ')
    (queue : QueueName) (s : σ) (s' : σ') {run : List (Time × Op σ)} {run' : List (Time × Op σ')}
    (hrun : ∀ e ∈ run, e.2.Proper ∧ T.Respects e.2)
    (hrun' : ∀ e ∈ run', e.2.Proper ∧ T.Respects e.2)
    (hsame : T.concerns C run (Desk.opened queue s) =
      T.concerns C' run' (Desk.opened queue s')) :
    Desk.replies C T.handle run (Desk.opened queue s) =
        Desk.replies C' T.handle run' (Desk.opened queue s') ∧
      (Desk.after C run (Desk.opened queue s)).registry.ofHandle T.handle =
        (Desk.after C' run' (Desk.opened queue s')).registry.ofHandle T.handle ∧
      T.told (eventsOf (Desk.sends C run (Desk.opened queue s))) =
        T.told (eventsOf (Desk.sends C' run' (Desk.opened queue s'))) := by
  have h := follows_run C (secludes_opened T queue s) hrun
  have h' := follows_run C' (secludes_opened T queue s') hrun'
  rw [← hsame] at h'
  refine ⟨?_, ?_, ?_⟩
  · rw [← h.replies_eq, h'.replies_eq]
  · rw [h.secludes.ofHandle_eq, h'.secludes.ofHandle_eq]
  · rw [← h.events_eq, h'.events_eq]

/-- A gang that shares the registry with another client, and the same gang alone. The other client
tries to release it, and one of its allocations is reported together with one of the gang's. -/
theorem handles_isolated_shared :
    let T : Tenant := ⟨⟨3, by decide⟩, fun id => id.value = 7, fun x => x.value ≤ 2⟩
    let ask : ∀ n : Nat, n < idRange → Ask := fun n h => ⟨⟨n, h⟩, ⟨"node"⟩, .dontCare, 1, 512⟩
    let grant : ∀ n : Nat, n < idRange → Change := fun n h =>
      .allocated ⟨n, h⟩ ⟨1, 512, ⟨"node"⟩, ⟨"held"⟩⟩
    let gang : Request := ⟨T.handle, ⟨"queue"⟩, true, [ask 1 (by decide), ask 2 (by decide)]⟩
    let other : Request := ⟨⟨4, by decide⟩, ⟨"queue"⟩, false, [ask 5 (by decide)]⟩
    let run : List (Time × Op ScriptedManager) := [
      (.ofMillis 1, .reserve ⟨7, by decide⟩ gang),
      (.ofMillis 2, .reserve ⟨8, by decide⟩ other),
      (.ofMillis 3, .deliver [grant 5 (by decide), grant 1 (by decide)]),
      (.ofMillis 4, .release ⟨4, by decide⟩ ⟨7, by decide⟩ false),
      (.ofMillis 5, .deliver [grant 2 (by decide)]),
      (.ofMillis 6, .release T.handle ⟨7, by decide⟩ false)]
    let alone : List (Time × Op ScriptedManager) := [
      (.ofMillis 1, .reserve ⟨7, by decide⟩ gang),
      (.ofMillis 3, .deliver [grant 1 (by decide)]),
      (.ofMillis 5, .deliver [grant 2 (by decide)]),
      (.ofMillis 6, .release T.handle ⟨7, by decide⟩ false)]
    let d : Desk ScriptedManager := Desk.opened ⟨"queue"⟩ {}
    Desk.replies ScriptedManager.connector T.handle run d =
        Desk.replies ScriptedManager.connector T.handle alone d ∧
      T.told (eventsOf (Desk.sends ScriptedManager.connector run d)) =
        T.told (eventsOf (Desk.sends ScriptedManager.connector alone d)) ∧
      T.told (eventsOf (Desk.sends ScriptedManager.connector run d)) ≠ [] := by
  intro T ask grant gang other run alone d
  have hgang : T.Respects (.reserve ⟨7, by decide⟩ gang : Op ScriptedManager) := by
    refine ⟨by decide, ?_⟩
    decide
  have hother : T.Respects (.reserve ⟨8, by decide⟩ other : Op ScriptedManager) := by
    refine ⟨by decide, ?_⟩
    decide
  have hrun : ∀ e ∈ run, e.2.Proper ∧ T.Respects e.2 := by
    simp only [run, List.forall_mem_cons]
    exact ⟨⟨trivial, hgang⟩, ⟨trivial, hother⟩, ⟨trivial, trivial⟩, ⟨trivial, trivial⟩,
      ⟨trivial, trivial⟩, ⟨trivial, trivial⟩, List.forall_mem_nil _⟩
  have halone : ∀ e ∈ alone, e.2.Proper ∧ T.Respects e.2 := by
    simp only [alone, List.forall_mem_cons]
    exact ⟨⟨trivial, hgang⟩, ⟨trivial, trivial⟩, ⟨trivial, trivial⟩, ⟨trivial, trivial⟩,
      List.forall_mem_nil _⟩
  have hsame : T.concerns ScriptedManager.connector run d =
      T.concerns ScriptedManager.connector alone d := by decide +kernel
  have hall := handles_isolated T ScriptedManager.connector ScriptedManager.connector ⟨"queue"⟩
    ({} : ScriptedManager) {} hrun halone hsame
  exact ⟨hall.1, hall.2.2, by decide +kernel⟩

end ClusterBroker.Tenant
