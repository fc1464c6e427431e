import ClusterBroker.Proofs.Broker.Shut

/-!
# What the controller notes in a run

Through every operation the notes of the controller change in step with what happens: the wait for
an allocation starts over when a batch completes a gang or a round ends, and the gangs that leave
the queue were placed again, could not be, or were given up by a client. The run may stop the
registry; only its requests have to come under ids that the broker does not know at that moment.
-/
namespace ClusterBroker

/-! ### Batches one after the other -/

/-- Each batch is taken in by the ledger that the one before it left. -/
inductive Intake.Chain (clock : Time) : Ledger → List Intake → Ledger → Prop
  | done (l : Ledger) : Chain clock l [] l
  | next {cs : List Change} {l l' : Ledger} {xs : List Intake} :
      Chain clock (Intake.after ⟨clock, cs, l⟩) xs l' → Chain clock l (⟨clock, cs, l⟩ :: xs) l'

namespace Desk

variable {σ : Type} (C : Connector σ) (clock : Time) (d : Desk σ)

theorem receiveAll_chain (xs : List (Delivery σ)) (d : Desk σ) :
    Intake.Chain clock d.ledger (intakesOf clock (arrivals C clock xs d))
      (receiveAll C clock xs d).1.ledger := by
  induction xs generalizing d with
  | nil => exact .done _
  | cons x xs ih =>
    have hrest := ih (d.receive C clock x).1
    have hfirst : (d.receive C clock x).1.ledger =
        Intake.after ⟨clock, x.changes, d.ledger⟩ :=
      onChanges_ledger C clock x.changes { d with connector := x.passing d.connector }
    rw [hfirst] at hrest
    exact .next hrest

theorem place_chain {r : Reservation} {d : Desk σ} (h : d.Admits r) :
    ∃ l, Intake.Chain clock (d.ledger.add r) (intakesOf clock (d.placeArrivals C clock r)) l := by
  obtain ⟨hs, hc⟩ := h
  have hl : d.registry.ledger.insert r = .ok (d.ledger.add r) := by
    unfold Ledger.insert
    rw [show d.registry.ledger.conflict? r = none from hc]
    rfl
  have hchain := receiveAll_chain C clock (C.reserve clock r.resources d.connector).2.1
    { d.setLedger (d.ledger.add r) with connector := (C.reserve clock r.resources d.connector).2.2 }
  have harr : d.placeArrivals C clock r = arrivals C clock
      (C.reserve clock r.resources d.connector).2.1 { d.setLedger (d.ledger.add r) with
        connector := (C.reserve clock r.resources d.connector).2.2 } := by
    unfold placeArrivals
    rw [if_neg (by simp [hs]), hl]
  rw [harr]
  exact ⟨_, hchain⟩

theorem deliver_chain (cs : List Change) : Intake.Chain clock d.ledger
    ((Op.deliver cs).intakes C clock d) (Intake.after ⟨clock, cs, d.ledger⟩) := .next (.done _)

theorem halt_chain (order : Ledger → List ResourceId) : Intake.Chain clock d.ledger
    ((Op.halt order).intakes C clock d)
      (Intake.after ⟨clock, (order d.ledger).map .lost, d.ledger⟩) := .next (.done _)

end Desk

namespace GangControl

variable {c : GangControl} {clock : Time} {l l' : Ledger} {hand : List Reservation} {n : Nat}

theorem learn_of_isEmpty {e : Event} (h : e.isEmpty = true) (c : GangControl) :
    c.learn clock e = c := by
  unfold Event.isEmpty at h
  simp only [Bool.and_eq_true, List.isEmpty_iff] at h
  obtain ⟨⟨⟨⟨⟨ha, har⟩, hrr⟩, -⟩, -⟩, -⟩ := h
  simp [learn, ha, har, hrr, forgetAll]

theorem foldl_learn_filter (es : List Event) (c : GangControl) :
    (es.filter fun e => !e.isEmpty).foldl (fun c e => c.learn clock e) c =
      es.foldl (fun c e => c.learn clock e) c := by
  induction es generalizing c with
  | nil => rfl
  | cons e es ih =>
    cases he : e.isEmpty with
    | true => simp [he, ih, learn_of_isEmpty he]
    | false => simp [he, ih]

/-- A gang in the books that agree with a ledger is submitted if it is open there. -/
theorem Agrees.submitted_of_isOpen (h : Agrees c l hand []) {id : ReservationId}
    (ho : l.isOpen id = true) :
    (c.submitted.get? id).isSome = true ↔ ∃ r, l.get? id = some r ∧ r.gang = true := by
  obtain ⟨r, hr, hro⟩ := (Option.any_eq_true _ _).1 ho
  rw [h.submitted_iff]
  constructor
  · rintro (hh | ⟨hg, -⟩)
    · obtain ⟨t, ht, rfl⟩ := List.mem_map.1 hh
      rw [(h.hand_known t ht).2.2] at hr
      simp at hr
    · obtain ⟨t, ht, hg, -⟩ := Ledger.openGang_iff.1 hg
      exact ⟨t, ht, hg⟩
  · rintro ⟨t, ht, hg⟩
    rw [hr] at ht
    exact .inr ⟨Ledger.openGang_iff.2 ⟨r, hr, Option.some.inj ht ▸ hg, hro⟩, by simp⟩

variable {x : Intake}

/-- A batch is clear to a controller that agrees with the ledger. -/
theorem Agrees.clear (h : Agrees c x.ledger hand []) : c.Clear x.events := by
  have hr := Ledger.reconcile_reflects h.sound x.clock x.changes
  refine ⟨?_, fun id hid hw => ?_, fun e he => (hr.fits e he).listed, fun e he y hy hs => ?_⟩
  · rw [List.nodup_iff_count_le_one]
    intro id
    have hc := hr.succeeds.settled id
    unfold Intake.events
    cases ho : x.ledger.isOpen id with
    | false =>
      rw [ho] at hc
      simp at hc
      omega
    | true =>
      rw [ho] at hc
      simp at hc
      omega
  · have ho := (hr.succeeds.of_mem hid).1
    rw [Ledger.isOpen_of_none (h.waiting_away id hw).1] at ho
    simp at ho
  · rcases (h.submitted_iff y.reservation).1 hs with hh | ⟨ho, -⟩
    · obtain ⟨r, hr', he'⟩ := List.mem_map.1 hh
      exact absurd (he' ▸ (h.hand_known r hr').2.2) ((hr.fits e he).tracked y hy)
    · obtain ⟨r, hr', hg, -⟩ := Ledger.openGang_iff.1 ho
      exact (hr.fits e he).whole y hy r hr' hg

/-- The batch completes a gang exactly if its events name one that is submitted. -/
theorem Agrees.completes_eq (h : Agrees c x.ledger hand []) :
    (allocatedIn x.events).any c.submitted.contains = x.completes := by
  have hr := Ledger.reconcile_reflects h.sound x.clock x.changes
  rw [Bool.eq_iff_iff, List.any_eq_true]
  unfold Intake.completes
  rw [List.any_eq_true]
  constructor
  · rintro ⟨id, hid, hs⟩
    obtain ⟨ho, t, ht, hst⟩ := hr.mem_allocatedIn.1 hid
    obtain ⟨r, hget, hg⟩ := (h.submitted_of_isOpen ho).1 hs
    have hrid := h.sound.id_eq hget
    rw [Ledger.isOpen_of_get? hget] at ho
    refine ⟨r, Table.mem_values.2 ⟨id, hget⟩, ?_⟩
    rw [hg, ho, hrid, show x.after.get? id = some t from ht]
    simp [hst]
  · rintro ⟨r, hv, hall⟩
    obtain ⟨k, hk⟩ := Table.mem_values.1 hv
    have hget : x.ledger.get? k = some r := hk
    rw [Bool.and_eq_true, Bool.and_eq_true, h.sound.id_eq hget] at hall
    obtain ⟨⟨hg, ho⟩, hafter⟩ := hall
    obtain ⟨t, ht, hst⟩ := (Option.any_eq_true _ _).1 hafter
    have hopen : x.ledger.isOpen k = true := by rw [Ledger.isOpen_of_get? hget, ho]
    exact ⟨k, hr.mem_allocatedIn.2 ⟨hopen, t, ht, of_decide_eq_true hst⟩,
      (h.submitted_of_isOpen hopen).2 ⟨r, hget, hg⟩⟩

/-- Batch by batch the controller learns what it has to. -/
theorem Agrees.chain {xs : List Intake} (h : Agrees c l hand []) (hx : Intake.Chain clock l xs l') :
    c.Notes clock (xs.any Intake.completes) 0 n n
      ((xs.flatMap Intake.events).foldl (fun c e => c.learn clock e) c) := by
  induction hx generalizing c with
  | done l => exact .refl c clock n
  | @next cs l l' xs hrest ih =>
    have h' : Agrees c (Intake.ledger ⟨clock, cs, l⟩) hand [] := h
    have hone : c.Notes clock _ 0 n n _ := (Agrees.clear h').learn_notes h'.tidy
    rw [Agrees.completes_eq h'] at hone
    have hnext := h.batch (Ledger.reconcile_succeeds h.sound clock cs)
      (foldl_learn_struck h.tidy clock (l.reconcile clock cs).events)
    rw [List.flatMap_cons, List.foldl_append, List.any_cons]
    exact hone.trans (ih hnext)

end GangControl

namespace Broker

open GangControl (Agrees Notes)

variable {σ : Type} (C : Connector σ) (clock now : Time) {b b' b'' : Broker σ} {s : Supervisor}
  {restart restart' : Bool} {gone gone' n n' n'' : Nat}

/-- From `b` to `b'` the controller takes these notes. -/
def Noted (clock : Time) (restart : Bool) (gone n n' : Nat) (b b' : Broker σ) : Prop :=
  ∃ c c', b.control? = some c ∧ b'.control? = some c' ∧ c.Notes clock restart gone n n' c'

variable {clock}

theorem Noted.trans (h : Noted clock restart gone n n' b b')
    (h' : Noted clock restart' gone' n' n'' b' b'') :
    Noted clock (restart || restart') (gone + gone') n n'' b b'' := by
  obtain ⟨c, c₁, hc, hc₁, hn⟩ := h
  obtain ⟨c₁', c₂, hc₁', hc₂, hn'⟩ := h'
  rw [hc₁] at hc₁'
  rw [← Option.some.inj hc₁'] at hn'
  exact ⟨c, c₂, hc, hc₂, hn.trans hn'⟩

theorem Noted.control? (h : Noted clock restart gone n n' b b') : ∃ c', b'.control? = some c' := by
  obtain ⟨-, c', -, hc', -⟩ := h
  exact ⟨c', hc'⟩

/-- A stretch in which nothing is noted goes before another one. -/
theorem Noted.after_silence (h' : Noted clock restart gone n' n'' b' b'')
    (h : Noted clock false 0 n n' b b') : Noted clock restart gone n n'' b b'' := by
  have hall := h.trans h'
  rwa [Bool.false_or, Nat.zero_add] at hall

theorem Noted.then_silence (h : Noted clock restart gone n n' b b')
    (h' : Noted clock false 0 n' n'' b' b'') : Noted clock restart gone n n'' b b'' := by
  have hall := h.trans h'
  rwa [Bool.or_false, Nat.add_zero] at hall

theorem Noted.of_control {c : GangControl} (hc : b.control? = some c)
    (he : b'.control? = b.control?) (n : Nat) : Noted clock false 0 n n b b' :=
  ⟨c, c, hc, he.trans hc, .refl c clock n⟩

theorem Noted.same_control (h : Noted clock restart gone n n' b b')
    (he : b''.control? = b'.control?) : Noted clock restart gone n n' b b'' := by
  obtain ⟨c, c', hc, hc', hn⟩ := h
  exact ⟨c, c', hc, he.trans hc', hn⟩

theorem modifyControl_control? (f : GangControl → GangControl) (b : Broker σ) :
    (b.modifyControl f).control? = b.control?.map f := by
  unfold Broker.modifyControl control?
  rw [Option.map_map, Option.map_map]
  rfl

theorem Noted.modifyControl {c : GangControl} {f : GangControl → GangControl}
    (hc : b.control? = some c) (hn : c.Notes clock restart gone n n' (f c)) :
    Noted clock restart gone n n' b (b.modifyControl f) := by
  refine ⟨c, f c, hc, ?_, hn⟩
  rw [modifyControl_control?, hc, Option.map_some]

theorem forward_noted {c : GangControl} (hc : b.control? = some c) (e : Event) (n : Nat) :
    Noted clock false 0 n n b (b.forward e) := .of_control hc (forward_unseen e b).2 n

theorem follow_noted (h : Manned b s) {sent : List (Dispatch σ)} {xs : List Intake}
    (hx : eventsOf sent = xs.flatMap Intake.events) (hn : s.control.Notes clock restart gone n n'
      ((xs.flatMap Intake.events).foldl (fun c e => c.learn clock e) s.control)) (d : Desk σ) :
    Noted clock restart gone n n' b (b.follow clock sent d) := by
  obtain ⟨s', ht, hc⟩ := follow_tells h clock sent d
  rw [flatMap_spoken, hx, GangControl.foldl_learn_filter] at hc
  exact ⟨s.control, s'.control, h.control?, ht.manned.control?, hc ▸ hn⟩

/-! ### Where a run stands -/

/-- At rest between operations, before the registry is stopped or after. Some gangs may be in
hand. -/
inductive Stands (b : Broker σ) (s : Supervisor) (hand : List Reservation) : Prop
  | serving (h : At b s hand [])
  | shut (h : Shut b s hand [])

variable {hand : List Reservation}

theorem Stands.manned (h : Stands b s hand) : Manned b s := by
  cases h with
  | serving h => exact h.manned
  | shut h => exact h.manned

theorem Stands.neat (h : Stands b s hand) : s.control.Neat [] := by
  cases h with
  | serving h => exact h.agrees.neat
  | shut h => exact h.neat

theorem Stands.hand_away (h : Stands b s hand) : ∀ r ∈ hand, r.id ∉ s.control.waiting := by
  cases h with
  | serving h => exact fun r hr hw => (h.agrees.waiting_away r.id hw).2 (List.mem_map_of_mem hr)
  | shut h => exact h.hand_away

variable (clock) in
/-- Whether the wait for an allocation starts over with a placement, and nothing else. -/
theorem Stands.place_noted (h : Stands b s hand) (r : Reservation)
    (hadd : At b s hand [] → b.desk.Admits r →
      ∃ hand', Agrees s.control (b.desk.ledger.add r) hand' []) (n : Nat) :
    Noted clock ((Desk.intakesOf clock (b.desk.placeArrivals C clock r)).any Intake.completes) 0 n n
      b (b.place C clock r).2 := by
  refine follow_noted h.manned (Desk.eventsOf_place C clock r b.desk) ?_ _
  by_cases ha : b.desk.Admits r
  · cases h with
    | serving h =>
      obtain ⟨hand', hagrees⟩ := hadd h ha
      obtain ⟨l, hl⟩ := Desk.place_chain C clock ha
      exact hagrees.chain hl
    | shut h =>
      rw [Desk.Admits, h.closed.stopped] at ha
      exact absurd ha.1 (by simp)
  · rw [(Desk.place_of_not_admits C clock ha).1]
    exact .refl s.control clock n

variable (clock) in
/-- After a placement nobody waits who did not wait before. -/
theorem Stands.place_struck (h : Stands b s hand) (r : Reservation) :
    ∃ s' ids, Manned (b.place C clock r).2 s' ∧ GangControl.Struck ids s.control s'.control := by
  obtain ⟨s', hh, hs⟩ := follow_hears h.manned h.neat.tidy clock (b.desk.place C clock r).sent
    (b.desk.place C clock r).desk
  exact ⟨s', _, hh.manned, hs⟩

/-! ### Stepping back -/

theorem stepBacks_noted {c : GangControl} (hc : b.control? = some c)
    (vs : List (ReservationId × HandleId)) :
    Noted clock false 0 n n b (vs.foldl (stepBack C clock now) b) := by
  induction vs generalizing b c with
  | nil => exact .of_control hc rfl n
  | cons v vs ih =>
    have hone : Noted clock false 0 n n b (b.stepBack C clock now v) := by
      have hd : ({ b with desk := (b.desk.release C clock v.2 v.1 false).2 } : Broker σ).control? =
          some c := hc
      have hstep : c.Notes clock false 0 n n _ := GangControl.stepBack_notes now v.1 c
      obtain ⟨k, k', hk, hk', hn⟩ := Noted.modifyControl hd hstep
      exact ⟨k, k', hk, hk', hn⟩
    obtain ⟨c', hc'⟩ := hone.control?
    exact (ih hc').after_silence hone

/-- A round restarts the wait for an allocation. -/
theorem backOffRound_noted {c : GangControl} (hc : b.control? = some c) :
    Noted clock true 0 n n b (b.backOffRound C clock now c) := by
  have hbegin : Noted clock false 0 n n b
      (b.modifyControl fun _ => c.pickVictims.2.noteRound c.pickVictims.1) :=
    .modifyControl hc (GangControl.noteRound_notes c)
  obtain ⟨c₁, hc₁⟩ := hbegin.control?
  have hsteps : Noted clock false 0 n n _ _ := stepBacks_noted C now hc₁ c.pickVictims.1
  obtain ⟨c₂, hc₂⟩ := hsteps.control?
  have hend : Noted clock true 0 n n _ _ :=
    .modifyControl (f := fun c => { c with lastAllocation := clock }) hc₂
      (GangControl.restart_notes c₂)
  exact (hend.after_silence hsteps).after_silence hbegin

/-! ### What an operation counts for -/

/-- The batches that an operation takes in. -/
def Op.intakes (op : Op σ) (clock : Time) (b : Broker σ) : List Intake :=
  Desk.intakes C ((op.errands C clock b).map (Prod.mk clock)) b.desk

/-- A batch of the operation completes a gang. -/
def Op.completes (op : Op σ) (clock : Time) (b : Broker σ) : Bool :=
  (op.intakes C clock b).any Intake.completes

/-- The operation ends in a round, or would if there were anyone to draw. -/
def Op.endsRound (limit : Span) (clock last : Time) : Op σ → Bool
  | .avoidDeadlock now => !decide (now.since last < limit)
  | .turn => !decide (clock.since last < limit)
  | _ => false

theorem Op.endsRound_eq_false (op : Op σ) (h : ∀ now, op ≠ .avoidDeadlock now) (ht : op ≠ .turn)
    (limit : Span) (clock last : Time) : op.endsRound limit clock last = false := by
  unfold endsRound
  split
  next now => exact absurd rfl (h now)
  next => exact absurd rfl ht
  next => rfl

/-- The waiting gangs that a client gives up with an operation. -/
def Op.givesUp (op : Op σ) (b : Broker σ) : Nat :=
  match b.control? with
  | none => 0
  | some c => ((c.waiting.filterMap c.known.get?).filter op.releases).length

theorem Op.givesUp_eq_zero {op : Op σ} (h : ∀ r, op.releases r = false) (b : Broker σ) :
    op.givesUp b = 0 := by
  unfold givesUp
  cases b.control? with
  | none => rfl
  | some c =>
    dsimp only
    rw [List.length_eq_zero_iff, List.filter_eq_nil_iff]
    intro r _
    simp [h]

/-- Who waits and is struck out is given up. -/
theorem Op.givesUp_eq {op : Op σ} {c : GangControl} (hc : b.control? = some c) (h : c.Neat [])
    (ids : List ReservationId) (hids : ∀ k ∈ c.waiting, ∀ r, c.known.get? k = some r →
      (k ∈ ids ↔ op.releases r = true)) :
    op.givesUp b = (c.waiting.filter (· ∈ ids)).length := by
  have hknown : ∀ k ∈ c.waiting, ∃ r, c.known.get? k = some r := fun k hk =>
    Option.isSome_iff_exists.1 (h.away_known k (List.mem_append_left _ hk))
  unfold givesUp
  rw [hc]
  dsimp only
  generalize c.waiting = ks at hids hknown
  induction ks with
  | nil => rfl
  | cons k ks ih =>
    rw [List.forall_mem_cons] at hids hknown
    obtain ⟨r, hr⟩ := hknown.1
    have hone := hids.1 r hr
    have hrest := ih hids.2 hknown.2
    rw [List.filterMap_cons_some hr, List.filter_cons, List.filter_cons]
    by_cases hk : k ∈ ids
    · rw [if_pos (hone.1 hk), if_pos (decide_eq_true hk), List.length_cons, List.length_cons, hrest]
    · rw [if_neg fun hn => hk (hone.2 hn), if_neg (by simpa using hk), hrest]

/-! ### Calls of clients -/

theorem forgetWhere_noted (h : Stands b s []) (op : Op σ) :
    Noted clock false (op.givesUp b) 0 0 b (b.forgetWhere op.releases).2 := by
  obtain ⟨ids, hs, hids⟩ := GangControl.forgetWhere_struck h.neat.tidy h.neat.known_id op.releases
  have hn : s.control.Notes clock false _ 0 0 _ :=
    hs.notes (GangControl.forgetAll_quiet _ s.control)
  rw [Op.givesUp_eq h.manned.control? h.neat ids fun k _ r hr => by rw [hids, hr]; rfl]
  refine ⟨s.control, (s.control.forgetWhere op.releases).2, h.manned.control?, ?_, hn⟩
  unfold Broker.forgetWhere
  rw [h.manned.supervisor]
  rfl

theorem forgetOf_noted (h : Stands b s []) (hd : HandleId) (id : ReservationId) (noCache : Bool) :
    Noted clock false ((Op.release hd id noCache : Op σ).givesUp b) 0 0 b (b.forgetOf hd id).2 := by
  have hs := GangControl.forget_struck h.neat.tidy id
  unfold Broker.forgetOf
  rw [h.manned.supervisor]
  dsimp only
  split
  next ha =>
    obtain ⟨r, hr, hrh⟩ := (Option.any_eq_true _ _).1 ha
    have hn : s.control.Notes clock false _ 0 0 _ :=
      hs.notes (GangControl.forget_quiet id s.control)
    rw [Op.givesUp_eq h.manned.control? h.neat [id] fun k _ t ht => ?_]
    · exact ⟨s.control, (s.control.forget id).2, h.manned.control?, rfl, hn⟩
    · have hid := h.neat.known_id ht
      rw [List.mem_singleton, ← hid]
      simp only [Op.releases, Bool.and_eq_true, decide_eq_true_iff]
      refine ⟨fun he => ⟨he, ?_⟩, fun he => he.1⟩
      rw [← hid, he, hr] at ht
      rw [← Option.some.inj ht]
      exact of_decide_eq_true hrh
  next ha =>
    rw [Op.givesUp_eq h.manned.control? h.neat [] fun k _ t ht => ?_]
    · simpa using Noted.of_control h.manned.control? rfl 0
    · have hid := h.neat.known_id ht
      simp only [Op.releases, Bool.and_eq_true, decide_eq_true_iff, List.not_mem_nil, false_iff]
      rintro ⟨he, hh⟩
      rw [← hid, he] at ht
      rw [ht] at ha
      exact ha (by simpa using hh)

/-- After the registry was stopped no batch completes anything. -/
theorem Shut.completes_eq (h : Shut b s [] []) (op : Op σ) (clock : Time) :
    op.completes C clock b = false := by
  have hrun : ∀ (run : List (Time × Desk.Op σ)) {d : Desk σ}, d.Closed →
      (Desk.intakes C run d).any Intake.completes = false := by
    intro run
    induction run with
    | nil => exact fun _ => rfl
    | cons e run ih =>
      intro d hd
      unfold Desk.intakes
      rw [List.any_append, hd.intakes C e.1 e.2, ih (Desk.Op.run_closed C e.1 hd e.2).1]
      rfl
  exact hrun _ h.closed

theorem intakes_single (o : Desk.Op σ) (d : Desk σ) :
    Desk.intakes C ([o].map (Prod.mk clock)) d = o.intakes C clock d := List.append_nil _

theorem placement_intakes (c : GangControl) {id : ReservationId} {q : Request}
    (hf : q.fault? = none) (hk : c.known.contains id = false) (hw : c.backoff.isEmpty = true)
    (d : Desk σ) : Desk.intakes C ((placement clock c id q).map (Prod.mk clock)) d =
      Desk.intakesOf clock (d.placeArrivals C clock (.ofRequest id q clock)) := by
  unfold placement
  rw [if_pos ⟨hf, hk, hw⟩, intakes_single]
  rfl

theorem placement_nothing (c : GangControl) {id : ReservationId} {q : Request}
    (hn : ¬ (q.fault? = none ∧ c.known.contains id = false ∧ c.backoff.isEmpty = true))
    (d : Desk σ) : Desk.intakes C ((placement clock c id q).map (Prod.mk clock)) d = [] := by
  unfold placement
  rw [if_neg hn]
  rfl

theorem submitGang_noted {r : Reservation} (h : At b s [] []) (hf : r.Fresh) (hg : r.gang = true)
    (hk : s.control.known.get? r.id = none) (hn : b.desk.ledger.get? r.id = none) :
    Noted clock ((Desk.intakesOf clock (b.desk.placeArrivals C clock r)).any Intake.completes) 0 0 0
      b (b.submitGang C clock r).2 := by
  have hsub : At (b.modifyControl (GangControl.submit r))
      { s with control := s.control.submit r } [r] [] :=
    ⟨h.manned.modifyControl _, h.agrees.submit hf hg hk hn⟩
  have hbegin : Noted clock false 0 0 0 b (b.modifyControl (GangControl.submit r)) :=
    .modifyControl h.manned.control? ((GangControl.submit_quiet r s.control).notes rfl)
  have hplace := (Stands.serving hsub).place_noted C clock r
    (fun h' ha => ⟨[], h'.agrees.add ha.2⟩) 0
  have hall := hplace.after_silence hbegin
  unfold submitGang
  dsimp only
  split
  next => exact hall
  next =>
    obtain ⟨s', ids, hm, hs⟩ := (Stands.serving hsub).place_struck C clock r
    refine hall.then_silence (.modifyControl hm.control? ?_)
    have hgone := GangControl.forget_struck (hs.tidy hsub.agrees.tidy) r.id
    refine hgone.notes_of_away (GangControl.forget_quiet _ _) fun k hk' hw => ?_
    rw [List.mem_singleton.1 hk', hs.waiting] at hw
    exact h.agrees.not_waiting hk (List.mem_of_mem_filter hw)

theorem At.reserveDirectly_noted (h : At b s [] []) {id : ReservationId} {q : Request}
    (hg : q.gang = false) (hk : s.control.known.get? id = none) :
    Noted clock ((Desk.Op.intakes C clock (.reserve id q) b.desk).any Intake.completes) 0 0 0 b
      (b.reserveDirectly C clock id q).2 := by
  refine follow_noted h.manned (Desk.Op.eventsOf_run C clock (.reserve id q) b.desk) ?_ _
  unfold Desk.Op.intakes Desk.Op.arrivals
  dsimp only
  cases hf : q.fault? with
  | some f => exact .refl s.control clock 0
  | none =>
    have hfresh := Reservation.fresh_ofRequest id clock hf
    by_cases ha : b.desk.Admits (.ofRequest id q clock)
    · obtain ⟨l, hl⟩ := Desk.place_chain C clock ha
      exact (h.agrees.add_other hfresh.sound hg hk ha.2).chain hl
    · rw [(Desk.place_of_not_admits C clock ha).1]
      exact .refl s.control clock 0

theorem At.reserveGang_noted (h : At b s [] []) {id : ReservationId} {q : Request}
    (hg : q.gang = true) (hk : s.control.known.get? id = none)
    (hn : b.desk.ledger.get? id = none) :
    Noted clock ((Desk.intakes C ((placement clock s.control id q).map (Prod.mk clock)) b.desk).any
      Intake.completes) 0 0 0 b (b.reserveGang C clock id q s.control).2 := by
  unfold reserveGang
  cases hf : q.fault? with
  | some f =>
    rw [placement_nothing C s.control (by simp [hf])]
    exact .of_control h.manned.control? rfl 0
  | none =>
    dsimp only
    have hkn : s.control.known.contains id = false := Table.contains_eq_false.2 hk
    rw [if_neg (by simp [hkn])]
    split
    next hw =>
      rw [placement_intakes C s.control hf hkn hw]
      exact submitGang_noted C h (Reservation.fresh_ofRequest id clock hf) hg hk hn
    next hw =>
      rw [placement_nothing C s.control (by simp [hw])]
      exact .modifyControl h.manned.control? (GangControl.wait_notes _ _ _)

theorem reserve_noted (h : Stands b s []) (id : ReservationId) (q : Request)
    (hfree : b.get? id = none) : Noted clock ((Op.reserve id q).completes C clock b) 0 0 0 b
      (b.reserve C clock id q).2 := by
  cases h with
  | shut h =>
    rw [h.completes_eq]
    rcases h.reserve_eq C clock id q with he | ⟨-, he⟩
    · rw [he]
      exact .of_control h.manned.control? rfl 0
    · rw [he]
      exact .modifyControl h.manned.control? (GangControl.wait_notes _ _ _)
  | serving h =>
    obtain ⟨hk, hn⟩ := h.unknown hfree
    have herrands : (Op.reserve id q).errands C clock b =
        if q.gang then placement clock s.control id q else [.reserve id q] := by
      unfold Op.errands
      dsimp only
      rw [h.manned.control?]
    unfold Broker.reserve Op.completes Op.intakes
    rw [herrands, h.manned.control?]
    dsimp only
    cases hg : q.gang with
    | false =>
      simp only [Bool.false_eq_true, if_false]
      rw [intakes_single]
      exact h.reserveDirectly_noted C hg hk
    | true =>
      simp only [if_true]
      exact h.reserveGang_noted C hg hk hn

/-! ### Second chances -/

variable (clock) in
theorem Stands.placeAgain {r : Reservation} (h : Stands b s (r :: hand)) :
    ∃ s', Stands (b.placeAgain C clock r) s' hand := by
  cases h with
  | serving h =>
    obtain ⟨s', ids, h', -⟩ := placeAgain_passes C clock h
    exact ⟨s', .serving h'⟩
  | shut h =>
    obtain ⟨s', h'⟩ := h.placeAgain C clock
    exact ⟨s', .shut h'⟩

variable (clock) in
theorem placeAgain_noted {r : Reservation} (h : Stands b s (r :: hand)) (n : Nat) :
    Noted clock ((Desk.intakesOf clock (b.desk.placeArrivals C clock r)).any Intake.completes) 0
      (n + 1) n b (b.placeAgain C clock r) := by
  have hplace := h.place_noted C clock r
    (fun h' ha => ⟨hand, h'.agrees.add ha.2⟩) (n + 1)
  obtain ⟨s', ids, hm, hs⟩ := h.place_struck C clock r
  unfold placeAgain
  dsimp only
  split
  next =>
    exact hplace.then_silence
      (.modifyControl hm.control? (GangControl.noteResubmission_notes true s'.control))
  next =>
    have hgone := GangControl.forget_struck (c := s'.control.noteResubmission false)
      (hs.tidy h.neat.tidy) r.id
    have hforget : (s'.control.noteResubmission false).Notes clock false 0 n n
        ((s'.control.noteResubmission false).forget r.id).2 := by
      refine hgone.notes_of_away (GangControl.forget_quiet _ _) fun k hk hw => ?_
      have hw : r.id ∈ s'.control.waiting := List.mem_singleton.1 hk ▸ hw
      rw [hs.waiting] at hw
      exact h.hand_away r (List.mem_cons_self ..) (List.mem_of_mem_filter hw)
    have hfail : s'.control.Notes clock false 0 (n + 1) n
        ((s'.control.noteResubmission false).forget r.id).2 :=
      (GangControl.noteResubmission_notes false s'.control).trans hforget
    have hboth := Noted.modifyControl
      (f := fun c => ((c.noteResubmission false).forget r.id).2) hm.control? hfail
    obtain ⟨c', hc'⟩ := hboth.control?
    exact (hplace.then_silence hboth).then_silence (forward_noted hc' _ n)

theorem placeAgains_noted (h : Stands b s hand) :
    Noted clock ((Desk.intakes C ((hand.map .place).map (Prod.mk clock)) b.desk).any
      Intake.completes) 0 hand.length 0 b (hand.foldl (placeAgain C clock) b) := by
  induction hand generalizing b s with
  | nil => exact .of_control h.manned.control? rfl 0
  | cons r hand ih =>
    obtain ⟨s₁, h₁⟩ := h.placeAgain C clock
    have hone := placeAgain_noted C clock h hand.length
    have hrest := ih h₁
    rw [placeAgain_desk] at hrest
    have hall := hone.trans hrest
    rw [← List.any_append] at hall
    exact hall

theorem retry_noted (h : Stands b s []) :
    Noted clock ((Op.retry now).completes C clock b) 0 0 0 b (b.retry C clock now).2 := by
  have hawake : Noted clock false 0 0 (s.control.wake now).1.length b
      (b.modifyControl fun _ => (s.control.wake now).2) :=
    .modifyControl h.manned.control? (h.neat.wake_notes now)
  have hstands : Stands (b.modifyControl fun _ => (s.control.wake now).2)
      { s with control := (s.control.wake now).2 } (s.control.wake now).1 := by
    cases h with
    | serving h => exact .serving ⟨h.manned.modifyControl _, (h.agrees.wake now).1⟩
    | shut h => exact .shut (h.modifyControl (h.neat.wake now).1 (h.neat.wake_away now))
  have herrands : (Op.retry now).errands C clock b = (s.control.wake now).1.map .place := by
    unfold Op.errands placements
    dsimp only
    rw [h.manned.control?]
  unfold Op.completes Op.intakes Broker.retry
  rw [herrands, h.manned.control?]
  exact (placeAgains_noted C hstands).after_silence hawake

end Broker

end ClusterBroker
