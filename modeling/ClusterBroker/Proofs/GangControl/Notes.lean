import ClusterBroker.Proofs.GangControl.Neat
import ClusterBroker.Proofs.Ledger.Completion

/-!
# What the controller notes

When it last saw an allocation or ended a round, how long its queue is, and how many gangs went
into the queue and came out of it, one way or the other. `Notes` says what a stretch of a run
adds to these notes: whether the wait for an allocation started over, and how many waiting gangs
were struck out. Gangs that were taken out of the queue and are still to be placed count as in
hand.
-/
namespace ClusterBroker.GangControl

variable {c c' c'' : GangControl} {clock : Time} {restart restart' : Bool}
  {gone gone' hand hand' hand'' : Nat}

/-- The gangs that stepped back and of which it is known what became. -/
def accounted (c : GangControl) : Nat :=
  c.tally.resubmitted + c.tally.resubmissionsFailed + c.backoff.size

structure Notes (clock : Time) (restart : Bool) (gone hand hand' : Nat) (c c' : GangControl) :
    Prop where
  options_eq : c'.options = c.options
  lastAllocation_eq : c'.lastAllocation = if restart then clock else c.lastAllocation
  waiting_eq : c.tally.waiting = c.backoff.size → c'.tally.waiting = c'.backoff.size
  balance : c'.tally.backedOff + c.accounted + hand =
    c.tally.backedOff + c'.accounted + hand' + gone

theorem Notes.trans (h : Notes clock restart gone hand hand' c c')
    (h' : Notes clock restart' gone' hand' hand'' c' c'') :
    Notes clock (restart || restart') (gone + gone') hand hand'' c c'' := by
  refine ⟨h'.options_eq.trans h.options_eq, ?_, fun hw => h'.waiting_eq (h.waiting_eq hw), ?_⟩
  · rw [h'.lastAllocation_eq, h.lastAllocation_eq]
    cases restart <;> cases restart' <;> rfl
  · have hb := h.balance
    have hb' := h'.balance
    omega

/-- Nothing is noted, except that the queue may have changed. -/
structure Quiet (c c' : GangControl) : Prop where
  options_eq : c'.options = c.options
  lastAllocation_eq : c'.lastAllocation = c.lastAllocation
  backedOff_eq : c'.tally.backedOff = c.tally.backedOff
  resubmitted_eq : c'.tally.resubmitted = c.tally.resubmitted
  failed_eq : c'.tally.resubmissionsFailed = c.tally.resubmissionsFailed
  waiting_eq : c.tally.waiting = c.backoff.size → c'.tally.waiting = c'.backoff.size

/-- Only the books change. -/
theorem Quiet.of_eq (ho : c'.options = c.options) (hl : c'.lastAllocation = c.lastAllocation)
    (hb : c'.backoff = c.backoff) (ht : c'.tally = c.tally) : Quiet c c' := by
  refine ⟨ho, hl, ?_, ?_, ?_, ?_⟩ <;> rw [ht]
  rw [hb]
  exact fun h => h

theorem Quiet.refl (c : GangControl) : Quiet c c := .of_eq rfl rfl rfl rfl

theorem Quiet.trans (h : Quiet c c') (h' : Quiet c' c'') : Quiet c c'' :=
  ⟨h'.options_eq.trans h.options_eq, h'.lastAllocation_eq.trans h.lastAllocation_eq,
    h'.backedOff_eq.trans h.backedOff_eq, h'.resubmitted_eq.trans h.resubmitted_eq,
    h'.failed_eq.trans h.failed_eq, fun hw => h'.waiting_eq (h.waiting_eq hw)⟩

theorem Quiet.notes (h : Quiet c c')
    (hs : c.backoff.size + hand = c'.backoff.size + hand' + gone) :
    Notes clock false gone hand hand' c c' := by
  refine ⟨h.options_eq, h.lastAllocation_eq, h.waiting_eq, ?_⟩
  unfold accounted
  rw [h.backedOff_eq, h.resubmitted_eq, h.failed_eq]
  omega

theorem Notes.refl (c : GangControl) (clock : Time) (hand : Nat) :
    Notes clock false 0 hand hand c c := (Quiet.refl c).notes rfl

/-! ### Striking out -/

theorem forget_quiet (id : ReservationId) (c : GangControl) : Quiet c (c.forget id).2 := by
  unfold forget
  dsimp only
  split
  next => exact ⟨rfl, rfl, rfl, rfl, rfl, fun h => h⟩
  next =>
    split
    · exact ⟨rfl, rfl, rfl, rfl, rfl, fun _ => rfl⟩
    · exact ⟨rfl, rfl, rfl, rfl, rfl, fun h => h⟩

theorem forgetAll_quiet (ids : List ReservationId) (c : GangControl) :
    Quiet c (forgetAll ids c).2 := by
  induction ids generalizing c with
  | nil => exact .refl c
  | cons id ids ih => exact (forget_quiet id c).trans (ih _)

theorem Struck.size_eq {ids : List ReservationId} (h : Struck ids c c') :
    c.backoff.size = c'.backoff.size + (c.waiting.filter (· ∈ ids)).length := by
  have hlen := List.length_eq_length_filter_add (l := c.waiting) fun k => decide (k ∈ ids)
  have hw := congrArg List.length h.waiting
  simp only [decide_not] at hw
  rw [← hw, Nat.add_comm] at hlen
  unfold GangControl.waiting at hlen ⊢
  rwa [DelayQueue.length_payloads, DelayQueue.length_payloads] at hlen

/-- The gangs that wait and are struck out are gone for good. -/
theorem Struck.notes {ids : List ReservationId} (h : Struck ids c c') (hq : Quiet c c') :
    Notes clock false (c.waiting.filter (· ∈ ids)).length hand hand c c' := by
  refine hq.notes ?_
  rw [h.size_eq]
  omega

theorem Struck.notes_of_away {ids : List ReservationId} (h : Struck ids c c') (hq : Quiet c c')
    (hn : ∀ id ∈ ids, id ∉ c.waiting) : Notes clock false 0 hand hand c c' := by
  have hnone : c.waiting.filter (· ∈ ids) = [] := by
    rw [List.filter_eq_nil_iff]
    intro k hk hm
    exact hn k (of_decide_eq_true hm) hk
  have hs : Notes clock false _ hand hand c c' := h.notes hq
  rwa [hnone] at hs

/-! ### Into the queue and out of it -/

theorem submit_quiet (r : Reservation) (c : GangControl) : Quiet c (c.submit r) :=
  .of_eq rfl rfl rfl rfl

theorem pick_quiet (wanted n : Nat) (c : GangControl) :
    Quiet c (c.pick wanted n).2 ∧ (c.pick wanted n).2.backoff = c.backoff := by
  induction n generalizing c wanted with
  | zero => exact ⟨.refl c, rfl⟩
  | succ n ih =>
    unfold GangControl.pick
    split
    next => exact ⟨.refl c, rfl⟩
    next =>
      dsimp only
      split
      next => exact ⟨.refl c, rfl⟩
      next k _ =>
        have hdraw : ∀ d s t, Quiet c { c with dice := d, submitted := s, known := t } :=
          fun _ _ _ => .of_eq rfl rfl rfl rfl
        split
        next =>
          obtain ⟨hq, hb⟩ := ih wanted { c with
            dice := (c.dice.draw c.submitted.size).2, submitted := c.submitted.remove k }
          exact ⟨(hdraw _ _ _).trans hq, hb⟩
        next r _ =>
          obtain ⟨hq, hb⟩ := ih (wanted - r.resources.length) { c with
            dice := (c.dice.draw c.submitted.size).2, submitted := c.submitted.remove k,
            known := c.known.insert k { r with status := .backedOff } }
          exact ⟨(hdraw _ _ _).trans hq, hb⟩

theorem noteRound_notes (c : GangControl) :
    Notes clock false 0 hand hand c (c.pickVictims.2.noteRound c.pickVictims.1) := by
  obtain ⟨hq, hb⟩ := pick_quiet c.target c.submitted.size c
  have hround : Quiet c.pickVictims.2 (c.pickVictims.2.noteRound c.pickVictims.1) := by
    unfold GangControl.noteRound
    split
    · exact .refl _
    · exact ⟨rfl, rfl, rfl, rfl, rfl, id⟩
  refine (hq.trans hround).notes ?_
  rw [(noteRound_books c).2.2]
  exact congrArg (·.size + hand) hb.symm

/-- Whoever goes into the queue is counted. -/
theorem wait_notes (now : Time) (r : Reservation) (c : GangControl) :
    Notes clock false 0 hand hand c (c.wait now r) := by
  obtain ⟨d, hd⟩ := drawDelay_eq c
  unfold wait
  dsimp only
  rw [hd]
  refine ⟨rfl, rfl, fun _ => rfl, ?_⟩
  change c.tally.backedOff + 1 + (c.tally.resubmitted + c.tally.resubmissionsFailed +
    c.backoff.size) + hand = c.tally.backedOff + (c.tally.resubmitted +
      c.tally.resubmissionsFailed + (c.backoff.size + 1)) + hand + 0
  omega

theorem stepBack_notes (now : Time) (id : ReservationId) (c : GangControl) :
    Notes clock false 0 hand hand c (c.stepBack now id) := by
  unfold stepBack
  split
  next =>
    obtain ⟨d, hd⟩ := drawDelay_eq c
    rw [hd]
    exact ⟨rfl, rfl, fun h => h, rfl⟩
  next => exact wait_notes now _ c

theorem go_quiet (ids : List ReservationId) (c : GangControl) : Quiet c (wake.go ids c).2 := by
  induction ids generalizing c with
  | nil => exact .refl c
  | cons id ids ih =>
    unfold wake.go
    split
    next => exact ih c
    next r _ => exact (submit_quiet r.reset c).trans (ih _)

theorem wake_quiet (now : Time) (c : GangControl) : Quiet c (c.wake now).2 := by
  have hout : Quiet c { c with backoff := (c.backoff.drain now).2 }.noteWaiting :=
    ⟨rfl, rfl, rfl, rfl, rfl, fun _ => rfl⟩
  exact hout.trans (go_quiet (c.backoff.drain now).1 _)

/-- What is taken out of the queue is in hand. -/
theorem Neat.wake_notes (h : Neat c []) (now : Time) :
    Notes clock false 0 0 (c.wake now).1.length c (c.wake now).2 := by
  obtain ⟨-, hids, hwait⟩ := h.wake now
  refine (wake_quiet now c).notes ?_
  have hlen := (c.backoff.drain_perm now).length_eq
  rw [List.length_append, ← hids, ← hwait, List.length_map] at hlen
  unfold waiting at hlen
  rw [DelayQueue.length_payloads, DelayQueue.length_payloads] at hlen
  change c.backoff.size + 0 = (c.wake now).2.backoff.size + (c.wake now).1.length + 0
  omega

/-- One gang in hand was placed again, or not. -/
theorem noteResubmission_notes (ok : Bool) (c : GangControl) :
    Notes clock false 0 (hand + 1) hand c (c.noteResubmission ok) := by
  unfold noteResubmission
  cases ok with
  | true =>
    refine ⟨rfl, rfl, id, ?_⟩
    change c.tally.backedOff + (c.tally.resubmitted + c.tally.resubmissionsFailed +
      c.backoff.size) + (hand + 1) = c.tally.backedOff + (c.tally.resubmitted + 1 +
        c.tally.resubmissionsFailed + c.backoff.size) + hand + 0
    omega
  | false =>
    refine ⟨rfl, rfl, id, ?_⟩
    change c.tally.backedOff + (c.tally.resubmitted + c.tally.resubmissionsFailed +
      c.backoff.size) + (hand + 1) = c.tally.backedOff + (c.tally.resubmitted +
        (c.tally.resubmissionsFailed + 1) + c.backoff.size) + hand + 0
    omega

/-- A round ends. -/
theorem restart_notes (c : GangControl) :
    Notes clock true 0 hand hand c { c with lastAllocation := clock } := ⟨rfl, rfl, id, rfl⟩

/-! ### Learning -/

/-- Learning strikes out, and it may restart the wait for an allocation. -/
theorem learn_tally (clock : Time) (e : Event) (c : GangControl) :
    (c.learn clock e).tally.resubmitted = c.tally.resubmitted ∧
      (c.learn clock e).tally.resubmissionsFailed = c.tally.resubmissionsFailed := by
  unfold learn
  dsimp only
  split
  · have hq := forgetAll_quiet (e.allocatedReservations ++ e.rejectedReservations)
      { c with lastAllocation := clock }
    exact ⟨hq.resubmitted_eq, hq.failed_eq⟩
  · have hq := forgetAll_quiet (e.allocatedReservations ++ e.rejectedReservations) c
    exact ⟨hq.resubmitted_eq, hq.failed_eq⟩

theorem foldl_learn_tally (clock : Time) (es : List Event) (c : GangControl) :
    (es.foldl (fun c e => c.learn clock e) c).tally.resubmitted = c.tally.resubmitted ∧
      (es.foldl (fun c e => c.learn clock e) c).tally.resubmissionsFailed =
        c.tally.resubmissionsFailed := by
  induction es generalizing c with
  | nil => exact ⟨rfl, rfl⟩
  | cons e es ih =>
    obtain ⟨hr, hf⟩ := learn_tally clock e c
    obtain ⟨hr', hf'⟩ := ih (c.learn clock e)
    exact ⟨hr'.trans hr, hf'.trans hf⟩

theorem learn_notes (h : c.Tidy) {e : Event} (hn : ∀ id ∈ e.settled, id ∉ c.waiting) :
    Notes clock (e.allocated.any fun x => c.submitted.contains x.reservation) 0 hand hand c
      (c.learn clock e) := by
  have hs := learn_struck h clock e
  unfold learn at hs ⊢
  dsimp only at hs ⊢
  cases hr : e.allocated.any fun x => c.submitted.contains x.reservation with
  | true =>
    rw [hr, if_pos rfl] at hs
    rw [if_pos rfl]
    have hs' : Struck e.settled { c with lastAllocation := clock } (forgetAll
        (e.allocatedReservations ++ e.rejectedReservations)
          { c with lastAllocation := clock }).2 := ⟨hs.known, hs.submitted, hs.waiting⟩
    exact (restart_notes c).trans (hs'.notes_of_away (forgetAll_quiet _ _) hn)
  | false =>
    rw [hr, if_neg Bool.false_ne_true] at hs
    rw [if_neg Bool.false_ne_true]
    exact hs.notes_of_away (forgetAll_quiet _ _) hn

/-- Events that name each reservation once, and list the resources of submitted ones together with
them. -/
structure Clear (c : GangControl) (es : List Event) : Prop where
  nodup : (settledIn es).Nodup
  away : ∀ id ∈ settledIn es, id ∉ c.waiting
  listed : ∀ e ∈ es, ∀ id ∈ e.allocatedReservations, ∃ x ∈ e.allocated, x.reservation = id
  whole : ∀ e ∈ es, ∀ x ∈ e.allocated, (c.submitted.get? x.reservation).isSome = true →
    x.reservation ∈ e.allocatedReservations

theorem Clear.any_eq {e : Event} {es : List Event} (h : c.Clear (e :: es)) :
    (e.allocated.any fun x => c.submitted.contains x.reservation) =
      e.allocatedReservations.any c.submitted.contains := by
  rw [Bool.eq_iff_iff, List.any_eq_true, List.any_eq_true]
  constructor
  · rintro ⟨x, hx, hs⟩
    exact ⟨x.reservation, h.whole e (List.mem_cons_self ..) x hx hs, hs⟩
  · rintro ⟨id, hid, hs⟩
    obtain ⟨x, hx, rfl⟩ := h.listed e (List.mem_cons_self ..) id hid
    exact ⟨x, hx, hs⟩

theorem Clear.tail {e : Event} {es : List Event} (h : c.Clear (e :: es))
    (hs : Struck e.settled c c') : c'.Clear es := by
  have hn := h.nodup
  rw [settledIn_cons, List.nodup_append] at hn
  refine ⟨hn.2.1, fun id hid hw => ?_, fun f hf => h.listed f (List.mem_cons_of_mem e hf),
    fun f hf x hx hsub => h.whole f (List.mem_cons_of_mem e hf) x hx ?_⟩
  · rw [hs.waiting] at hw
    exact h.away id (List.mem_append_right _ hid) (List.mem_of_mem_filter hw)
  · rw [hs.submitted] at hsub
    split at hsub
    next => simp at hsub
    next => exact hsub

/-- The wait for an allocation starts over with the first submitted gang that is allocated. -/
theorem Clear.learn_notes {es : List Event} (h : c.Clear es) (ht : c.Tidy) :
    Notes clock ((allocatedIn es).any c.submitted.contains) 0 hand hand c
      (es.foldl (fun c e => c.learn clock e) c) := by
  induction es generalizing c with
  | nil => exact .refl c clock hand
  | cons e es ih =>
    have hs := learn_struck ht clock e
    have hone : Notes clock _ 0 hand hand c _ := GangControl.learn_notes ht fun id hid =>
      h.away id (List.mem_append_left _ hid)
    have hrest : (allocatedIn es).any (c.learn clock e).submitted.contains =
        (allocatedIn es).any c.submitted.contains := by
      have hn := h.nodup
      rw [settledIn_cons, List.nodup_append] at hn
      rw [Bool.eq_iff_iff, List.any_eq_true, List.any_eq_true]
      refine exists_congr fun id => and_congr_right fun hid => ?_
      have hne : id ∉ e.settled := by
        obtain ⟨f, hf, hid⟩ := List.mem_flatMap.1 hid
        exact fun hm => hn.2.2 id hm id
          (List.mem_flatMap.2 ⟨f, hf, List.mem_append_left _ hid⟩) rfl
      unfold Table.contains
      rw [hs.submitted, if_neg hne]
    have hall := hone.trans (ih (h.tail hs) (hs.tidy ht))
    rw [h.any_eq, hrest, ← List.any_append] at hall
    exact hall

end ClusterBroker.GangControl
