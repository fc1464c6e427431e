import ClusterBroker.Proofs.Broker.Rest
import ClusterBroker.Proofs.Desk.Refusals

/-!
# Second chances

When gangs are placed again, all that are due are taken out of the queue first, and then placed one
after the other. What is told meanwhile comes back to the controller and changes its books, but it
is never about a gang that waits: the registry has nothing of those. So those who are due are placed
each once, in the order in which they wake up, and whatever becomes of one of them the others have
their turn.
-/
namespace ClusterBroker

open GangControl (Struck)

/-! ### What the controller makes of it -/

/-- From `c` to `c'` the gangs `due` are placed again, except for those whose placement fails. The
clients hear `es` meanwhile. -/
structure GangControl.Resubmits {σ : Type} (C : Connector σ) (due failed : List Reservation)
    (c : GangControl) (es : List Event) (c' : GangControl) : Prop where
  struck : Struck (settledIn es) c c'
  backoff_eq : c'.backoff = c.backoff
  resubmitted_eq : c'.tally.resubmitted + failed.length = c.tally.resubmitted + due.length
  failed_eq : c'.tally.resubmissionsFailed = c.tally.resubmissionsFailed + failed.length
  told : ∀ r ∈ failed, Event.rejection r.handle r.id ∈ es
  told_once : C.Granting → rejections es = failed.map fun r => .rejection r.handle r.id

namespace GangControl

variable {σ : Type} {C : Connector σ} {c c' c'' : GangControl} {es es' : List Event}
  {due due' failed failed' : List Reservation} {r : Reservation}

theorem Resubmits.refl (C : Connector σ) (c : GangControl) : Resubmits C [] [] c [] c :=
  ⟨.refl c, rfl, rfl, rfl, List.forall_mem_nil _, fun _ => rfl⟩

theorem Resubmits.trans (h : Resubmits C due failed c es c')
    (h' : Resubmits C due' failed' c' es' c'') :
    Resubmits C (due ++ due') (failed ++ failed') c (es ++ es') c'' := by
  have hr := h.resubmitted_eq
  have hr' := h'.resubmitted_eq
  have hf := h.failed_eq
  have hf' := h'.failed_eq
  refine ⟨?_, h'.backoff_eq.trans h.backoff_eq, ?_, ?_, fun r hr => ?_, fun hC => ?_⟩
  · rw [settledIn_append]
    exact h.struck.trans h'.struck
  · rw [List.length_append, List.length_append]
    omega
  · rw [List.length_append]
    omega
  · rcases List.mem_append.1 hr with hr | hr
    · exact List.mem_append_left _ (h.told r hr)
    · exact List.mem_append_right _ (h'.told r hr)
  · rw [rejections_append, h.told_once hC, h'.told_once hC, List.map_append]

/-- Events are heard that nobody who waits is named in. -/
theorem Resubmits.learn (ht : c.Tidy) (clock : Time) {es : List Event}
    (haway : ∀ id ∈ settledIn es, id ∉ c.waiting)
    (hnone : C.Granting → ∀ e ∈ es, e.rejectedReservations = []) :
    Resubmits C [] [] c es (es.foldl (fun c e => c.learn clock e) c) := by
  obtain ⟨hr, hf⟩ := foldl_learn_tally clock es c
  refine ⟨foldl_learn_struck ht clock es, ?_, hr, hf, List.forall_mem_nil _,
    fun hC => rejections_eq_nil (hnone hC)⟩
  rw [ht.foldl_learn_backoff, DelayQueue.filter_eq_self]
  intro k hk
  exact decide_eq_true fun hid => haway k hid hk

theorem Resubmits.placed (C : Connector σ) (r : Reservation) (c : GangControl) :
    Resubmits C [r] [] c [] (c.noteResubmission true) := by
  have hs := Struck.refl c
  exact ⟨⟨hs.known, hs.submitted, hs.waiting⟩, rfl, rfl, rfl, List.forall_mem_nil _, fun _ => rfl⟩

theorem Resubmits.rejected (C : Connector σ) (ht : c.Tidy) (hr : r.id ∉ c.waiting) :
    Resubmits C [r] [r] c [.rejection r.handle r.id]
      ((c.noteResubmission false).forget r.id).2 := by
  have hs := forget_struck (c := c.noteResubmission false) ht r.id
  have hq := forget_quiet r.id (c.noteResubmission false)
  have hb := Tidy.forget_backoff (c := c.noteResubmission false) ht r.id
  refine ⟨⟨hs.known, hs.submitted, hs.waiting⟩, ?_, ?_, hq.failed_eq, by simp, fun _ => rfl⟩
  · rw [hb]
    refine DelayQueue.filter_eq_self fun k hk => decide_eq_true ?_
    rintro rfl
    exact hr hk
  · exact congrArg (· + 1) hq.resubmitted_eq

end GangControl

namespace Broker

open GangControl (Resubmits)

variable {σ : Type} (C : Connector σ) (clock now : Time) {b b' : Broker σ} {s s' : Supervisor}
  {hand : List Reservation} {r : Reservation}

/-! ### One gang -/

theorem Tells.modifyControl {es : List Event} (h : Tells b s es b' s')
    (f : GangControl → GangControl) :
    Tells b s es (b'.modifyControl f) { s' with control := f s'.control } :=
  ⟨h.manned.modifyControl f, h.nextId_eq, h.stayers_eq, h.told⟩

/-- While a gang in hand is placed, nothing is settled that waits. -/
theorem At.place_settled_away (h : At b s (r :: hand) []) :
    ∀ id ∈ settledIn (eventsOf (b.desk.place C clock r).sent), id ∉ s.control.waiting := by
  obtain ⟨-, hf, -⟩ := h.agrees.hand_known r (List.mem_cons_self ..)
  have hadded : ∀ {l ids}, (b.desk.ledger.add r).Succeeds ids l →
      ∀ id ∈ ids, id ∉ s.control.waiting := by
    intro l ids hl id hid hw
    obtain ⟨hn, hh⟩ := h.agrees.waiting_away id hw
    have hne : r.id ≠ id := fun he => hh (he ▸ List.mem_map_of_mem (List.mem_cons_self ..))
    have ho := (hl.of_mem hid).1
    rw [Ledger.isOpen_of_none (by rw [Ledger.get?_add, if_neg hne, hn])] at ho
    simp at ho
  have hp := Desk.place_placed C clock hf.sound h.agrees.sound
  generalize b.desk.place C clock r = o at hp ⊢
  cases hp with
  | refused => simp
  | done _ _ hl => exact hadded hl
  | undone _ _ hl => exact hadded hl

theorem At.place_tells (h : At b s (r :: hand) []) : ∃ s' es,
    Tells b s es (b.place C clock r).2 s' ∧ Resubmits C [] [] s.control es s'.control := by
  obtain ⟨-, hf, -⟩ := h.agrees.hand_known r (List.mem_cons_self ..)
  obtain ⟨s', ht, hc⟩ := follow_tells h.manned clock (b.desk.place C clock r).sent
    (b.desk.place C clock r).desk
  refine ⟨s', _, ht, ?_⟩
  rw [hc, flatMap_spoken]
  refine .learn h.agrees.tidy clock ?_ fun hC e he => ?_
  · rw [settledIn_filter]
    exact h.place_settled_away C clock
  · exact Desk.place_rejects_nothing clock hC hf.sound h.agrees.sound e (List.mem_of_mem_filter he)

theorem placeAgain_resubmits (h : At b s (r :: hand) []) : ∃ s' es,
    At (b.placeAgain C clock r) s' hand [] ∧ Tells b s es (b.placeAgain C clock r) s' ∧
      Resubmits C [r] (Desk.refusals C clock [r] b.desk) s.control es s'.control := by
  obtain ⟨s₀, -, hat, -⟩ := placeAgain_passes C clock h
  obtain ⟨s₁, es, ht, hr⟩ := h.place_tells C clock
  cases ha : (b.desk.place C clock r).answer with
  | ok placed =>
    have hstep : b.placeAgain C clock r =
        (b.place C clock r).2.modifyControl (GangControl.noteResubmission true) := by
      simp only [placeAgain, place, ha]
    have hnone : Desk.refusals C clock [r] b.desk = [] := by simp [Desk.refusals, ha]
    have ht' := ht.modifyControl (GangControl.noteResubmission true)
    rw [← hstep] at ht'
    obtain rfl := hat.manned.unique ht'.manned
    refine ⟨_, es, hat, ht', ?_⟩
    rw [hnone, ← List.append_nil es]
    exact hr.trans (.placed C r s₁.control)
  | error f =>
    have hstep : b.placeAgain C clock r = ((b.place C clock r).2.modifyControl fun c =>
        ((c.noteResubmission false).forget r.id).2).forward (.rejection r.handle r.id) := by
      simp only [placeAgain, place, ha]
    have hone : Desk.refusals C clock [r] b.desk = [r] := by simp [Desk.refusals, ha]
    have ht' := ht.modifyControl fun c => ((c.noteResubmission false).forget r.id).2
    obtain ⟨s₂, ht₂, hc, -⟩ := forward_tells ht'.manned (.rejection r.handle r.id)
    have hall := ht'.trans ht₂
    rw [← hstep] at hall
    obtain rfl := hat.manned.unique hall.manned
    refine ⟨_, _, hat, hall, ?_⟩
    rw [hone, hc]
    have haway : r.id ∉ s₁.control.waiting := by
      have hw : s₁.control.waiting = s.control.waiting := congrArg DelayQueue.payloads hr.backoff_eq
      rw [hw]
      exact fun hw =>
        (h.agrees.waiting_away r.id hw).2 (List.mem_map_of_mem (List.mem_cons_self ..))
    exact hr.trans (.rejected C (hr.struck.tidy h.agrees.tidy) haway)

/-! ### All that are due -/

theorem placeAgains_resubmits (h : At b s hand []) : ∃ s' es,
    At (hand.foldl (placeAgain C clock) b) s' [] [] ∧
      Tells b s es (hand.foldl (placeAgain C clock) b) s' ∧
      Resubmits C hand (Desk.refusals C clock hand b.desk) s.control es s'.control := by
  induction hand generalizing b s with
  | nil => exact ⟨s, [], h, .refl h.manned, .refl C s.control⟩
  | cons r hand ih =>
    obtain ⟨s₁, es₁, h₁, ht₁, hr₁⟩ := placeAgain_resubmits C clock h
    obtain ⟨s₂, es₂, h₂, ht₂, hr₂⟩ := ih h₁
    refine ⟨s₂, _, h₂, ht₁.trans ht₂, ?_⟩
    rw [Desk.refusals_cons, ← placeAgain_desk]
    exact hr₁.trans hr₂

theorem retry_resubmits (h : At b s [] []) : ∃ s' es,
    At (b.retry C clock now).2 s' [] [] ∧ Tells b s es (b.retry C clock now).2 s' ∧
      Resubmits C (s.control.wake now).1 (Desk.refusals C clock (s.control.wake now).1 b.desk)
        (s.control.wake now).2 es s'.control := by
  obtain ⟨hawake, -⟩ := h.touch C (f := fun _ => (s.control.wake now).2) (h.agrees.wake now).1
    (GangControl.wake_sameClaims h.agrees now)
  obtain ⟨s', es, hat, ht, hr⟩ := placeAgains_resubmits C clock hawake
  unfold retry
  rw [h.manned.control?]
  exact ⟨s', es, hat, ⟨ht.manned, ht.nextId_eq, ht.stayers_eq, ht.told⟩, hr⟩

/-! ### After a run -/

/-- The gangs `due` are those of the queue whose time has come, each once, in the order in which
they wake up and then in which they went in. Each is as it is known, with nothing left of its
allocations, and so as a client asked for it. -/
structure WakesUp (clock : Time) (run : List (Time × Op σ)) (c : GangControl)
    (due : List Reservation) : Prop where
  order : ∃ ts : List (Timer ReservationId), due.map Reservation.id = ts.map Timer.payload ∧
    ts.Perm (c.backoff.timers.filter fun t => t.wakeUp ≤ clock) ∧ ts.Pairwise Timer.Before
  distinct : (due.map Reservation.id).Nodup
  known : ∀ r ∈ due, ∃ t, c.known.get? r.id = some t ∧ r = t.reset
  asked : ∀ r ∈ due, AskedFor run r

theorem At.wakesUp (h : At b s [] []) (ho : s.control.backoff.InOrder) {run : List (Time × Op σ)}
    (hw : s.control.Knows (AskedFor run)) :
    WakesUp clock run s.control (s.control.wake clock).1 := by
  obtain ⟨hnext, hids⟩ := h.agrees.wake clock
  obtain ⟨ts, hts, hdrains⟩ := DelayQueue.drain_drains clock s.control.backoff
  exact ⟨⟨ts, hids.trans hts, hdrains.due, hdrains.sorted ho⟩, hnext.hand_nodup,
    (h.agrees.neat.wake_books clock).1, hw.wake clock⟩

/-- The gangs `due` are placed one after the other, and `failed` are those whose placement fails.
The others are submitted, unless they are settled already; then they are allocated, if that is all
that the connector reports while it is called. Those that fail are given up, and the clients learn
that they are rejected. Who is not due yet keeps waiting. -/
structure PlacesDue (C : Connector σ) (clock : Time) (due failed : List Reservation) (b : Broker σ)
    (c : GangControl) (es : List Event) (b' : Broker σ) (c' : GangControl) : Prop where
  desk_eq : b'.desk = serve C clock (due.map .place) b.desk
  placed : ∀ r ∈ due, r ∉ failed →
    (c'.submitted.get? r.id).isSome = true ∨ r.id ∈ settledIn es
  completed : C.Granting → ∀ r ∈ due, r ∉ failed →
    (c'.submitted.get? r.id).isSome = true ∨ r.id ∈ allocatedIn es
  dropped : ∀ r ∈ failed, c'.known.get? r.id = none ∧ c'.submitted.get? r.id = none ∧
    r.id ∉ c'.waiting
  told : ∀ r ∈ failed, Event.rejection r.handle r.id ∈ es
  told_once : C.Granting → rejections es = failed.map fun r => .rejection r.handle r.id
  resubmitted_eq : c'.tally.resubmitted + failed.length = c.tally.resubmitted + due.length
  failed_eq : c'.tally.resubmissionsFailed = c.tally.resubmissionsFailed + failed.length
  timers_eq : c'.backoff.timers = c.backoff.timers.filter fun t => clock < t.wakeUp

theorem At.placesDue (h : At b s [] []) :
    let due := (s.control.wake clock).1
    ∃ s' es, Tells b s es (b.retry C clock clock).2 s' ∧
      PlacesDue C clock due (Desk.refusals C clock due b.desk) b s.control es
        (b.retry C clock clock).2 s'.control := by
  intro due
  obtain ⟨s', es, -, ht, hr⟩ := retry_resubmits C clock clock h
  obtain ⟨hawake, hids⟩ := h.agrees.wake clock
  have hquiet := GangControl.wake_quiet clock s.control
  have hsub : (Desk.refusals C clock due b.desk).Sublist due :=
    Desk.refusals_sublist clock due b.desk
  have hplaced : ∀ r ∈ due, (s'.control.submitted.get? r.id).isSome = true ∨
      r.id ∈ settledIn es := by
    intro r hr'
    by_cases hs : r.id ∈ settledIn es
    · exact .inr hs
    · rw [hr.struck.submitted, if_neg hs]
      exact .inl ((hawake.submitted_iff r.id).2 (.inl (List.mem_map_of_mem hr')))
  refine ⟨s', es, ht, ?_, fun r hd _ => hplaced r hd, fun hC r hd hn => ?_, fun r hf => ?_, hr.told,
    hr.told_once, ?_, ?_, ?_⟩
  · rw [retry_desk]
    unfold placements
    rw [h.manned.control?]
  · refine (hplaced r hd).imp_right fun hs => (mem_settledIn.1 hs).resolve_right ?_
    -- ids are distinct, so a rejection of this one would make it one of those that fail
    rintro ⟨e, he, hid⟩
    rw [hr.told_once hC] at he
    obtain ⟨t, ht', rfl⟩ := List.mem_map.1 he
    have hrt : r.id = t.id := List.mem_singleton.1 hid
    exact hn (List.inj_on_of_nodup_map hawake.hand_nodup hd (hsub.subset ht') hrt ▸ ht')
  · have hs : r.id ∈ settledIn es :=
      List.mem_flatMap.2 ⟨_, hr.told r hf, List.mem_singleton_self _⟩
    refine ⟨?_, ?_, fun hw => ?_⟩
    · rw [hr.struck.known, if_pos hs]
    · rw [hr.struck.submitted, if_pos hs]
    · rw [hr.struck.waiting, List.mem_filter] at hw
      simp [hs] at hw
  · rw [hr.resubmitted_eq, hquiet.resubmitted_eq]
  · rw [hr.failed_eq, hquiet.failed_eq]
  · rw [hr.backoff_eq, GangControl.wake_backoff, DelayQueue.drain_left]

/-- The time until the first of these timers, if there are any. -/
structure UntilFirst (clock : Time) (q : DelayQueue ReservationId) (next : Option Span) : Prop where
  none_iff : next = none ↔ q.timers = []
  first : ∀ d, next = some d → ∃ t ∈ q.timers, (∀ u ∈ q.timers, t.wakeUp ≤ u.wakeUp) ∧
    clock.nanos + d.nanos = t.wakeUp.nanos

theorem untilNext?_untilFirst {q : DelayQueue ReservationId}
    (h : ∀ t ∈ q.timers, clock < t.wakeUp) :
    UntilFirst clock q (q.untilNext? clock) := by
  constructor
  · unfold DelayQueue.untilNext?
    rw [Option.map_eq_none_iff, DelayQueue.nextWakeUp?_eq_none]
  · intro d hd
    obtain ⟨w, hw, rfl⟩ := Option.map_eq_some_iff.1 hd
    obtain ⟨⟨t, ht, rfl⟩, hleast⟩ := DelayQueue.nextWakeUp?_some hw
    refine ⟨t, ht, hleast, ?_⟩
    rw [Time.nanos_since]
    exact Nat.add_sub_of_le (Nat.le_of_lt (Time.nanos_lt (h t ht)))

/-- After any run that leaves the gangs divided, whatever the connector does: the supervisor places
again what is due and nothing else, in order, and tells how long until the next one is due. -/
theorem retry_places_due (opened : Time) (o : DeadlockOptions) (queue : QueueName) (state : σ)
    (run : List (Time × Op σ)) {s : Supervisor}
    (hs : (after C run (supervised opened o queue state)).supervisor = some s)
    (hd : Divided (after C run (supervised opened o queue state)) s.control) :
    let b := after C run (supervised opened o queue state)
    let due := (s.control.wake clock).1
    WakesUp clock run s.control due ∧ ∃ s' es, Tells b s es (b.retry C clock clock).2 s' ∧
      PlacesDue C clock due (Desk.refusals C clock due b.desk) b s.control es
        (b.retry C clock clock).2 s'.control ∧
      UntilFirst clock s'.control.backoff (b.retry C clock clock).1 := by
  intro b due
  obtain ⟨s₀, h₀⟩ := after_resting C opened o queue state run
  obtain rfl : s₀ = s := Option.some.inj (h₀.settled.manned.supervisor.symm.trans hs)
  have hat := h₀.at hd
  have hasked := after_askedFor C opened o queue state run s₀.control hat.manned.control?
  obtain ⟨s', es, ht, hp⟩ := hat.placesDue C clock
  obtain ⟨-, -, hanswer⟩ := retry_answer C clock clock ht.manned.control?
  refine ⟨hat.wakesUp clock h₀.in_order hasked, s', es, ht, hp, ?_⟩
  rw [hanswer]
  refine untilNext?_untilFirst clock fun t ht => ?_
  rw [hp.timers_eq] at ht
  exact of_decide_eq_true (List.mem_filter.1 ht).2

/-- Two gangs are due. What another client gave back completes the first of them, and the second is
refused because of a third one. -/
theorem retry_places_due_from_cache :
    let C := Tier.connector ScriptedManager.connector.muted fun n => .ofNat (100 + n)
    let o : DeadlockOptions := { backoffPercent := 50 }
    let q := fun (gang : Bool) (n : Nat) => fun h : n < idRange =>
      (⟨⟨3, by decide⟩, ⟨"queue"⟩, gang, [⟨⟨n, h⟩, ⟨"node"⟩, .dontCare, 1, 512⟩]⟩ : Request)
    let run : List (Time × Op (Tier ScriptedManager)) := [
      (.ofMillis 0, .start),
      (.ofMillis 1, .reserve ⟨5, by decide⟩ (q false 1 (by decide))),
      (.ofMillis 2, .deliver [.allocated ⟨1, by decide⟩ ⟨1, 512, ⟨"node"⟩, ⟨"held"⟩⟩]),
      (.ofMillis 3, .reserve ⟨7, by decide⟩ (q true 2 (by decide))),
      (.ofMillis 4, .reserve ⟨8, by decide⟩ (q true 3 (by decide))),
      (.ofMillis 40000, .avoidDeadlock (.ofMillis 40000)),
      (.ofMillis 40001, .reserve ⟨9, by decide⟩ (q true 3 (by decide))),
      (.ofMillis 45000, .release ⟨3, by decide⟩ ⟨5, by decide⟩ false)]
    let b := after C run (supervised (.ofMillis 0) o ⟨"queue"⟩
      (.cached { inner := {}, cache := { policy := .never } }))
    let retried := b.retry C (.ofMillis 60000) (.ofMillis 60000)
    ∃ s, b.supervisor = some s ∧ Divided b s.control ∧
      (s.control.wake (.ofMillis 60000)).1.map Reservation.id = [⟨7, by decide⟩, ⟨9, by decide⟩] ∧
      ∃ s' es, Tells b s es retried.2 s' ∧ ⟨7, by decide⟩ ∈ allocatedIn es ∧
        rejections es = [.rejection ⟨3, by decide⟩ ⟨9, by decide⟩] ∧ retried.1 = none := by
  intro C o q run b retried
  have hC : C.Granting := Tier.connector_granting (Connector.muted_granting _) _
  have hrun : Admitted C run (supervised (.ofMillis 0) o ⟨"queue"⟩
      (.cached { inner := {}, cache := { policy := .never } })) := by
    refine ⟨trivial, ?_, trivial, ?_, ?_, trivial, ?_, trivial, trivial⟩
    all_goals
      change get? _ _ = none
      decide +kernel
  obtain ⟨s, hat⟩ := after_at C (supervised_at (.ofMillis 0) o ⟨"queue"⟩ _) hrun
  have hs : b.supervisor = some s := hat.manned.supervisor
  obtain ⟨-, s', es, ht, hp, -⟩ :=
    retry_places_due C (.ofMillis 60000) (.ofMillis 0) o ⟨"queue"⟩ _ run hs hat.divided
  have heval : (b.supervisor.map fun s =>
      let due := (s.control.wake (.ofMillis 60000)).1
      (due.map Reservation.id, (Desk.refusals C (.ofMillis 60000) due b.desk).map fun r =>
        Event.rejection r.handle r.id)) =
      some ([⟨7, by decide⟩, ⟨9, by decide⟩], [.rejection ⟨3, by decide⟩ ⟨9, by decide⟩]) ∧
      (retried.2.control?.map fun c => c.submitted.get? ⟨7, by decide⟩) = some none ∧
      retried.1 = none := by decide +kernel
  obtain ⟨hdue, hsub, hnext⟩ := heval
  rw [hs, Option.map_some] at hdue
  obtain ⟨hdue, hfailed⟩ := Prod.mk.inj (Option.some.inj hdue)
  refine ⟨s, hs, hat.divided, hdue, s', es, ht, ?_, (hp.told_once hC).trans hfailed, hnext⟩
  have hseven : (⟨7, by decide⟩ : ReservationId) ∈
      (s.control.wake (.ofMillis 60000)).1.map Reservation.id := by
    rw [hdue]
    exact List.mem_cons_self ..
  obtain ⟨r, hr, hrid⟩ := List.mem_map.1 hseven
  have hn : r ∉ Desk.refusals C (.ofMillis 60000) (s.control.wake (.ofMillis 60000)).1 b.desk := by
    intro hf
    have hmem := List.mem_map_of_mem (f := fun r => Event.rejection r.handle r.id) hf
    rw [hfailed, List.mem_singleton, hrid] at hmem
    simp [Event.rejection] at hmem
  have hc : retried.2.control? = some s'.control := ht.manned.control?
  rw [hc, Option.map_some] at hsub
  have hone := hp.completed hC r hr hn
  rw [hrid, Option.some.inj hsub] at hone
  exact hone.resolve_left (by simp)

end Broker

end ClusterBroker
