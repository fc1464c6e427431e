import ClusterBroker.Proofs.Broker.Run

/-!
# No gang is lost or reported twice

A gang that was taken on is live, or its clients heard once that it was allocated or rejected, or a
client released it and nobody heard anything. The census of each operation carries this through
any run in which no id is asked for twice: what stops being live is named once, and what is not
live is never named.
-/
namespace ClusterBroker.Broker

open GangControl (Has live)

variable {σ : Type} (C : Connector σ) (clock : Time) {b : Broker σ} {s : Supervisor}
  {id : ReservationId}

/-- How often a client heard that a reservation was allocated or rejected. -/
def notices (x : Client) (id : ReservationId) (b : Broker σ) : Nat :=
  (settledIn (heardBy x b)).count id

/-- A client is there from the start. -/
def watched (o : DeadlockOptions) (queue : QueueName) (s : σ) (x : Client) : Broker σ :=
  ((supervised clock o queue s).addClient x).2

/-! ### What a client can look up -/

theorem Has.of_get? (h : At b s [] []) {r : Reservation} (hr : b.get? id = some r) :
    Has s.control b.desk.ledger id r := by
  unfold get? at hr
  rw [h.manned.control?, Option.bind_some, Option.orElse_eq_orElse, Option.orElse_eq_or,
    Option.or_eq_some_iff] at hr
  rcases hr with hr | ⟨-, hr⟩
  · left
    unfold GangControl.backedOff? at hr
    exact (Option.filter_eq_some_iff.1 hr).1
  · exact .inr hr

theorem get?_of_absent (h : At b s [] []) (ha : ∀ r, ¬ Has s.control b.desk.ledger id r) :
    b.get? id = none := by
  cases hr : b.get? id with
  | none => rfl
  | some r => exact absurd (Has.of_get? h hr) (ha r)

/-- What is live can be looked up, and is not allocated yet. -/
theorem get?_of_live (h : At b s [] []) (hl : s.control.live b.desk.ledger id = true) :
    ∃ r, b.get? id = some r ∧
      (r.status = .pending ∨ r.status = .partly ∨ r.status = .backedOff) := by
  have hopen : b.desk.ledger.isOpen id = true → GangControl.backedOff? id s.control = none →
      ∃ r, b.get? id = some r ∧
        (r.status = .pending ∨ r.status = .partly ∨ r.status = .backedOff) := by
    intro ho hb
    obtain ⟨r, hr, hor⟩ := (Option.any_eq_true _ _).1 ho
    refine ⟨r, ?_, ?_⟩
    · unfold get?
      rw [h.manned.control?, Option.bind_some, hb]
      exact hr
    · unfold Reservation.isOpen at hor
      rcases of_decide_eq_true hor with hs | hs <;> simp [hs]
  cases hr : s.control.known.get? id with
  | none =>
    rw [GangControl.live_of_unknown hr] at hl
    exact hopen hl (by simp [GangControl.backedOff?, hr])
  | some r =>
    by_cases hb : r.status = .backedOff
    · refine ⟨r, ?_, .inr (.inr hb)⟩
      unfold get? GangControl.backedOff?
      rw [h.manned.control?, Option.bind_some, hr]
      simp [Option.filter, hb]
    · have hw : id ∉ s.control.waiting := fun hw => hb ((h.agrees.backedOff_iff hr).2 (.inl hw))
      have hk := (h.agrees.known_iff id).1 (by simp [hr])
      have hs : (s.control.submitted.get? id).isSome = true := by simpa [hw] using hk
      have ho := (h.agrees.submitted_iff id).1 hs
      refine hopen (Ledger.isOpen_of_openGang (by simpa using ho)) ?_
      simp [GangControl.backedOff?, hr, Option.filter, hb]

/-! ### One operation -/

theorem absent_live (ha : ∀ r, ¬ Has s.control b.desk.ledger id r) :
    s.control.live b.desk.ledger id = false := by
  have hk : s.control.known.get? id = none :=
    Option.eq_none_iff_forall_ne_some.2 fun r hr => ha r (.inl hr)
  have hl : b.desk.ledger.get? id = none :=
    Option.eq_none_iff_forall_ne_some.2 fun r hr => ha r (.inr hr)
  rw [GangControl.live_of_unknown hk, Ledger.isOpen_of_none hl]

variable {C} {op : Op σ} {b' : Broker σ} {s' : Supervisor} {ids : List ReservationId}

theorem Steps.notices_eq (h : Steps C op b s ids b' s') {i : ListenerId} {x : Client}
    (hx : Attends i x s) (hl : op.Leaves i x) :
    notices x id b' = notices x id b + ids.count id := by
  unfold notices
  rw [(h.told hx hl).2, List.count_append]

/-- What the broker does not have stays away, and nobody hears of it, until it is asked for. -/
theorem Steps.absent (h : Steps C op b s ids b' s') (hC : C.Discreet) (hid : op.reserved ≠ some id)
    (ha : ∀ r, ¬ Has s.control b.desk.ledger id r) :
    ids.count id = 0 ∧ ∀ r, ¬ Has s'.control b'.desk.ledger id r := by
  have hp : op.reserved ≠ some id ∧
      ∀ r, Has s.control b.desk.ledger id r → op.releases r = false :=
    ⟨hid, fun r hr => absurd hr (ha r)⟩
  constructor
  · have hc := (h.goes hC).census hp
    rw [absent_live ha] at hc
    simp only [Bool.toNat_false] at hc
    omega
  · intro r hr
    obtain ⟨t, ht, -⟩ := (h.goes hC).origin hp hr
    exact ha t ht

/-- What the broker has under an id keeps its claim. -/
theorem Steps.claim_eq (h : Steps C op b s ids b' s') (hC : C.Discreet)
    (hid : op.reserved ≠ some id) {k : ReservationId × Request × Time}
    (hk : ∀ r, Has s.control b.desk.ledger id r → r.claim = k) {r : Reservation}
    (hr : Has s'.control b'.desk.ledger id r) : r.claim = k := by
  by_cases hall : ∀ t, Has s.control b.desk.ledger id t → op.releases t = false
  · obtain ⟨t, ht, hc⟩ := (h.goes hC).origin ⟨hid, hall⟩ hr
    rw [hc]
    exact hk t ht
  · push Not at hall
    obtain ⟨t, ht, hrel⟩ := hall
    have hrel : op.releases t = true := by simpa using hrel
    rcases hr with hr | hr
    · rw [h.freed.known ht hrel] at hr
      simp at hr
    · rw [h.freed.ledger ht hrel] at hr
      simp at hr

/-- Who is named for release is named by the claim. -/
theorem Op.releases_of_claim (op : Op σ) {r t : Reservation} (h : r.claim = t.claim) :
    op.releases r = op.releases t := by
  obtain ⟨hid, hh, hq, -⟩ := Reservation.claim_eq_iff.1 h
  cases op <;> simp [Op.releases, hid, hh, hq]

/-- One notice, or none yet and still live. -/
def Running (x : Client) (id : ReservationId) (b : Broker σ) (s : Supervisor) : Prop :=
  notices x id b + (s.control.live b.desk.ledger id).toNat = 1

/-- No notice, and nothing left. -/
def Withdrawn (x : Client) (id : ReservationId) (b : Broker σ) (s : Supervisor) : Prop :=
  notices x id b = 0 ∧ ∀ r, ¬ Has s.control b.desk.ledger id r

theorem Steps.withdrawn (h : Steps C op b s ids b' s') (hC : C.Discreet)
    (hid : op.reserved ≠ some id) {i : ListenerId} {x : Client} (hx : Attends i x s)
    (hl : op.Leaves i x) (hw : Withdrawn x id b s) : Withdrawn x id b' s' := by
  obtain ⟨hn, ha⟩ := h.absent hC hid hw.2
  refine ⟨?_, ha⟩
  rw [h.notices_eq hx hl, hw.1, hn]

/-- What runs goes on running, unless the operation is a client's release of it before anyone heard
of it. -/
theorem Steps.running (h : Steps C op b s ids b' s') (hb : At b s [] []) (hC : C.Discreet)
    (hid : op.reserved ≠ some id) {i : ListenerId} {x : Client} (hx : Attends i x s)
    (hl : op.Leaves i x) {k : ReservationId × Request × Time}
    (hk : ∀ r, Has s.control b.desk.ledger id r → r.claim = k) (hrun : Running x id b s) :
    Running x id b' s' ∨ Withdrawn x id b' s' ∧
      ∃ r, b.get? id = some r ∧ op.releases r = true := by
  have hn : notices x id b' = notices x id b + ids.count id := h.notices_eq hx hl
  unfold Running at hrun
  by_cases hall : ∀ t, Has s.control b.desk.ledger id t → op.releases t = false
  · left
    have hc := (h.goes hC).census ⟨hid, hall⟩
    unfold Running
    omega
  · push Not at hall
    obtain ⟨t, ht, hrel⟩ := hall
    have hrel : op.releases t = true := by simpa using hrel
    have hgone : ∀ r, ¬ Has s'.control b'.desk.ledger id r := by
      rintro r (hr | hr)
      · rw [h.freed.known ht hrel] at hr
        simp at hr
      · rw [h.freed.ledger ht hrel] at hr
        simp at hr
    rw [h.silent hrel, List.count_nil, Nat.add_zero] at hn
    cases hlive : s.control.live b.desk.ledger id with
    | false =>
      left
      unfold Running
      rw [absent_live hgone, hn]
      rw [hlive] at hrun
      exact hrun
    | true =>
      right
      rw [hlive, Bool.toNat_true] at hrun
      obtain ⟨r, hr, -⟩ := get?_of_live hb hlive
      refine ⟨⟨by omega, hgone⟩, r, hr, ?_⟩
      rw [op.releases_of_claim ((hk r (Has.of_get? hb hr)).trans (hk t ht).symm)]
      exact hrel

/-! ### Runs -/

variable (C)

/-- Some operation of the run is a client's release that took the reservation away. -/
def ReleasedIn (run : List (Time × Op σ)) (id : ReservationId) (b : Broker σ) : Prop :=
  ∃ mid e rest, run = mid ++ e :: rest ∧ (after C (mid ++ [e]) b).get? id = none ∧
    ∃ r, (after C mid b).get? id = some r ∧ e.2.releases r = true

theorem withdrawn_along {run : List (Time × Op σ)} (hb : At b s [] []) (hadm : Admitted C run b)
    (hC : C.Discreet) (hid : ∀ e ∈ run, e.2.reserved ≠ some id) {i : ListenerId} {x : Client}
    (hx : Attends i x s) (hl : ∀ e ∈ run, e.2.Leaves i x) (hw : Withdrawn x id b s) :
    ∃ s', At (after C run b) s' [] [] ∧ Attends i x s' ∧ Withdrawn x id (after C run b) s' := by
  induction run generalizing b s with
  | nil => exact ⟨s, hb, hx, hw⟩
  | cons e run ih =>
    obtain ⟨hop, hrest⟩ := hadm
    obtain ⟨s₁, ids, h₁⟩ := Op.run_steps C e.1 hb hop
    have he := List.mem_cons_self (a := e) (l := run)
    have hx₁ := (h₁.told hx (hl e he)).1
    have hw₁ := h₁.withdrawn hC (hid e he) hx (hl e he) hw
    exact ih h₁.at_rest hrest (fun y hy => hid y (List.mem_cons_of_mem e hy)) hx₁
      (fun y hy => hl y (List.mem_cons_of_mem e hy)) hw₁

theorem running_along {run : List (Time × Op σ)} (hb : At b s [] []) (hadm : Admitted C run b)
    (hC : C.Discreet) (hid : ∀ e ∈ run, e.2.reserved ≠ some id) {i : ListenerId} {x : Client}
    (hx : Attends i x s) (hl : ∀ e ∈ run, e.2.Leaves i x) {k : ReservationId × Request × Time}
    (hk : ∀ r, Has s.control b.desk.ledger id r → r.claim = k) (hrun : Running x id b s) :
    ∃ s', At (after C run b) s' [] [] ∧
      (∀ r, Has s'.control (after C run b).desk.ledger id r → r.claim = k) ∧
      (Running x id (after C run b) s' ∨
        Withdrawn x id (after C run b) s' ∧ ReleasedIn C run id b) := by
  induction run generalizing b s with
  | nil => exact ⟨s, hb, hk, .inl hrun⟩
  | cons e run ih =>
    obtain ⟨hop, hrest⟩ := hadm
    obtain ⟨s₁, ids, h₁⟩ := Op.run_steps C e.1 hb hop
    have he := List.mem_cons_self (a := e) (l := run)
    have hx₁ := (h₁.told hx (hl e he)).1
    have hid' : ∀ y ∈ run, y.2.reserved ≠ some id := fun y hy => hid y (List.mem_cons_of_mem e hy)
    have hl' : ∀ y ∈ run, y.2.Leaves i x := fun y hy => hl y (List.mem_cons_of_mem e hy)
    rcases h₁.running hb hC (hid e he) hx (hl e he) hk hrun with hrun₁ | ⟨hw, r, hr, hrel⟩
    · obtain ⟨s', hb', hk', hend⟩ := ih h₁.at_rest hrest hid' hx₁ hl'
        (fun r hr => h₁.claim_eq hC (hid e he) hk hr) hrun₁
      refine ⟨s', hb', hk', ?_⟩
      rcases hend with hend | ⟨hw, mid, y, rest, hsplit, hgone, hr⟩
      · exact .inl hend
      · exact .inr ⟨hw, e :: mid, y, rest, by rw [hsplit, List.cons_append], hgone, hr⟩
    · obtain ⟨s', hb', -, hw'⟩ := withdrawn_along C h₁.at_rest hrest hC hid' hx₁ hl' hw
      refine ⟨s', hb', fun t ht => absurd ht (hw'.2 t),
        .inr ⟨hw', [], e, run, rfl, ?_, r, hr, hrel⟩⟩
      exact get?_of_absent h₁.at_rest hw.2

/-- If no id is asked for twice, no request comes under a known id. -/
theorem admitted_of_nodup {run : List (Time × Op σ)} (hb : At b s [] []) (hC : C.Discreet)
    (hstop : ∀ e ∈ run, e.2 ≠ .stop) (hn : (run.filterMap fun e => e.2.reserved).Nodup)
    (hfree : ∀ id ∈ run.filterMap fun e => e.2.reserved,
      ∀ r, ¬ Has s.control b.desk.ledger id r) : Admitted C run b := by
  induction run generalizing b s with
  | nil => trivial
  | cons e run ih =>
    have he := List.mem_cons_self (a := e) (l := run)
    have hop : e.2.Allowed b := by
      obtain ⟨t, op⟩ := e
      cases op with
      | reserve id q => exact get?_of_absent hb (hfree id (by simp [Op.reserved]))
      | stop => exact absurd rfl (hstop _ he)
      | _ => trivial
    obtain ⟨s₁, ids, h₁⟩ := Op.run_steps C e.1 hb hop
    have hrest : (run.filterMap fun e => e.2.reserved).Nodup ∧
        ∀ id ∈ run.filterMap fun e => e.2.reserved, e.2.reserved ≠ some id := by
      rw [List.filterMap_cons] at hn
      cases hr : e.2.reserved with
      | none =>
        rw [hr] at hn
        exact ⟨hn, fun _ _ he => by simp at he⟩
      | some k =>
        rw [hr] at hn
        obtain ⟨hk, hn⟩ := List.nodup_cons.1 hn
        exact ⟨hn, fun id hid he => hk (Option.some.inj he ▸ hid)⟩
    refine ⟨hop, ih h₁.at_rest (fun y hy => hstop y (List.mem_cons_of_mem e hy)) hrest.1
      fun id hid => ?_⟩
    refine (h₁.absent hC (hrest.2 id hid) (hfree id ?_)).2
    rw [List.filterMap_cons]
    split
    · exact hid
    · exact List.mem_cons_of_mem _ hid

theorem watched_at (o : DeadlockOptions) (queue : QueueName) (s₀ : σ) {x : Client}
    (hx : x.once = false) : ∃ s, At (watched clock o queue s₀ x) s [] [] ∧ Attends ⟨0⟩ x s ∧
      ∀ id, Withdrawn x id (watched clock o queue s₀ x) s := by
  refine ⟨⟨{ options := o, lastAllocation := clock }, ((({} : Listeners Client).add x).2)⟩,
    ⟨⟨rfl, ⟨0⟩, rfl⟩, GangControl.agrees_empty o clock⟩, ⟨hx, ?_⟩, fun id => ⟨rfl, ?_⟩⟩
  · simp [Listeners.add]
  · rintro r (hr | hr)
    · simp at hr
    · have hnone : (none : Option Reservation) = some r := hr
      simp at hnone

/-- A gang that was taken on runs. -/
theorem reserve_running (h : At b s [] []) (hC : C.Discreet) (hfree : b.get? id = none)
    {i : ListenerId} {x : Client} (hx : Attends i x s) (hn : notices x id b = 0) {q : Request}
    (hg : q.gang = true) (hok : (b.reserve C clock id q).1.isOk = true) :
    ∃ s', At (b.reserve C clock id q).2 s' [] [] ∧ Attends i x s' ∧
      (∀ r, Has s'.control (b.reserve C clock id q).2.desk.ledger id r →
        r.claim = (Reservation.ofRequest id q clock).claim) ∧
      Running x id (b.reserve C clock id q).2 s' := by
  obtain ⟨s', ids, h', hp, htaken⟩ := reserve_passes C clock h id q hfree
  obtain ⟨hcensus, hclaim⟩ := htaken hg hok hC
  obtain ⟨hx', hheard⟩ := hp.hears.told hx
  refine ⟨s', h', hx', fun r hr => hclaim hr, ?_⟩
  unfold Running notices
  unfold notices at hn
  rw [hheard, List.count_append, hn, Nat.zero_add]
  exact hcensus

/-- Who runs or is withdrawn is in one of the three states of the world. -/
theorem Running.outcome (h : At b s [] []) {x : Client} {p : Prop}
    (hend : Running x id b s ∨ Withdrawn x id b s ∧ p) :
    (notices x id b = 0 ∧ ∃ r, b.get? id = some r ∧
      (r.status = .pending ∨ r.status = .partly ∨ r.status = .backedOff)) ∨
    notices x id b = 1 ∨ notices x id b = 0 ∧ b.get? id = none ∧ p := by
  rcases hend with hrun | ⟨hw, hp⟩
  · unfold Running at hrun
    cases hlive : s.control.live b.desk.ledger id with
    | true =>
      rw [hlive, Bool.toNat_true] at hrun
      exact .inl ⟨by omega, get?_of_live h hlive⟩
    | false =>
      rw [hlive, Bool.toNat_false] at hrun
      exact .inr (.inl hrun)
  · exact .inr (.inr ⟨hw.1, get?_of_absent h hw.2, hp⟩)

/-- The fate of a gang that was taken on, in any run in which no id is asked for twice: it is
tracked and nobody heard of it, or the client `x` heard of it once, or a client released it and
nobody heard of it. What it was asked for never changes. -/
theorem gang_settled_once (hC : C.Discreet) (o : DeadlockOptions) (queue : QueueName) (s₀ : σ)
    {x : Client} (hx : x.once = false) {t : Time} {q : Request} {pre post run : List (Time × Op σ)}
    (hrun : run = pre ++ (t, .reserve id q) :: post) (hstop : ∀ e ∈ run, e.2 ≠ .stop)
    (hl : ∀ e ∈ run, e.2.Leaves ⟨0⟩ x) (hn : (run.filterMap fun e => e.2.reserved).Nodup)
    (hg : q.gang = true)
    (hok : ((after C pre (watched clock o queue s₀ x)).reserve C t id q).1.isOk = true) :
    let b₁ := after C (pre ++ [(t, .reserve id q)]) (watched clock o queue s₀ x)
    let b := after C run (watched clock o queue s₀ x)
    let tracked := notices x id b = 0 ∧ ∃ r, b.get? id = some r ∧
      (r.status = .pending ∨ r.status = .partly ∨ r.status = .backedOff)
    let told := notices x id b = 1
    let released := notices x id b = 0 ∧ b.get? id = none ∧ ReleasedIn C post id b₁
    (tracked ∨ told ∨ released) ∧ ¬ (tracked ∧ told) ∧ ¬ (tracked ∧ released) ∧
      ¬ (told ∧ released) ∧ ∀ r, b.get? id = some r → r.handle = q.handle ∧ r.queue = q.queue ∧
        r.gang = true ∧ r.resources.map Resource.ask = q.asks ∧ r.placedOn = t := by
  intro b₁ b tracked told released
  obtain ⟨s, hs, hatt, hfree⟩ := watched_at clock o queue s₀ hx
  have hadm := admitted_of_nodup C hs hC hstop hn fun k _ => (hfree k).2
  rw [hrun] at hadm hl hn hstop
  obtain ⟨hpre, hop, hpost⟩ := (admitted_append C).1 hadm
  rw [List.filterMap_append, List.filterMap_cons] at hn
  obtain ⟨-, hlater, hdiff⟩ := List.nodup_append.1 hn
  have hearlier : ∀ e ∈ pre, e.2.reserved ≠ some id := fun e he hr =>
    hdiff id (List.mem_filterMap.2 ⟨e, he, hr⟩) id (List.mem_cons_self ..) rfl
  have hafter : ∀ e ∈ post, e.2.reserved ≠ some id := fun e he hr =>
    (List.nodup_cons.1 hlater).1 (List.mem_filterMap.2 ⟨e, he, hr⟩)
  -- Nobody knows or hears of the id in `pre`, and nobody asks for it again in `post`.
  obtain ⟨u, h₀, hatt₀, hw₀⟩ := withdrawn_along C hs hpre hC hearlier hatt
    (fun e he => hl e (List.mem_append_left _ he)) (hfree id)
  obtain ⟨s₁, h₁, hatt₁, hclaim₁, hrunning⟩ := reserve_running C t h₀ hC hop hatt₀ hw₀.1 hg hok
  obtain ⟨s₂, h₂, hclaim₂, hend⟩ := running_along C h₁ hpost hC hafter hatt₁
    (fun e he => hl e (List.mem_append_right _ (List.mem_cons_of_mem _ he))) hclaim₁ hrunning
  have hb₁ : ((after C pre (watched clock o queue s₀ x)).reserve C t id q).2 = b₁ :=
    (after_append C pre [(t, .reserve id q)] _).symm
  have hb : after C post b₁ = b := by
    change _ = after C run _
    rw [hrun, after_append, ← hb₁]
    rfl
  rw [hb₁] at h₂ hclaim₂ hend
  rw [hb] at h₂ hclaim₂ hend
  refine ⟨Running.outcome h₂ hend, fun h => ?_, fun h => ?_, fun h => ?_, fun r hr => ?_⟩
  · have h₃ := h.1.1
    rw [h.2] at h₃
    omega
  · obtain ⟨r, hr, -⟩ := h.1.2
    rw [h.2.2.1] at hr
    simp at hr
  · have h₃ := h.2.1
    rw [h.1] at h₃
    omega
  · have hc := hclaim₂ r (Has.of_get? h₂ hr)
    obtain ⟨-, hh, hq, hgang, ha, hp⟩ := Reservation.claim_eq_iff.1 hc
    refine ⟨hh, hq, hgang.trans hg, ?_, hp⟩
    rw [ha]
    simp [Reservation.ofRequest, Function.comp_def]

/-- A gang steps back; placing it again fails, and its client hears of that, once. -/
theorem gang_settled_once_rejected :
    let x : Client := { number := 0 }
    let id : ReservationId := ⟨7, by decide⟩
    let q : Request := ⟨⟨3, by decide⟩, ⟨"queue"⟩, true,
      [⟨⟨1, by decide⟩, ⟨"node"⟩, .dontCare, 1, 512⟩]⟩
    let post : List (Time × Op ScriptedManager) := [
      (.ofMillis 40000, .avoidDeadlock (.ofMillis 40000)),
      (.ofMillis 40000, .tend fun m => { m with failReserve := true }),
      (.ofMillis 80000, .retry (.ofMillis 80000))]
    let run := [(.ofMillis 0, .start)] ++ (.ofMillis 1, .reserve id q) :: post
    let b := after ScriptedManager.connector run
      (watched (.ofMillis 0) { backoffPercent := 100 } ⟨"queue"⟩ {} x)
    b.get? id = none ∧ notices x id b = 1 := by
  intro x id q post run b
  have hcalls : ∀ e ∈ post, ∀ r, e.2.releases r = false := by
    simp [post, Op.releases]
  have hstop : ∀ e ∈ run, e.2 ≠ .stop := by
    intro e he
    simp only [run, post, List.cons_append, List.nil_append, List.mem_cons, List.not_mem_nil,
      or_false] at he
    rcases he with rfl | rfl | rfl | rfl | rfl <;> nofun
  have hleaves : ∀ e ∈ run, e.2.Leaves ⟨0⟩ x := by
    simp [run, post, Op.Leaves]
  have hsplit : run = [(.ofMillis 0, .start)] ++ (.ofMillis 1, .reserve id q) :: post := rfl
  obtain ⟨hfate, -⟩ := gang_settled_once ScriptedManager.connector (.ofMillis 0)
    ScriptedManager.connector_silent.discreet { backoffPercent := 100 } ⟨"queue"⟩ {} rfl hsplit
    hstop hleaves (by decide) rfl (by decide +kernel)
  have hgone : b.get? id = none := by decide +kernel
  refine ⟨hgone, ?_⟩
  rcases hfate with ⟨-, r, hr, -⟩ | htold | ⟨-, -, mid, e, rest, hsplit, -, r, -, hrel⟩
  · rw [show b.get? id = some r from hr] at hgone
    simp at hgone
  · exact htold
  · have he : e ∈ post := by
      rw [hsplit]
      simp
    rw [hcalls e he r] at hrel
    simp at hrel

end ClusterBroker.Broker
