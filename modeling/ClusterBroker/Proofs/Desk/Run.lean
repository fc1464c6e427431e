import ClusterBroker.Proofs.Desk.Operation
import ClusterBroker.ScriptedManager

/-!
# Runs of a desk

A run is a list of operations, each at its own reading of the clock. Between two operations the
connector may change in any way. Whatever it answers, the ledger stays sound, and what is tracked
before and after an operation is the same reservation, not gone back.

Batches are taken in one change at a time, also in the middle of a placement. `Op.arrivals` lists
the batches of an operation with the desk that takes them in, so that the ledgers between two
changes can be spoken of too.
-/
namespace ClusterBroker.Desk

variable {σ : Type}

inductive Op (σ : Type) where
  | reserve (id : ReservationId) (request : Request)
  | place (reservation : Reservation)
  | release (handle : HandleId) (id : ReservationId) (noCache : Bool)
  | releaseHandle (handle : HandleId) (noCache : Bool)
  | releaseQueue (queue : QueueName) (noCache : Bool)
  | start
  | nodes
  | deliver (changes : List Change)
  /-- The manager stops; the index is gone through in this order. -/
  | halt (order : Ledger → List ResourceId)
  | stop
  /-- The connector changes by itself. -/
  | tend (change : σ → σ)

variable (C : Connector σ) (clock : Time)

/-- The desk after an operation, and what was sent out meanwhile. -/
def Op.run : Op σ → Desk σ → Desk σ × List (Dispatch σ)
  | .reserve id q, d => ((d.reserve C clock id q).desk, (d.reserve C clock id q).sent)
  | .place r, d => ((d.place C clock r).desk, (d.place C clock r).sent)
  | .release h id n, d => ((d.release C clock h id n).2, [])
  | .releaseHandle h n, d => ((d.releaseHandle C clock h n).2, [])
  | .releaseQueue q n, d => ((d.releaseQueue C clock q n).2, [])
  | .start, d => ((d.start C).2, [])
  | .nodes, d => ((d.nodes C).2, [])
  | .deliver cs, d => d.deliver C clock cs
  | .halt order, d => d.onHaltedIn order C clock
  | .stop, d => ((d.stop C clock).2, [])
  | .tend f, d => ({ d with connector := f d.connector }, [])

/-- Only what was validated and reset is placed past validation. -/
def Op.Proper : Op σ → Prop
  | .place r => r.Fresh
  | _ => True

/-- The desk after a run. -/
def after (run : List (Time × Op σ)) (d : Desk σ) : Desk σ :=
  run.foldl (fun d e => (e.2.run C e.1 d).1) d

/-- A desk that has not been used. -/
def opened (queue : QueueName) (s : σ) : Desk σ := ⟨{ queue := queue }, s⟩

/-! ### One operation -/

/-- What an operation may do to the ledger, as far as single reservations go. -/
structure Keeps (l l' : Ledger) : Prop where
  sound : l'.Sound
  advances : ∀ {id r s}, l.get? id = some r → l'.get? id = some s → r.Advances s

theorem Keeps.refl {l : Ledger} (h : l.Sound) : Keeps l l := by
  refine ⟨h, fun {id r s} hr hs => ?_⟩
  rw [hr] at hs
  rw [Option.some.inj hs]
  exact .refl s

theorem Keeps.of_succeeds {l l' : Ledger} {ids : List ReservationId} (h : l.Succeeds ids l') :
    Keeps l l' := by
  refine ⟨h.sound, fun {id r s} hr hs => ?_⟩
  obtain ⟨r', hr', hadv⟩ := h.origin hs
  rw [hr] at hr'
  rw [Option.some.inj hr']
  exact hadv

/-- A release only takes out. -/
theorem Keeps.of_removal {l l' : Ledger} (h : l'.Sound) (p : ReservationId → Prop)
    [DecidablePred p] (hg : ∀ k, l'.get? k = if p k then none else l.get? k) : Keeps l l' := by
  refine ⟨h, fun {id r s} hr hs => ?_⟩
  rw [hg] at hs
  split at hs
  next => simp at hs
  next =>
    rw [hr] at hs
    rw [Option.some.inj hs]
    exact .refl s

/-- What is added is new, and what comes after succeeds the ledger with it. -/
theorem Keeps.of_add {l l' : Ledger} {ids : List ReservationId} {r : Reservation}
    (hc : l.conflict? r = none) (h : (l.add r).Succeeds ids l') : Keeps l l' := by
  refine ⟨h.sound, fun {id s t} hs ht => ?_⟩
  obtain ⟨s', hs', hadv⟩ := h.origin ht
  have hne : r.id ≠ id := by
    rintro rfl
    rw [(Ledger.conflict?_eq_none_iff.1 hc).1] at hs
    simp at hs
  rw [Ledger.get?_add, if_neg hne, hs] at hs'
  rw [Option.some.inj hs']
  exact hadv

theorem place_keeps {r : Reservation} (hr : r.Sound) {d : Desk σ} (h : d.ledger.Sound) :
    Keeps d.ledger (d.place C clock r).desk.ledger := by
  have hp := place_placed C clock hr h
  revert hp
  cases d.place C clock r with
  | mk answer d' sent =>
    intro hp
    cases hp with
    | refused _ => exact .refl h
    | done hc _ hsub => exact .of_add hc hsub
    | @undone _ _ _ l hc _ hsub hl _ =>
      obtain ⟨hsound, hg⟩ := Ledger.remove_ledger hsub.sound r.id
      refine ⟨by rw [hl]; exact hsound, fun {id s t} hs ht => ?_⟩
      rw [hl, hg] at ht
      split at ht
      next => simp at ht
      next => exact (Keeps.of_add hc hsub).advances hs ht

theorem reserve_keeps (id : ReservationId) (q : Request) {d : Desk σ} (h : d.ledger.Sound) :
    Keeps d.ledger (d.reserve C clock id q).desk.ledger := by
  unfold reserve
  split
  next => exact .refl h
  next hf => exact place_keeps C clock (Reservation.fresh_ofRequest id clock hf).sound h

theorem Op.run_keeps {op : Op σ} (hop : op.Proper) {d : Desk σ} (h : d.ledger.Sound) :
    Keeps d.ledger (op.run C clock d).1.ledger := by
  cases op with
  | reserve id q => exact reserve_keeps C clock id q h
  | place r => exact place_keeps C clock (Reservation.Fresh.sound hop) h
  | release hd id n =>
    obtain ⟨hsound, hg⟩ := release_ledger C clock h hd id n
    exact .of_removal hsound _ hg
  | releaseHandle hd n =>
    obtain ⟨hsound, hg⟩ := releaseWhere_ledger C clock h (fun r => r.handle = hd) n
    exact .of_removal hsound _ hg
  | releaseQueue q n =>
    obtain ⟨hsound, hg⟩ := releaseWhere_ledger C clock h (fun r => r.queue = q) n
    exact .of_removal hsound _ hg
  | start => exact .refl h
  | nodes => exact .refl h
  | deliver cs => exact .of_succeeds (deliver_succeeds C clock h cs)
  | halt order => exact .of_succeeds (onHaltedIn_succeeds C clock h order)
  | stop =>
    obtain ⟨hsound, hg⟩ := stop_ledger C clock h
    refine .of_removal hsound (fun _ => ¬ d.registry.stopped = true) fun k => ?_
    have hk := hg k
    change (d.stop C clock).2.ledger.get? k = _
    rw [hk]
    by_cases hs : d.registry.stopped = true <;> simp [hs]
  | tend f => exact .refl h

/-! ### Runs -/

theorem after_cons (e : Time × Op σ) (run : List (Time × Op σ)) (d : Desk σ) :
    after C (e :: run) d = after C run (e.2.run C e.1 d).1 := rfl

theorem after_sound {run : List (Time × Op σ)} (hrun : ∀ e ∈ run, e.2.Proper) {d : Desk σ}
    (h : d.ledger.Sound) : (after C run d).ledger.Sound := by
  induction run generalizing d with
  | nil => exact h
  | cons e run ih =>
    rw [after_cons]
    apply ih (fun x hx => hrun x (List.mem_cons_of_mem e hx))
    exact (Op.run_keeps C e.1 (hrun e (List.mem_cons_self ..)) h).sound

/-- A reservation that is tracked all the way only advances. -/
theorem after_advances {run : List (Time × Op σ)} (hrun : ∀ e ∈ run, e.2.Proper) {d : Desk σ}
    (h : d.ledger.Sound) {id : ReservationId} {r : Reservation} (hr : d.ledger.get? id = some r)
    (hall : ∀ n, (after C (run.take n) d).ledger.get? id ≠ none) :
    ∃ s, (after C run d).ledger.get? id = some s ∧ r.Advances s := by
  induction run generalizing d r with
  | nil => exact ⟨r, hr, .refl r⟩
  | cons e run ih =>
    have hk := Op.run_keeps C e.1 (hrun e (List.mem_cons_self ..)) h
    have h₁ : (e.2.run C e.1 d).1.ledger.get? id ≠ none := by simpa [after] using hall 1
    obtain ⟨r₁, hr₁⟩ := Option.ne_none_iff_exists'.1 h₁
    have hrest : ∀ n, (after C (run.take n) (e.2.run C e.1 d).1).ledger.get? id ≠ none := by
      intro n
      rw [← after_cons, ← List.take_succ_cons]
      exact hall (n + 1)
    obtain ⟨s, hs, hadv⟩ :=
      ih (fun x hx => hrun x (List.mem_cons_of_mem e hx)) hk.sound hr₁ hrest
    exact ⟨s, hs, (hk.advances hr hr₁).trans hadv⟩

/-! ### Between two changes -/

/-- The batches among deliveries, each with the desk that takes it in. -/
def arrivals : List (Delivery σ) → Desk σ → List (List Change × Desk σ)
  | [], _ => []
  | x :: xs, d =>
    (x.changes, { d with connector := x.passing d.connector }) ::
      arrivals xs (d.receive C clock x).1

def placeArrivals (r : Reservation) (d : Desk σ) : List (List Change × Desk σ) :=
  if d.registry.stopped then []
  else match d.registry.ledger.insert r with
    | .error _ => []
    | .ok l =>
      let a := C.reserve clock r.resources d.connector
      arrivals C clock a.2.1 { d.setLedger l with connector := a.2.2 }

/-- The batches that are taken in during an operation, each with the desk as it is then. -/
def Op.arrivals : Op σ → Desk σ → List (List Change × Desk σ)
  | .reserve id q, d =>
    match q.fault? with
    | some _ => []
    | none => d.placeArrivals C clock (.ofRequest id q clock)
  | .place r, d => d.placeArrivals C clock r
  | .deliver cs, d => [(cs, { d with connector := C.incoming cs d.connector })]
  | .halt order, d => [((order d.ledger).map .lost, d)]
  | _, _ => []

/-- Whatever is sent out comes from a batch that was taken in. -/
theorem arrival_of_sent (xs : List (Delivery σ)) {d : Desk σ} {x : Dispatch σ}
    (hx : x ∈ (receiveAll C clock xs d).2) : ∃ a ∈ arrivals C clock xs d,
      x.events = (a.2.ledger.reconcile clock a.1).events ∧
        x.desk.ledger = (a.2.ledger.reconcile clock a.1).ledger := by
  induction xs generalizing d with
  | nil => simp [receiveAll] at hx
  | cons y ys ih =>
    unfold receiveAll at hx
    rcases List.mem_append.1 hx with hx | hx
    · refine ⟨_, List.mem_cons_self .., ?_⟩
      obtain ⟨cs, f⟩ := y
      cases cs with
      | nil => simp [receive, onChanges] at hx
      | cons c cs =>
        obtain ⟨d', he, hl, -⟩ := onChanges_cons C clock c cs { d with connector := f d.connector }
        unfold receive at hx
        rw [he, List.mem_singleton] at hx
        rw [hx]
        exact ⟨rfl, hl⟩
    · obtain ⟨a, ha, hxa⟩ := ih hx
      exact ⟨a, List.mem_cons_of_mem _ ha, hxa⟩

theorem placeArrivals_of_sent {r : Reservation} {d : Desk σ} {x : Dispatch σ}
    (hx : x ∈ (d.place C clock r).sent) : ∃ a ∈ d.placeArrivals C clock r,
      x.events = (a.2.ledger.reconcile clock a.1).events ∧
        x.desk.ledger = (a.2.ledger.reconcile clock a.1).ledger := by
  unfold place at hx
  unfold placeArrivals
  split at hx
  next => simp at hx
  next hs =>
    rw [if_neg hs]
    cases hl : d.registry.ledger.insert r with
    | error f => simp [hl] at hx
    | ok l =>
      simp only [hl] at hx
      dsimp only
      split at hx
      next => exact arrival_of_sent C clock _ hx
      next => exact arrival_of_sent C clock _ hx

theorem arrivals_sound {xs : List (Delivery σ)} {d : Desk σ} (h : d.ledger.Sound) :
    ∀ a ∈ arrivals C clock xs d, a.2.ledger.Sound := by
  induction xs generalizing d with
  | nil => simp [arrivals]
  | cons x xs ih =>
    intro a ha
    rcases List.mem_cons.1 ha with rfl | ha
    · exact h
    · have h₁ := onChanges_succeeds C clock (d := { d with connector := x.passing d.connector }) h
        x.changes
      exact ih (d := (d.receive C clock x).1) h₁.sound a ha

theorem placeArrivals_sound {r : Reservation} (hr : r.Sound) {d : Desk σ} (h : d.ledger.Sound) :
    ∀ a ∈ d.placeArrivals C clock r, a.2.ledger.Sound := by
  unfold placeArrivals
  split
  next => simp
  next =>
    split
    next => simp
    next l hl =>
      obtain ⟨hc, rfl⟩ := insert_eq_ok hl
      exact arrivals_sound C clock (d := { d.setLedger (d.registry.ledger.add r) with
        connector := (C.reserve clock r.resources d.connector).2.2 }) (h.add hr hc)

theorem Op.arrivals_sound {op : Op σ} (hop : op.Proper) {d : Desk σ} (h : d.ledger.Sound) :
    ∀ a ∈ op.arrivals C clock d, a.2.ledger.Sound := by
  cases op with
  | reserve id q =>
    cases hf : q.fault? with
    | some f => simp [arrivals, hf]
    | none =>
      simp only [arrivals, hf]
      exact placeArrivals_sound C clock (Reservation.fresh_ofRequest id clock hf).sound h
  | place r => exact placeArrivals_sound C clock (Reservation.Fresh.sound hop) h
  | deliver cs =>
    intro a ha
    rw [List.mem_singleton.1 ha]
    exact h
  | halt order =>
    intro a ha
    rw [List.mem_singleton.1 ha]
    exact h
  | release | releaseHandle | releaseQueue | start | nodes | stop | tend => simp [arrivals]

/-- The ledgers that a batch passes through. -/
theorem Op.midway_sound {op : Op σ} (hop : op.Proper) {d : Desk σ} (h : d.ledger.Sound)
    {a : List Change × Desk σ} (ha : a ∈ op.arrivals C clock d) (n : Nat) :
    (a.2.ledger.midway clock (a.1.take n)).ledger.Sound :=
  (Ledger.midway_succeeds (Op.arrivals_sound C clock hop h a ha) clock (a.1.take n)).sound

theorem midway_advances {l : Ledger} (h : l.Sound) (cs : List Change) (n : Nat)
    {id : ReservationId} {r s : Reservation}
    (hr : (l.midway clock (cs.take n)).ledger.get? id = some r)
    (hs : (l.midway clock (cs.take (n + 1))).ledger.get? id = some s) : r.Advances s := by
  cases hc : cs[n]? with
  | none =>
    have hlen : cs.length ≤ n := List.getElem?_eq_none_iff.1 hc
    rw [List.take_of_length_le hlen] at hr
    rw [List.take_of_length_le (by omega), hr] at hs
    rw [Option.some.inj hs]
    exact .refl s
  | some c =>
    have hsound := (Ledger.midway_succeeds h clock (cs.take n)).sound
    have hstep : (l.midway clock (cs.take (n + 1))).ledger =
        ((l.midway clock (cs.take n)).ledger.apply clock c).1 := by
      rw [List.take_add_one, hc]
      unfold Ledger.midway
      rw [List.foldl_append]
      exact Ledger.Batch.step_ledger clock _ c
    rw [hstep] at hs
    obtain ⟨r', hr', hadv⟩ := (Ledger.apply_applied hsound clock c).origin hsound hs
    rw [hr] at hr'
    rw [Option.some.inj hr']
    exact hadv

theorem sound_opened (queue : QueueName) (s : σ) : (opened queue s).ledger.Sound :=
  Ledger.sound_empty

/-- The ledger after any run from the start: the index is that of the resources, statuses say what
the resources say, statuses move forward as long as a reservation is tracked, and no change ever
meets an index entry without its reservation or resource, or a reservation of another status. -/
theorem after_consistent (queue : QueueName) (s : σ) {run : List (Time × Op σ)}
    (hrun : ∀ e ∈ run, e.2.Proper) {d : Desk σ} (hd : d = after C run (opened queue s)) :
    (∀ x id, d.ledger.index.get? x = some id ↔
      ∃ r, d.ledger.get? id = some r ∧ r.id = id ∧ x ∈ r.resourceIds) ∧
    (∀ id r, d.ledger.get? id = some r →
      (∀ x ∈ r.resources, x.status = .pending ∧ x.allocation = none ∨
        x.status = .allocated ∧ x.allocation.isSome) ∧
      (r.status = .pending ↔ ∀ x ∈ r.resources, x.isAllocated = false) ∧
      (r.status = .allocated ↔ ∀ x ∈ r.resources, x.isAllocated = true) ∧
      (r.status = .partly ↔
        (∃ x ∈ r.resources, x.isAllocated = true) ∧ ∃ x ∈ r.resources, x.isAllocated = false) ∧
      (r.allocatedOn.isSome ↔ r.status = .allocated)) ∧
    (∀ more : List (Time × Op σ), (∀ e ∈ more, e.2.Proper) → ∀ id r,
      d.ledger.get? id = some r → (∀ n, (after C (more.take n) d).ledger.get? id ≠ none) →
      ∃ s, (after C more d).ledger.get? id = some s ∧ r.Advances s) ∧
    (∀ clock, ∀ op : Op σ, op.Proper → ∀ a ∈ op.arrivals C clock d, ∀ n,
      let l := fun n => (a.2.ledger.midway clock (a.1.take n)).ledger
      (∀ x id, (l n).index.get? x = some id → ∃ r y, (l n).get? id = some r ∧
        r.resource? x = some y ∧
        (r.status = .pending ∨ r.status = .partly ∨ r.status = .allocated)) ∧
      ∀ id r s, (l n).get? id = some r → (l (n + 1)).get? id = some s → r.Advances s) := by
  subst hd
  have h := after_sound C hrun (sound_opened queue s)
  refine ⟨fun x id => ?_, fun id r hr => ?_, fun more hmore id r hr hall => ?_,
    fun clock op hop a ha n => ⟨fun x id hx => ?_, fun id r s hr hs => ?_⟩⟩
  · rw [h.index_iff]
    constructor
    · rintro ⟨r, hr, hx⟩
      exact ⟨r, hr, h.id_eq hr, hx⟩
    · rintro ⟨r, hr, -, hx⟩
      exact ⟨r, hr, hx⟩
  · have hs := h.sound hr
    exact ⟨hs.settled, hs.pending_iff, hs.allocated_iff, hs.partly_iff, hs.allocatedOn_iff⟩
  · exact after_advances C hmore h hr hall
  · have hm := Op.midway_sound C clock hop h ha n
    obtain ⟨r, y, hr, -, hy⟩ := hm.lookup hx
    exact ⟨r, y, hr, hy, (hm.sound hr).status_cases⟩
  · exact midway_advances clock (Op.arrivals_sound C clock hop h a ha) a.1 n hr hs

/-- A gang of two whose first resource was allocated. -/
theorem after_consistent_placed :
    let asks : List Ask := [⟨⟨1, by decide⟩, ⟨"node"⟩, .dontCare, 1, 512⟩,
      ⟨⟨2, by decide⟩, ⟨"node"⟩, .must, 1, 512⟩]
    let r := Reservation.ofRequest ⟨7, by decide⟩ ⟨⟨3, by decide⟩, ⟨"queue"⟩, true, asks⟩
      ⟨10, by decide⟩
    let run : List (Time × Op ScriptedManager) := [(⟨10, by decide⟩, .place r),
      (⟨20, by decide⟩, .deliver [.allocated ⟨1, by decide⟩ ⟨1, 512, ⟨"node"⟩, ⟨"held"⟩⟩])]
    (∀ e ∈ run, e.2.Proper) ∧
      ∃ s, (after ScriptedManager.connector run (opened ⟨"queue"⟩ {})).ledger.get? r.id = some s ∧
        s.status = .partly ∧ ¬ s.allocatedOn.isSome := by
  intro asks r run
  have hrun : ∀ e ∈ run, e.2.Proper := by
    intro e he
    rcases List.mem_cons.1 he with rfl | he
    · exact Reservation.fresh_ofRequest _ _ (by decide)
    · rw [List.mem_singleton.1 he]
      trivial
  obtain ⟨-, hstatus, -⟩ :=
    after_consistent ScriptedManager.connector ⟨"queue"⟩ ({} : ScriptedManager) hrun rfl
  obtain ⟨s, hs, hmixed⟩ : ∃ s,
      (after ScriptedManager.connector run (opened ⟨"queue"⟩ {})).ledger.get? r.id = some s ∧
        s.resources.map Resource.isAllocated = [true, false] := ⟨_, rfl, by decide⟩
  obtain ⟨-, -, -, hpartly, hon⟩ := hstatus r.id s hs
  have hsome : ∀ b ∈ [true, false], ∃ x ∈ s.resources, x.isAllocated = b := by
    intro b hb
    rw [← hmixed] at hb
    exact List.mem_map.1 hb
  have hp := hpartly.2 ⟨hsome true (by simp), hsome false (by simp)⟩
  refine ⟨hrun, s, hs, hp, fun ho => ?_⟩
  rw [hon.1 ho] at hp
  simp at hp

end ClusterBroker.Desk
