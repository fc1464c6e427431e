import ClusterBroker.Proofs.Desk.Run
import ClusterBroker.Proofs.Ledger.Intake

/-!
# What a client is told of its reservation

From its placement to its removal a reservation meets the batches that the desk takes in: those of
the placement itself, since the connector may report while it is asked, and those of every later
operation. What is sent out in that time is what the batches lead to, so all that a client is told
of a reservation is determined by the first allocation of each of its resources.
-/
namespace ClusterBroker.Desk

variable {σ : Type} (C : Connector σ) (clock : Time)

/-! ### Batches of a run -/

/-- The batches among the arrivals of an operation. -/
def intakesOf (as : List (List Change × Desk σ)) : List Intake :=
  as.map fun a => ⟨clock, a.1, a.2.ledger⟩

/-- The batches that an operation takes in. -/
def Op.intakes (op : Op σ) (d : Desk σ) : List Intake := intakesOf clock (op.arrivals C clock d)

/-- The batches that a run takes in. -/
def intakes : List (Time × Op σ) → Desk σ → List Intake
  | [], _ => []
  | e :: run, d => e.2.intakes C e.1 d ++ intakes run (e.2.run C e.1 d).1

/-- What a run sends out. -/
def sends : List (Time × Op σ) → Desk σ → List (Dispatch σ)
  | [], _ => []
  | e :: run, d => (e.2.run C e.1 d).2 ++ sends run (e.2.run C e.1 d).1

theorem onChanges_ledger (cs : List Change) (d : Desk σ) :
    (d.onChanges C clock cs).1.ledger = (d.ledger.reconcile clock cs).ledger := by
  cases cs with
  | nil => rfl
  | cons c cs =>
    obtain ⟨d', he, hl, -⟩ := onChanges_cons C clock c cs d
    rw [he, hl]

theorem eventsOf_onChanges (cs : List Change) (d : Desk σ) :
    eventsOf (d.onChanges C clock cs).2 = (d.ledger.reconcile clock cs).events := by
  cases cs with
  | nil => rfl
  | cons c cs =>
    obtain ⟨d', he, -⟩ := onChanges_cons C clock c cs d
    rw [he, eventsOf_cons, eventsOf_nil, List.append_nil]

theorem eventsOf_receiveAll (xs : List (Delivery σ)) (d : Desk σ) :
    eventsOf (receiveAll C clock xs d).2 =
      (intakesOf clock (arrivals C clock xs d)).flatMap Intake.events := by
  induction xs generalizing d with
  | nil => rfl
  | cons x xs ih =>
    unfold receiveAll arrivals intakesOf
    rw [eventsOf_append, ih, List.map_cons, List.flatMap_cons]
    congr 1
    exact eventsOf_onChanges C clock x.changes { d with connector := x.passing d.connector }

theorem eventsOf_place (r : Reservation) (d : Desk σ) :
    eventsOf (d.place C clock r).sent =
      (intakesOf clock (d.placeArrivals C clock r)).flatMap Intake.events := by
  unfold place placeArrivals
  split
  · rfl
  · cases d.registry.ledger.insert r with
    | error f => rfl
    | ok l =>
      dsimp only
      split
      · exact eventsOf_receiveAll C clock _ _
      · exact eventsOf_receiveAll C clock _ _

theorem Op.eventsOf_run (op : Op σ) (d : Desk σ) :
    eventsOf (op.run C clock d).2 = (op.intakes C clock d).flatMap Intake.events := by
  cases op with
  | reserve id q =>
    unfold run intakes arrivals Desk.reserve
    dsimp only
    cases hf : q.fault? with
    | some f => rfl
    | none => exact eventsOf_place C clock _ d
  | place r => exact eventsOf_place C clock r d
  | deliver cs =>
    unfold run intakes arrivals intakesOf
    rw [List.map_singleton, List.flatMap_singleton]
    exact eventsOf_onChanges C clock cs { d with connector := C.incoming cs d.connector }
  | halt order =>
    unfold run intakes arrivals intakesOf onHaltedIn
    rw [List.map_singleton, List.flatMap_singleton, eventsOf_cons, eventsOf_nil, List.append_nil]
    rfl
  | release | releaseHandle | releaseQueue | start | nodes | stop | tend => rfl

theorem eventsOf_sends (run : List (Time × Op σ)) (d : Desk σ) :
    eventsOf (sends C run d) = (intakes C run d).flatMap Intake.events := by
  induction run generalizing d with
  | nil => rfl
  | cons e run ih =>
    unfold sends intakes
    rw [eventsOf_append, List.flatMap_append, ih, Op.eventsOf_run]

/-! ### Paths -/

theorem receiveAll_path (id : ReservationId) (xs : List (Delivery σ)) (d : Desk σ) :
    Path id d.ledger (intakesOf clock (arrivals C clock xs d))
      (receiveAll C clock xs d).1.ledger := by
  induction xs generalizing d with
  | nil => exact .done _
  | cons x xs ih =>
    have hrest := ih (d.receive C clock x).1
    have hfirst : (d.receive C clock x).1.ledger =
        Intake.after ⟨clock, x.changes, d.ledger⟩ :=
      onChanges_ledger C clock x.changes { d with connector := x.passing d.connector }
    rw [hfirst] at hrest
    exact .intake hrest

/-- The reservation is put on the ledger. -/
def Admits (d : Desk σ) (r : Reservation) : Prop :=
  d.registry.stopped = false ∧ d.ledger.conflict? r = none

theorem place_of_not_admits {r : Reservation} {d : Desk σ} (h : ¬ d.Admits r) :
    d.placeArrivals C clock r = [] ∧ (d.place C clock r).desk = d := by
  unfold placeArrivals place
  cases hs : d.registry.stopped with
  | true => exact ⟨rfl, rfl⟩
  | false =>
    cases hl : d.registry.ledger.insert r with
    | error f => exact ⟨rfl, rfl⟩
    | ok l => exact absurd ⟨hs, (insert_eq_ok hl).1⟩ h

/-- A reservation that is put on the ledger meets the batches of its own placement, and is taken
off again if the submission fails. -/
theorem place_path {r : Reservation} (hr : r.Sound) {d : Desk σ} (h : d.ledger.Sound)
    (ha : d.Admits r) (id : ReservationId) :
    ∃ l, Path id (d.ledger.add r) (intakesOf clock (d.placeArrivals C clock r)) l ∧ l.Sound ∧
      ((d.place C clock r).desk.ledger = l ∨
        (d.place C clock r).desk.ledger = (l.remove r.id).2) := by
  obtain ⟨hs, hc⟩ := ha
  have hl : d.registry.ledger.insert r = .ok (d.ledger.add r) := by
    unfold Ledger.insert
    rw [show d.registry.ledger.conflict? r = none from hc]
    rfl
  have hpath := receiveAll_path C clock id (C.reserve clock r.resources d.connector).2.1
    { d.setLedger (d.ledger.add r) with connector := (C.reserve clock r.resources d.connector).2.2 }
  have hsub := receiveAll_succeeds C clock
    (d := { d.setLedger (d.ledger.add r) with
      connector := (C.reserve clock r.resources d.connector).2.2 })
    (h.add hr hc) (C.reserve clock r.resources d.connector).2.1
  refine ⟨_, ?_, hsub.sound, ?_⟩
  · unfold placeArrivals
    rw [if_neg (by simp [hs]), hl]
    exact hpath
  · unfold place
    rw [if_neg (by simp [hs]), hl]
    dsimp only
    split
    · exact .inr rfl
    · exact .inl rfl

/-- Of an id nothing changes but that it may be taken off. -/
def Leaves (id : ReservationId) (l l' : Ledger) : Prop := l'.get? id = l.get? id ∨ l'.get? id = none

theorem place_leaves {r : Reservation} {d : Desk σ} {l : Ledger} (hl : l.Sound)
    (h : (d.place C clock r).desk.ledger = l ∨
      (d.place C clock r).desk.ledger = (l.remove r.id).2) (id : ReservationId) :
    Leaves id l (d.place C clock r).desk.ledger := by
  rcases h with h | h
  · rw [h]
    exact .inl rfl
  · rw [h]
    unfold Leaves
    rw [(Ledger.remove_ledger hl r.id).2]
    split
    · exact .inr rfl
    · exact .inl rfl

theorem Leaves.of_removal {id : ReservationId} {l l' : Ledger} (p : ReservationId → Prop)
    [DecidablePred p] (hg : ∀ k, l'.get? k = if p k then none else l.get? k) : Leaves id l l' := by
  unfold Leaves
  rw [hg]
  split
  · exact .inr rfl
  · exact .inl rfl

/-- While another reservation is tracked a placement does not touch it. -/
theorem place_path_other {r : Reservation} (hr : r.Sound) {d : Desk σ} (h : d.ledger.Sound)
    {id : ReservationId} (hid : d.ledger.get? id ≠ none) :
    ∃ l, Path id d.ledger (intakesOf clock (d.placeArrivals C clock r)) l ∧
      Leaves id l (d.place C clock r).desk.ledger := by
  by_cases ha : d.Admits r
  · obtain ⟨l, hp, hs, hl⟩ := place_path C clock hr h ha id
    refine ⟨l, .aside (h.add hr ha.2) ?_ hp, place_leaves C clock hs hl id⟩
    rw [Ledger.get?_add, if_neg]
    rintro rfl
    exact hid (Ledger.conflict?_eq_none_iff.1 ha.2).1
  · obtain ⟨harr, hd⟩ := place_of_not_admits C clock ha
    rw [harr, hd]
    exact ⟨d.ledger, .done _, .inl rfl⟩

theorem Op.path {op : Op σ} (hop : op.Proper) {d : Desk σ} (h : d.ledger.Sound)
    {id : ReservationId} (hid : d.ledger.get? id ≠ none) :
    ∃ l, Path id d.ledger (op.intakes C clock d) l ∧ Leaves id l (op.run C clock d).1.ledger := by
  cases op with
  | reserve k q =>
    unfold intakes arrivals run Desk.reserve
    dsimp only
    cases hf : q.fault? with
    | some f => exact ⟨d.ledger, .done _, .inl rfl⟩
    | none => exact place_path_other C clock (Reservation.fresh_ofRequest k clock hf).sound h hid
  | place r => exact place_path_other C clock (Reservation.Fresh.sound hop) h hid
  | release hd k n =>
    exact ⟨d.ledger, .done _, .of_removal _ (release_ledger C clock h hd k n).2⟩
  | releaseHandle hd n =>
    exact ⟨d.ledger, .done _,
      .of_removal _ (releaseWhere_ledger C clock h (fun r => r.handle = hd) n).2⟩
  | releaseQueue q n =>
    exact ⟨d.ledger, .done _,
      .of_removal _ (releaseWhere_ledger C clock h (fun r => r.queue = q) n).2⟩
  | start => exact ⟨d.ledger, .done _, .inl rfl⟩
  | nodes => exact ⟨d.ledger, .done _, .inl rfl⟩
  | deliver cs =>
    refine ⟨_, receiveAll_path C clock id [⟨cs, C.incoming cs⟩] d, .inl ?_⟩
    rfl
  | halt order =>
    exact ⟨_, .intake (x := ⟨clock, (order d.ledger).map .lost, d.ledger⟩) (.done _), .inl rfl⟩
  | stop =>
    have hg := (stop_ledger C clock h).2
    refine ⟨d.ledger, .done _, ?_⟩
    unfold Leaves run
    rw [hg]
    split
    · exact .inl rfl
    · exact .inr rfl
  | tend f => exact ⟨d.ledger, .done _, .inl rfl⟩

/-- As long as a reservation is tracked, one operation takes up where the last one left off. -/
theorem intakes_path {run : List (Time × Op σ)} (hrun : ∀ e ∈ run, e.2.Proper) {d : Desk σ}
    (h : d.ledger.Sound) {id : ReservationId}
    (hheld : ∀ n < run.length, (after C (run.take n) d).ledger.get? id ≠ none) :
    ∃ l, Path id d.ledger (intakes C run d) l := by
  induction run generalizing d with
  | nil => exact ⟨d.ledger, .done _⟩
  | cons e run ih =>
    have hproper := hrun e (List.mem_cons_self ..)
    have hnow : d.ledger.get? id ≠ none := hheld 0 (by simp)
    obtain ⟨l, hp, hl⟩ := Op.path C e.1 hproper h hnow
    unfold intakes
    cases run with
    | nil =>
      refine ⟨l, ?_⟩
      unfold intakes
      rw [List.append_nil]
      exact hp
    | cons f rest =>
      have hnext : (e.2.run C e.1 d).1.ledger.get? id ≠ none := hheld 1 (by simp)
      have hs := (Op.run_keeps C e.1 hproper h).sound
      obtain ⟨m, hm⟩ := ih (fun x hx => hrun x (List.mem_cons_of_mem e hx)) hs fun n hn =>
        hheld (n + 1) (by simpa using hn)
      rcases hl with hl | hl
      · exact ⟨m, hp.append (.aside hs hl hm)⟩
      · exact absurd hl hnext

/-! ### From the placement to the removal -/

/-- The reservation that an operation puts on the ledger. -/
def Op.Places (r : Reservation) : Op σ → Desk σ → Prop
  | .reserve id q, d => q.fault? = none ∧ r = .ofRequest id q clock ∧ d.Admits r
  | .place s, d => r = s ∧ d.Admits r
  | _, _ => False

theorem Op.Places.path {r : Reservation} {op : Op σ} (hop : op.Proper) {d : Desk σ}
    (h : d.ledger.Sound) (hp : op.Places clock r d) :
    r.Fresh ∧ d.ledger.conflict? r = none ∧
      ∃ l, Path r.id (d.ledger.add r) (op.intakes C clock d) l ∧
        Leaves r.id l (op.run C clock d).1.ledger := by
  cases op with
  | reserve id q =>
    obtain ⟨hf, rfl, ha⟩ := hp
    have hfresh := Reservation.fresh_ofRequest id clock hf
    obtain ⟨l, hpath, hs, hl⟩ := place_path C clock hfresh.sound h ha id
    refine ⟨hfresh, ha.2, l, ?_, ?_⟩
    · unfold intakes arrivals
      dsimp only
      rw [hf]
      exact hpath
    · unfold run Desk.reserve
      dsimp only
      rw [hf]
      exact place_leaves C clock hs hl _
  | place s =>
    obtain ⟨rfl, ha⟩ := hp
    have hfresh : r.Fresh := hop
    obtain ⟨l, hpath, hs, hl⟩ := place_path C clock hfresh.sound h ha r.id
    exact ⟨hfresh, ha.2, l, hpath, place_leaves C clock hs hl _⟩
  | release | releaseHandle | releaseQueue | start | nodes | deliver | halt | stop | tend =>
    exact hp.elim

theorem inStep_add {r : Reservation} (hr : r.Fresh) {l : Ledger} (h : l.Sound)
    (hc : l.conflict? r = none) : InStep r [] [] (l.add r) := by
  constructor
  · exact h.add hr.sound hc
  · refine .tracked (s := r) (by simp) rfl ?_ List.not_mem_nil
    rw [Reservation.granted_nil, Reservation.filled_nil]
  · exact .of_nothing hr.sound

/-- The batches between the placement of a reservation and the operation that takes it off lie on
a path from the ledger with the reservation on it. -/
theorem Op.Places.intakes_path {run : List (Time × Op σ)} {clock : Time} {op : Op σ}
    (hop : op.Proper) (hrun : ∀ e ∈ run, e.2.Proper) {d : Desk σ} (h : d.ledger.Sound)
    {r : Reservation} (hplaced : op.Places clock r d)
    (hheld : ∀ n < run.length, (after C ((clock, op) :: run.take n) d).ledger.get? r.id ≠ none) :
    r.Fresh ∧ d.ledger.conflict? r = none ∧
      ∃ l, Path r.id (d.ledger.add r) (Desk.intakes C ((clock, op) :: run) d) l := by
  obtain ⟨hfresh, hc, l, hp, hl⟩ := hplaced.path C clock hop h
  refine ⟨hfresh, hc, ?_⟩
  unfold Desk.intakes
  cases run with
  | nil =>
    refine ⟨l, ?_⟩
    unfold Desk.intakes
    rw [List.append_nil]
    exact hp
  | cons f rest =>
    have hs := (Op.run_keeps C clock hop h).sound
    obtain ⟨m, hm⟩ := Desk.intakes_path C hrun hs hheld
    rcases hl with hl | hl
    · exact ⟨m, hp.append (.aside hs hl hm)⟩
    · exact absurd hl (hheld 0 (by simp))

/-- From its placement up to the operation that takes it off: what is sent out comes from the
batches taken in, and after each of these all that was said of the reservation follows from the
changes that reached it. What one batch says of it is in a single event, to its handle. The event
that reports it as allocated comes with its last resource, and lists the whole of a gang. -/
theorem placement_reported (queue : QueueName) (s : σ) {pre later : List (Time × Op σ)}
    {clock : Time} {op : Op σ} (hrun : ∀ e ∈ pre ++ (clock, op) :: later, e.2.Proper) {d : Desk σ}
    (hd : d = after C pre (opened queue s)) {r : Reservation} (hplaced : op.Places clock r d)
    (hheld : ∀ n < later.length,
      (after C ((clock, op) :: later.take n) d).ledger.get? r.id ≠ none) :
    let batches := intakes C ((clock, op) :: later) d
    let granted := fun xs : List Intake => r.granted (xs.flatMap (Intake.reaching r.id))
    eventsOf (sends C ((clock, op) :: later) d) = batches.flatMap Intake.events ∧
      (∀ first, first <+: batches →
        Reported r (granted first) (first.flatMap Intake.events) ∧
          ∀ x ∈ first, Addressed r x.events) ∧
      ∀ first x, first ++ [x] <+: batches → ∀ e ∈ x.events, r.id ∈ e.allocatedReservations →
        ¬ r.Complete (granted first) ∧ r.Complete (granted (first ++ [x])) ∧
          (r.gang = true → reported r.id [e] = r.filled (granted (first ++ [x]))) ∧
          (r.gang = false → granted first ++ reported r.id [e] = granted (first ++ [x])) := by
  intro batches granted
  have hsound : d.ledger.Sound := by
    rw [hd]
    exact after_sound C (fun e he => hrun e (by simp [he])) (sound_opened queue s)
  obtain ⟨hfresh, hc, m, hm⟩ := hplaced.intakes_path C (hrun (clock, op) (by simp))
    (fun e he => hrun e (by simp [he])) hsound hheld
  have htold : ∀ first, first <+: batches →
      Reported r (granted first) (first.flatMap Intake.events) ∧
        ∀ x ∈ first, Addressed r x.events := by
    rintro first ⟨rest, hrest⟩
    have hm : Path r.id (d.ledger.add r) batches m := hm
    rw [← hrest] at hm
    obtain ⟨n, hn, -⟩ := hm.split
    obtain ⟨hstep, had⟩ := InStep.path hfresh hn (inStep_add hfresh hsound hc)
    exact ⟨hstep.reported, had⟩
  refine ⟨eventsOf_sends C _ d, htold, fun first x hx e he hid => ?_⟩
  obtain ⟨hbefore, -⟩ := htold first ((List.prefix_append first [x]).trans hx)
  obtain ⟨hafter, had⟩ := htold (first ++ [x]) hx
  rw [List.flatMap_append, List.flatMap_singleton] at hafter
  exact hbefore.completion hafter (had x (by simp)) he hid

/-- A gang of two, allocated by two batches in the other order. -/
theorem placement_reported_gang :
    let asks : List Ask := [⟨⟨1, by decide⟩, ⟨"node"⟩, .dontCare, 1, 512⟩,
      ⟨⟨2, by decide⟩, ⟨"node"⟩, .must, 1, 512⟩]
    let r := Reservation.ofRequest ⟨7, by decide⟩ ⟨⟨3, by decide⟩, ⟨"queue"⟩, true, asks⟩
      ⟨10, by decide⟩
    let holds : String → Allocation := fun id => ⟨1, 512, ⟨"node"⟩, ⟨id⟩⟩
    let later : List (Time × Op ScriptedManager) :=
      [(⟨20, by decide⟩, .deliver [.allocated ⟨2, by decide⟩ (holds "b")]),
        (⟨30, by decide⟩, .deliver [.allocated ⟨2, by decide⟩ (holds "c"),
          .allocated ⟨1, by decide⟩ (holds "a")])]
    let sent := sends ScriptedManager.connector ((⟨10, by decide⟩, .place r) :: later)
      (opened ⟨"queue"⟩ {})
    (reported r.id (eventsOf sent)).map (fun x => (x.id.value, x.allocation)) =
      [(1, some (holds "a")), (2, some (holds "b"))] := by
  intro asks r holds later sent
  have hfresh : r.Fresh := Reservation.fresh_ofRequest _ _ (by decide)
  have hrun : ∀ e ∈ [] ++ ((⟨10, by decide⟩, .place r) : Time × Op ScriptedManager) :: later,
      e.2.Proper := by
    intro e he
    rcases List.mem_cons.1 he with rfl | he
    · exact hfresh
    · rcases List.mem_cons.1 he with rfl | he
      · trivial
      · rw [List.mem_singleton.1 he]
        trivial
  have hplaced : Op.Places ⟨10, by decide⟩ r (.place r)
      (opened ⟨"queue"⟩ ({} : ScriptedManager)) := ⟨rfl, rfl, by decide⟩
  obtain ⟨hsent, htold, -⟩ := placement_reported ScriptedManager.connector ⟨"queue"⟩
    ({} : ScriptedManager) hrun rfl hplaced (by decide)
  obtain ⟨hrep, -⟩ := htold _ (List.prefix_refl _)
  have hall : reported r.id (eventsOf sent) = _ :=
    (congrArg (reported r.id) hsent).trans (hrep.gang rfl)
  rw [hall]
  decide

end ClusterBroker.Desk
