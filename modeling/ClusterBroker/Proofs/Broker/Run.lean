import ClusterBroker.Proofs.Broker.Calls
import ClusterBroker.Proofs.Broker.Turns

/-!
# Runs under supervision

A run of a supervised broker is a list of operations, each at its own reading of the clock: calls
of clients, reports of the manager, turns of the supervisor with any draws, and changes of the
connector by itself. In a run that is admitted the broker is not stopped, and no request comes
under an id that the broker knows at that moment.
-/
namespace ClusterBroker.Broker

open GangControl (Agrees Goes Has live)

variable {σ : Type}

inductive Op (σ : Type) where
  | reserve (id : ReservationId) (request : Request)
  | release (handle : HandleId) (id : ReservationId) (noCache : Bool)
  | releaseHandle (handle : HandleId) (noCache : Bool)
  | releaseQueue (queue : QueueName) (noCache : Bool)
  | start
  | nodes
  | deliver (changes : List Change)
  /-- The manager stops; the index is gone through in this order. -/
  | halt (order : Ledger → List ResourceId)
  | avoidDeadlock (now : Time)
  | retry (now : Time)
  | turn
  /-- Chance: the draws to come. -/
  | roll (dice : Dice)
  | addClient (c : Client)
  | removeClient (id : ListenerId)
  /-- The connector changes by itself. -/
  | tend (change : σ → σ)
  | stop

variable (C : Connector σ) (clock : Time)

def Op.run : Op σ → Broker σ → Broker σ
  | .reserve id q, b => (b.reserve C clock id q).2
  | .release h id n, b => (b.release C clock h id n).2
  | .releaseHandle h n, b => (b.releaseHandle C clock h n).2
  | .releaseQueue q n, b => (b.releaseQueue C clock q n).2
  | .start, b => (b.start C).2
  | .nodes, b => (b.nodes C).2
  | .deliver cs, b => b.deliver C clock cs
  | .halt order, b =>
    b.follow clock (b.desk.onHaltedIn order C clock).2 (b.desk.onHaltedIn order C clock).1
  | .avoidDeadlock now, b => (b.avoidDeadlock C clock now).2
  | .retry now, b => (b.retry C clock now).2
  | .turn, b => (b.supervisionTurn C clock).2
  | .roll dice, b => b.modifyControl fun c => { c with dice := dice }
  | .addClient c, b => (b.addClient c).2
  | .removeClient id, b => (b.removeClient id).2
  | .tend f, b => b.modifyConnector f
  | .stop, b => (b.stop C clock).2

/-- The id that an operation asks for. -/
def Op.reserved : Op σ → Option ReservationId
  | .reserve id _ => some id
  | _ => none

/-- The reservations that a call of a client names for release. -/
def Op.releases : Op σ → Reservation → Bool
  | .release h id _, r => decide (r.id = id) && decide (r.handle = h)
  | .releaseHandle h _, r => r.handle = h
  | .releaseQueue q _, r => r.queue = q
  | _, _ => false

def Op.Allowed : Op σ → Broker σ → Prop
  | .reserve id _, b => b.get? id = none
  | .stop, _ => False
  | _, _ => True

/-- The listener `i`, who is the client `x`, is not sent away or added again. -/
def Op.Leaves (i : ListenerId) (x : Client) : Op σ → Prop
  | .addClient c => c ≠ x
  | .removeClient j => j ≠ i
  | _ => True

/-- The broker after a run. -/
def after (run : List (Time × Op σ)) (b : Broker σ) : Broker σ :=
  run.foldl (fun b e => e.2.run C e.1 b) b

def Admitted : List (Time × Op σ) → Broker σ → Prop
  | [], _ => True
  | e :: run, b => e.2.Allowed b ∧ Admitted run (e.2.run C e.1 b)

/-- A supervised broker over a desk that has not been used. -/
def supervised (o : DeadlockOptions) (queue : QueueName) (s : σ) : Broker σ :=
  (ofDesk (Desk.opened queue s)).supervise o clock

theorem supervised_at (o : DeadlockOptions) (queue : QueueName) (s : σ) :
    At (supervised clock o queue s)
      { control := { options := o, lastAllocation := clock } } [] [] :=
  ⟨⟨rfl, ⟨0⟩, rfl⟩, GangControl.agrees_empty o clock⟩

/-! ### One operation -/

variable {b : Broker σ} {s : Supervisor}

/-- What an operation does to a broker at rest, with what its clients hear meanwhile. -/
structure Steps (op : Op σ) (b : Broker σ) (s : Supervisor) (ids : List ReservationId)
    (b' : Broker σ) (s' : Supervisor) : Prop where
  at_rest : At b' s' [] []
  goes : C.Discreet → s.control.Goes (fun id => op.reserved ≠ some id ∧
    ∀ r, Has s.control b.desk.ledger id r → op.releases r = false)
    b.desk.ledger ids s'.control b'.desk.ledger
  told : ∀ {i x}, Attends i x s → op.Leaves i x →
    Attends i x s' ∧ settledIn (heardBy x b') = settledIn (heardBy x b) ++ ids
  freed : Freed op.releases b s b' s'
  silent : ∀ {r}, op.releases r = true → ids = []

variable {C} in
theorem Steps.of_passes {op : Op σ} {b' : Broker σ} {s' : Supervisor} {ids : List ReservationId}
    {p : ReservationId → Prop} (h : At b' s' [] []) (hp : Passes C p b s ids b' s')
    (hop : ∀ id, op.reserved ≠ some id → p id) (hr : ∀ r, op.releases r = false) :
    Steps C op b s ids b' s' := by
  refine ⟨h, fun hC => (hp.goes hC).mono fun id hid => hop id hid.1,
    fun hx _ => hp.hears.told hx, ⟨fun {k r} _ hqr => ?_, fun {k r} _ hqr => ?_⟩,
    fun {r} hqr => ?_⟩
  · rw [hr] at hqr
    simp at hqr
  · rw [hr] at hqr
    simp at hqr
  · rw [hr] at hqr
    simp at hqr

variable {C} in
theorem Steps.of_release {op : Op σ} {b' : Broker σ} {s' : Supervisor} {q : Reservation → Bool}
    (h : At b' s' [] [] ∧
      Passes C (fun k => ∀ r, Has s.control b.desk.ledger k r → q r = false) b s [] b' s' ∧
      Freed q b s b' s') (hq : op.releases = q) : Steps C op b s [] b' s' := by
  obtain ⟨h, hp, hf⟩ := h
  subst hq
  exact ⟨h, fun hC => (hp.goes hC).mono fun id hid => hid.2, fun hx _ => hp.hears.told hx, hf,
    fun _ => rfl⟩

/-- Only the connector is called. -/
theorem Steps.of_ledger {op : Op σ} {b' : Broker σ} (h : At b s [] [])
    (hs : b'.supervisor = b.supervisor) (hl : b'.listeners = b.listeners) (ht : b'.told = b.told)
    (hd : b'.desk.ledger = b.desk.ledger) (hr : ∀ r, op.releases r = false) :
    Steps C op b s [] b' s := by
  have hm : Manned b' s := by
    refine ⟨hs.trans h.manned.supervisor, ?_⟩
    rw [hl]
    exact h.manned.listeners
  refine .of_passes (p := fun _ => True) ⟨hm, ?_⟩ ⟨.of_silent hm rfl ht, fun _ => ?_⟩
    (fun _ _ => trivial) hr
  · rw [hd]
    exact h.agrees
  · rw [hd]
    exact .refl _ _ _

theorem addClient_steps (h : At b s [] []) (x : Client) :
    ∃ s', Steps C (.addClient x) b s [] (b.addClient x).2 s' := by
  unfold addClient
  rw [h.manned.supervisor]
  have hm : Manned ({ b with
      supervisor := some { s with clients := (s.clients.add x).2 } } : Broker σ)
      { s with clients := (s.clients.add x).2 } := ⟨rfl, h.manned.listeners⟩
  refine ⟨_, ⟨hm, h.agrees⟩, fun _ => .refl _ _ _, fun {i y} hy hl => ⟨⟨hy.once_eq, ?_⟩, ?_⟩,
    ⟨nofun, nofun⟩, nofun⟩
  · have hne : x ≠ y := hl
    simp [Listeners.add, hy.entries_eq, hne]
  · simp [heardBy]

theorem removeClient_steps (h : At b s [] []) (j : ListenerId) :
    ∃ s', Steps C (.removeClient j) b s [] (b.removeClient j).2 s' := by
  unfold removeClient
  rw [h.manned.supervisor]
  have hm : Manned ({ b with
      supervisor := some { s with clients := (s.clients.remove j).2 } } : Broker σ)
      { s with clients := (s.clients.remove j).2 } := ⟨rfl, h.manned.listeners⟩
  refine ⟨_, ⟨hm, h.agrees⟩, fun _ => .refl _ _ _, fun {i y} hy hl => ⟨⟨hy.once_eq, ?_⟩, ?_⟩,
    ⟨nofun, nofun⟩, nofun⟩
  · have hne : j ≠ i := hl
    unfold Listeners.remove
    dsimp only
    rw [List.filter_comm, hy.entries_eq]
    simp [Ne.symm hne]
  · simp [heardBy]

theorem Op.run_steps {op : Op σ} (h : At b s [] []) (hop : op.Allowed b) :
    ∃ s' ids, Steps C op b s ids (op.run C clock b) s' := by
  cases op with
  | reserve id q =>
    obtain ⟨s', ids, h', hp, -⟩ := reserve_passes C clock h id q hop
    exact ⟨s', ids, .of_passes h' hp (fun k hk he => hk (he ▸ rfl)) fun _ => rfl⟩
  | release hd id n =>
    obtain ⟨s', h'⟩ := release_passes C clock h hd id n
    exact ⟨s', [], .of_release h' rfl⟩
  | releaseHandle hd n =>
    obtain ⟨s', h'⟩ := releaseWhere_passes C clock h (q := fun r => r.handle = hd)
      (fun r t he => by rw [(Reservation.claim_eq_iff.1 he).2.1]) n
    exact ⟨s', [], .of_release h' rfl⟩
  | releaseQueue q n =>
    obtain ⟨s', h'⟩ := releaseWhere_passes C clock h (q := fun r => r.queue = q)
      (fun r t he => by rw [(Reservation.claim_eq_iff.1 he).2.2.1]) n
    exact ⟨s', [], .of_release h' rfl⟩
  | start => exact ⟨s, [], .of_ledger C h rfl rfl rfl rfl fun _ => rfl⟩
  | nodes => exact ⟨s, [], .of_ledger C h rfl rfl rfl rfl fun _ => rfl⟩
  | deliver cs =>
    obtain ⟨s', h', hp⟩ :=
      follow_passes C clock h (Desk.deliver_succeeds C clock h.agrees.sound cs)
    exact ⟨s', _, .of_passes h' hp (fun _ _ => trivial) fun _ => rfl⟩
  | halt order =>
    obtain ⟨s', h', hp⟩ :=
      follow_passes C clock h (Desk.onHaltedIn_succeeds C clock h.agrees.sound order)
    exact ⟨s', _, .of_passes h' hp (fun _ _ => trivial) fun _ => rfl⟩
  | avoidDeadlock now =>
    obtain ⟨s', h', hp⟩ := avoidDeadlock_passes C clock now h
    exact ⟨s', [], .of_passes h' hp (fun _ _ => trivial) fun _ => rfl⟩
  | retry now =>
    obtain ⟨s', ids, h', hp⟩ := retry_passes C clock now h
    exact ⟨s', ids, .of_passes h' hp (fun _ _ => trivial) fun _ => rfl⟩
  | turn =>
    obtain ⟨s', ids, h', hp⟩ := supervisionTurn_passes C clock h
    exact ⟨s', ids, .of_passes h' hp (fun _ _ => trivial) fun _ => rfl⟩
  | roll dice =>
    obtain ⟨h', hp⟩ := h.touch C (f := fun c => { c with dice := dice })
      (h.agrees.congr rfl rfl rfl) fun _ => rfl
    exact ⟨_, [], .of_passes h' hp (fun _ _ => trivial) fun _ => rfl⟩
  | addClient c =>
    obtain ⟨s', h'⟩ := addClient_steps C h c
    exact ⟨s', [], h'⟩
  | removeClient j =>
    obtain ⟨s', h'⟩ := removeClient_steps C h j
    exact ⟨s', [], h'⟩
  | tend f => exact ⟨s, [], .of_ledger C h rfl rfl rfl rfl fun _ => rfl⟩
  | stop => exact absurd hop id

/-! ### Whole runs -/

theorem after_cons (e : Time × Op σ) (run : List (Time × Op σ)) (b : Broker σ) :
    after C (e :: run) b = after C run (e.2.run C e.1 b) := rfl

theorem after_append (run run' : List (Time × Op σ)) (b : Broker σ) :
    after C (run ++ run') b = after C run' (after C run b) := by
  unfold after
  rw [List.foldl_append]

theorem admitted_cons (e : Time × Op σ) (run : List (Time × Op σ)) (b : Broker σ) :
    Admitted C (e :: run) b ↔ e.2.Allowed b ∧ Admitted C run (e.2.run C e.1 b) := Iff.rfl

theorem admitted_append {run run' : List (Time × Op σ)} :
    Admitted C (run ++ run') b ↔ Admitted C run b ∧ Admitted C run' (after C run b) := by
  induction run generalizing b with
  | nil => exact ⟨fun h => ⟨trivial, h⟩, fun h => h.2⟩
  | cons e run ih =>
    rw [List.cons_append, admitted_cons, admitted_cons, ih, and_assoc, after_cons]

theorem after_at {run : List (Time × Op σ)} (h : At b s [] []) (hrun : Admitted C run b) :
    ∃ s', At (after C run b) s' [] [] := by
  induction run generalizing b s with
  | nil => exact ⟨s, h⟩
  | cons e run ih =>
    obtain ⟨hop, hrest⟩ := hrun
    obtain ⟨s₁, ids, h₁⟩ := Op.run_steps C e.1 h hop
    exact ih h₁.at_rest hrest

end ClusterBroker.Broker
