import ClusterBroker.Proofs.Broker.Mirror
import ClusterBroker.Proofs.Custody.Errands

/-!
# Transparency of supervision

As long as no gang was made to step back, nobody can tell that there is a supervisor. A broker
with one and a broker without one, given the same run over the same connector, give the same
answers, ask the same of the manager, track the same reservations and tell their clients the same.
Without gangs there is nobody to step back, so then it is so for good.

The registry must not be stopped: the controller is not told of that.
-/
namespace ClusterBroker.Broker

open GangControl (Filed)

variable {σ : Type} (C : Connector σ) (clock : Time) {b b' : Broker σ} {s : Supervisor}

/-! ### One operation -/

/-- What a client gets to see of a call. -/
inductive Reply
  | placed (answer : Except BrokerFault Reservation)
  | released (answer : Except BrokerFault (Option Reservation))
  | releasedAll (answer : Except BrokerFault (List Reservation))
  | nodes (answer : Except BrokerFault (List Node))
  | done (answer : Except BrokerFault Unit)
  | listening (id : ListenerId)

/-- The answer to a call of a client; what happens otherwise has none. -/
def Op.reply : Op σ → Broker σ → Option Reply
  | .reserve id q, b => some (.placed (b.reserve C clock id q).1)
  | .release h id n, b => some (.released (b.release C clock h id n).1)
  | .releaseHandle h n, b => some (.releasedAll (b.releaseHandle C clock h n).1)
  | .releaseQueue q n, b => some (.releasedAll (b.releaseQueue C clock q n).1)
  | .start, b => some (.done (b.start C).1)
  | .nodes, b => some (.nodes (b.nodes C).1)
  | .addClient c, b => some (.listening (b.addClient c).1)
  | .stop, b => some (.done (b.stop C clock).1)
  | _, _ => none

/-- The gangs that an operation makes step back. -/
def Op.victims : Op σ → Broker σ → List (ReservationId × HandleId)
  | .avoidDeadlock now, b => b.victims now
  | .turn, b => b.victims clock
  | _, _ => []

/-- A supervised broker in which nothing waits, and its mirror image. -/
structure Twins (b : Broker σ) (s : Supervisor) (b' : Broker σ) : Prop where
  mirrors : Mirrors b s b'
  agrees : s.control.Agrees b.desk.ledger [] []
  running : b.registry.stopped = false

theorem Twins.at_rest (h : Twins b s b') : At b s [] [] := ⟨h.mirrors.manned, h.agrees⟩

theorem Mirrors.run (h : Mirrors b s b') (ha : s.control.Agrees b.desk.ledger [] [])
    (hs : b.registry.stopped = false) {op : Op σ} (hv : op.victims clock b = [])
    (hop : op ≠ .stop) :
    (∃ s', Mirrors (op.run C clock b) s' (op.run C clock b')) ∧
      op.reply C clock b = op.reply C clock b' := by
  cases op with
  | reserve id q =>
    obtain ⟨hm, he⟩ := h.reserve C clock ha hs id q
    exact ⟨hm, congrArg (some ∘ Reply.placed) he⟩
  | release hd id n =>
    obtain ⟨hm, he⟩ := h.release C clock ha hd id n
    exact ⟨hm, congrArg (some ∘ Reply.released) he⟩
  | releaseHandle hd n =>
    obtain ⟨hm, he⟩ := h.releaseWhere C clock ha (p := fun r => r.handle = hd)
      (fun r t hc => by rw [(Reservation.claim_eq_iff.1 hc).2.1]) n
    exact ⟨hm, congrArg (some ∘ Reply.releasedAll) he⟩
  | releaseQueue q n =>
    obtain ⟨hm, he⟩ := h.releaseWhere C clock ha (p := fun r => r.queue = q)
      (fun r t hc => by rw [(Reservation.claim_eq_iff.1 hc).2.2.1]) n
    exact ⟨hm, congrArg (some ∘ Reply.releasedAll) he⟩
  | start =>
    dsimp only [Op.run, Op.reply, Broker.start]
    rw [h.desk_eq]
    exact ⟨⟨s, h.with_desk _⟩, rfl⟩
  | nodes =>
    dsimp only [Op.run, Op.reply, Broker.nodes]
    rw [h.desk_eq]
    exact ⟨⟨s, h.with_desk _⟩, rfl⟩
  | deliver cs =>
    dsimp only [Op.run, Broker.deliver]
    rw [h.desk_eq]
    exact ⟨h.follow clock _ _, rfl⟩
  | halt order =>
    dsimp only [Op.run]
    rw [h.desk_eq]
    exact ⟨h.follow clock _ _, rfl⟩
  | avoidDeadlock now =>
    dsimp only [Op.run]
    rw [avoidDeadlock_alone C clock now h.alone]
    exact ⟨h.avoidDeadlock C clock now ha hv, rfl⟩
  | retry now =>
    dsimp only [Op.run]
    rw [retry_alone C clock now h.alone]
    exact ⟨h.retry C clock now, rfl⟩
  | turn =>
    obtain ⟨s', h'⟩ := h.avoidDeadlock C clock clock ha hv
    have halone : (b'.supervisionTurn C clock).2 = b' := by
      unfold supervisionTurn
      dsimp only
      rw [avoidDeadlock_alone C clock clock h.alone, retry_alone C clock clock h.alone]
    dsimp only [Op.run]
    rw [halone]
    exact ⟨h'.retry C clock clock, rfl⟩
  | roll dice =>
    dsimp only [Op.run]
    rw [modifyControl_alone h.alone]
    exact ⟨⟨_, h.modifyControl (f := fun c => { c with dice := dice }) h.idle⟩, rfl⟩
  | addClient x =>
    obtain ⟨hm, he⟩ := h.addClient x
    exact ⟨hm, congrArg (some ∘ Reply.listening) he⟩
  | removeClient i => exact ⟨h.removeClient i, rfl⟩
  | tend f =>
    dsimp only [Op.run, modifyConnector]
    rw [h.desk_eq]
    exact ⟨⟨s, h.with_desk _⟩, rfl⟩
  | stop => exact absurd rfl hop

theorem run_stopped (h : b.supervisor = none) (hl : b.desk.ledger.Sound) {op : Op σ}
    (hop : op ≠ .stop) : (op.run C clock b).registry.stopped = b.registry.stopped := by
  cases op with
  | reserve id q =>
    dsimp only [Op.run]
    rw [reserve_alone C clock h]
    exact Desk.reserve_stopped C clock hl id q
  | release hd id n =>
    dsimp only [Op.run, release, forgetOf]
    rw [h]
    exact Desk.release_stopped C clock hd id n _
  | releaseHandle hd n =>
    dsimp only [Op.run, releaseHandle, forgetWhere]
    rw [h]
    exact Desk.releaseWhere_stopped C clock _ n _
  | releaseQueue q n =>
    dsimp only [Op.run, releaseQueue, forgetWhere]
    rw [h]
    exact Desk.releaseWhere_stopped C clock _ n _
  | start => rfl
  | nodes => rfl
  | deliver cs => exact Desk.onChanges_stopped C clock cs _
  | halt order => rfl
  | avoidDeadlock now =>
    dsimp only [Op.run]
    rw [avoidDeadlock_alone C clock now h]
  | retry now =>
    dsimp only [Op.run]
    rw [retry_alone C clock now h]
  | turn =>
    dsimp only [Op.run, supervisionTurn]
    rw [avoidDeadlock_alone C clock clock h, retry_alone C clock clock h]
  | roll dice =>
    dsimp only [Op.run]
    rw [modifyControl_alone h]
  | addClient x =>
    dsimp only [Op.run, addClient]
    rw [h]
    rfl
  | removeClient i =>
    dsimp only [Op.run, removeClient]
    rw [h]
    rfl
  | tend f => rfl
  | stop => exact absurd rfl hop

/-- A request under an id that is in use changes nothing. -/
theorem Twins.reserve_known (h : Twins b s b') {id : ReservationId} (hid : b.get? id ≠ none)
    (q : Request) : (b.reserve C clock id q).2 = b := by
  have hblocks : b.desk.Blocks id q := by
    left
    rw [h.mirrors.get?_eq h.agrees] at hid
    unfold get? control? registry at hid
    rw [h.mirrors.alone, h.mirrors.desk_eq] at hid
    exact hid
  have hc := h.mirrors.manned.control?
  have hfiled : b.Controls Filed := by
    intro c hc'
    rw [hc] at hc'
    rw [← Option.some.inj hc']
    exact h.agrees.filed
  have hidle : s.control.backoff.isEmpty = true := DelayQueue.isEmpty_iff.2 h.mirrors.idle
  unfold reserve
  rw [hc]
  dsimp only
  split
  next =>
    obtain ⟨f, -, hr⟩ := reserveGang_refused C clock hfiled hc (.inr ⟨hidle, hblocks⟩)
    rw [hr]
  next =>
    obtain ⟨f, -, hr⟩ := reserveDirectly_refused C clock hblocks
    rw [hr]

theorem Twins.run_at_rest (h : Twins b s b') {op : Op σ} (hop : op ≠ .stop) :
    ∃ s', At (op.run C clock b) s' [] [] := by
  by_cases hallowed : op.Allowed b
  · obtain ⟨s', ids, hs⟩ := Op.run_steps C clock h.at_rest hallowed
    exact ⟨s', hs.at_rest⟩
  · cases op with
    | reserve id q =>
      dsimp only [Op.run]
      rw [h.reserve_known C clock hallowed q]
      exact ⟨s, h.at_rest⟩
    | stop => exact absurd rfl hop
    | _ => exact absurd trivial hallowed

theorem Twins.run (h : Twins b s b') {op : Op σ} (hv : op.victims clock b = []) (hop : op ≠ .stop) :
    (∃ s', Twins (op.run C clock b) s' (op.run C clock b')) ∧
      op.reply C clock b = op.reply C clock b' := by
  obtain ⟨⟨s', hm⟩, hreply⟩ := h.mirrors.run C clock h.agrees h.running hv hop
  obtain ⟨s'', ha⟩ := h.run_at_rest C clock hop
  have hs := hm.manned.unique ha.manned
  subst hs
  have hsound : b'.desk.ledger.Sound := by
    rw [h.mirrors.desk_eq]
    exact h.agrees.sound
  refine ⟨⟨s'', hm, ha.agrees, ?_⟩, hreply⟩
  unfold registry
  rw [← hm.desk_eq]
  refine (run_stopped C clock h.mirrors.alone hsound hop).trans ?_
  unfold registry
  rw [h.mirrors.desk_eq]
  exact h.running

/-! ### Runs -/

/-- No operation of a run makes a gang step back. -/
def Calm : List (Time × Op σ) → Broker σ → Prop
  | [], _ => True
  | e :: run, b => e.2.victims e.1 b = [] ∧ Calm run (e.2.run C e.1 b)

instance Calm.decidable : (run : List (Time × Op σ)) → (b : Broker σ) → Decidable (Calm C run b)
  | [], _ => inferInstanceAs (Decidable True)
  | e :: run, b =>
    have := Calm.decidable run (e.2.run C e.1 b)
    inferInstanceAs (Decidable (e.2.victims e.1 b = [] ∧ Calm C run (e.2.run C e.1 b)))

/-- The answers that clients get in a run. -/
def replies : List (Time × Op σ) → Broker σ → List (Option Reply)
  | [], _ => []
  | e :: run, b => e.2.reply C e.1 b :: replies run (e.2.run C e.1 b)

/-- Nobody asks for a gang. -/
def GangFree (run : List (Time × Op σ)) : Prop :=
  ∀ e ∈ run, ∀ id q, e.2 = .reserve id q → q.gang = false

theorem Twins.after {run : List (Time × Op σ)} (h : Twins b s b')
    (hrun : ∀ e ∈ run, e.2 ≠ .stop) (hcalm : Calm C run b) :
    (∃ s', Twins (after C run b) s' (Broker.after C run b')) ∧
      replies C run b = replies C run b' := by
  induction run generalizing b s b' with
  | nil => exact ⟨⟨s, h⟩, rfl⟩
  | cons e run ih =>
    obtain ⟨hv, hrest⟩ := hcalm
    obtain ⟨⟨s₁, h₁⟩, hreply⟩ := h.run C e.1 hv (hrun e (List.mem_cons_self ..))
    obtain ⟨htwins, hreplies⟩ := ih h₁ (fun x hx => hrun x (List.mem_cons_of_mem _ hx)) hrest
    constructor
    · exact htwins
    · unfold replies
      rw [hreply, hreplies]

/-- A controller that has heard of plain reservations only knows nobody who could step back. -/
theorem Twins.victims_eq_nil (h : Twins b s b') (hw : b.Watched fun r => r.gang = false)
    (op : Op σ) : op.victims clock b = [] := by
  have hc := h.mirrors.manned.control?
  have hnone : ∀ id, s.control.known.get? id = none := by
    intro id
    cases hr : s.control.known.get? id with
    | none => rfl
    | some r =>
      have hgang := (h.agrees.known_gang hr).1
      rw [show r.gang = false from hw s.control hc id r hr] at hgang
      simp at hgang
  have hall : ∀ now, b.victims now = [] := by
    intro now
    unfold victims
    rw [hc]
    dsimp only
    split
    next => rfl
    next => exact GangControl.pick_unknown hnone _ _
  cases op with
  | avoidDeadlock now => exact hall now
  | turn => exact hall clock
  | _ => rfl

theorem Twins.calm {run : List (Time × Op σ)} (h : Twins b s b')
    (hw : b.Watched fun r => r.gang = false) (hrun : ∀ e ∈ run, e.2 ≠ .stop)
    (hfree : GangFree run) : Calm C run b := by
  induction run generalizing b s b' with
  | nil => trivial
  | cons e run ih =>
    have hv := h.victims_eq_nil e.1 hw e.2
    obtain ⟨⟨s₁, h₁⟩, -⟩ := h.run C e.1 hv (hrun e (List.mem_cons_self ..))
    have hw₁ : (e.2.run C e.1 b).Watched fun r => r.gang = false :=
      hw.run C e.1 fun id q he _ => hfree e (List.mem_cons_self ..) id q he
    exact ⟨hv, ih h₁ hw₁ (fun x hx => hrun x (List.mem_cons_of_mem _ hx))
      fun x hx => hfree x (List.mem_cons_of_mem _ hx)⟩

theorem supervised_twins (o : DeadlockOptions) (queue : QueueName) (state : σ) :
    Twins (supervised clock o queue state)
      { control := { options := o, lastAllocation := clock } }
      (ofDesk (Desk.opened queue state)) := by
  have hat := supervised_at clock o queue state
  exact ⟨⟨hat.manned, rfl, rfl, rfl, rfl, rfl, fun _ => rfl⟩, hat.agrees, rfl⟩

/-! ### What the manager is asked -/

/-- A call on a connector, with what it was given. -/
inductive ManagerCall
  | register (queue : QueueName)
  | unregister (clock : Time)
  | nodes
  | reserve (clock : Time) (rs : List Resource)
  | release (clock : Time) (rs : List Resource) (noCache : Bool)
  | reassign (m : ManagerId) (id : ResourceId)

/-- The state of a connector, and the calls made on it so far. -/
structure Recorded (σ : Type) where
  state : σ
  calls : List ManagerCall := []

def Recorded.answer {α : Type} (s : Recorded σ) (c : ManagerCall) (a : Answer σ α) :
    Answer (Recorded σ) α :=
  (a.1, ⟨a.2, s.calls ++ [c]⟩)

/-- The connector with a record of the calls. It answers as without. -/
def recorded (C : Connector σ) : Connector (Recorded σ) where
  register q s := s.answer (.register q) (C.register q s.state)
  unregister t s := s.answer (.unregister t) (C.unregister t s.state)
  nodes s := s.answer .nodes (C.nodes s.state)
  reserve t rs s :=
    let a := C.reserve t rs s.state
    (a.1, a.2.1.map fun d => ⟨d.changes, fun s => { s with state := d.passing s.state }⟩,
      ⟨a.2.2, s.calls ++ [.reserve t rs]⟩)
  release t rs n s := s.answer (.release t rs n) (C.release t rs n s.state)
  reassign m id s := s.answer (.reassign m id) (C.reassign m id s.state)
  incoming cs s := { s with state := C.incoming cs s.state }
  halted s := { s with state := C.halted s.state }

/-- Two brokers that look the same from outside: to clients that ask, to clients that listen and
stay, to whoever looks into the registry, and to the manager. -/
structure Alike (b b' : Broker (Recorded σ)) : Prop where
  get?_eq : ∀ id, b.get? id = b'.get? id
  heardBy_eq : ∀ x, x.once = false → b.heardBy x = b'.heardBy x
  registry_eq : b.registry = b'.registry
  calls_eq : b.desk.connector.calls = b'.desk.connector.calls

/-- A run in which no gang steps back, or in which nobody asks for a gang, does not tell a broker
with a supervisor from one without. -/
theorem supervision_transparent (o : DeadlockOptions) (queue : QueueName) (state : σ)
    (opened : Time) {run : List (Time × Op (Recorded σ))} (hrun : ∀ e ∈ run, e.2 ≠ .stop)
    (hcalm : Calm (recorded C) run (supervised opened o queue ⟨state, []⟩) ∨ GangFree run) :
    let b := supervised opened o queue (⟨state, []⟩ : Recorded σ)
    let b' := ofDesk (Desk.opened queue (⟨state, []⟩ : Recorded σ))
    replies (recorded C) run b = replies (recorded C) run b' ∧
      Alike (after (recorded C) run b) (after (recorded C) run b') := by
  intro b b'
  have hstart := supervised_twins opened o queue (⟨state, []⟩ : Recorded σ)
  have hcalm' : Calm (recorded C) run b := by
    rcases hcalm with hcalm | hfree
    · exact hcalm
    · apply hstart.calm (recorded C) _ hrun hfree
      intro c hc id r hr
      rw [hstart.mirrors.manned.control?] at hc
      rw [← Option.some.inj hc] at hr
      simp at hr
  obtain ⟨⟨s', h⟩, hreplies⟩ := hstart.after (recorded C) hrun hcalm'
  refine ⟨hreplies, h.mirrors.get?_eq h.agrees, fun x hx => (h.mirrors.heardBy_eq hx).symm, ?_, ?_⟩
  · unfold registry
    rw [h.mirrors.desk_eq]
  · rw [h.mirrors.desk_eq]

/-- A gang is placed and asked for a second time, the supervisor takes a turn, the gang is
allocated, a client that listens hears of it, and it is released. -/
theorem supervision_transparent_gang :
    let request : Request := ⟨⟨3, by decide⟩, ⟨"queue"⟩, true, [
      ⟨⟨1, by decide⟩, ⟨"node"⟩, .dontCare, 1, 512⟩, ⟨⟨2, by decide⟩, ⟨"node"⟩, .dontCare, 1, 512⟩]⟩
    let run : List (Time × Op (Recorded ScriptedManager)) := [
      (.ofMillis 1, .addClient ⟨0, false, false⟩),
      (.ofMillis 2, .reserve ⟨7, by decide⟩ request),
      (.ofMillis 3, .reserve ⟨7, by decide⟩ request),
      (.ofMillis 4, .turn),
      (.ofMillis 5, .deliver [.allocated ⟨1, by decide⟩ ⟨1, 512, ⟨"node"⟩, ⟨"first"⟩⟩,
        .allocated ⟨2, by decide⟩ ⟨1, 512, ⟨"node"⟩, ⟨"second"⟩⟩]),
      (.ofMillis 6, .release ⟨3, by decide⟩ ⟨7, by decide⟩ false)]
    let b := supervised (.ofMillis 0) {} ⟨"queue"⟩ (⟨{}, []⟩ : Recorded ScriptedManager)
    let b' := ofDesk (Desk.opened ⟨"queue"⟩ (⟨{}, []⟩ : Recorded ScriptedManager))
    (after (recorded ScriptedManager.connector) run b).told.length = 1 ∧
      replies (recorded ScriptedManager.connector) run b =
        replies (recorded ScriptedManager.connector) run b' ∧
      Alike (after (recorded ScriptedManager.connector) run b)
        (after (recorded ScriptedManager.connector) run b') := by
  intro request run b b'
  constructor
  · decide +kernel
  · apply supervision_transparent ScriptedManager.connector {} ⟨"queue"⟩ {} (.ofMillis 0)
    · simp [run]
    · left
      decide +kernel

end ClusterBroker.Broker
