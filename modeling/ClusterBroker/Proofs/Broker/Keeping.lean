import ClusterBroker.Proofs.Custody.Errands

/-!
# What errands keep

A broker does everything at its desk, so what every proper operation of a desk keeps, a broker
keeps. And a desk does nothing to its connector but call it. So what every call keeps, and every
batch on its way up, is kept by every operation of a desk and of a broker. Three operations are left
out there, since more may be wanted of them: the connector is unregistered, it halts, or it changes
by itself.
-/
namespace ClusterBroker

variable {σ : Type}

/-- Every call keeps `I`, and so does every batch that comes up. -/
structure Connector.Keeps (C : Connector σ) (I : σ → Prop) : Prop where
  register : ∀ {s} q, I s → I (C.register q s).2
  nodes : ∀ {s}, I s → I (C.nodes s).2
  reserve : ∀ {s} t rs, I s → I (C.reserve t rs s).2.2
  passing : ∀ s t rs, ∀ x ∈ (C.reserve t rs s).2.1, ∀ {s'}, I s' → I (x.passing s')
  release : ∀ {s} t rs n, I s → I (C.release t rs n s).2
  incoming : ∀ {s} cs, I s → I (C.incoming cs s)

namespace Desk

variable {C : Connector σ} {I : σ → Prop} (hC : C.Keeps I) (clock : Time) {d : Desk σ}
include hC

theorem onChanges_connector (h : I d.connector) (cs : List Change) :
    I (d.onChanges C clock cs).1.connector := by
  unfold onChanges
  split
  · exact h
  · dsimp only
    split
    · exact h
    · exact hC.release _ _ _ h

theorem receiveAll_connector (h : I d.connector) (xs : List (Delivery σ))
    (hx : ∀ x ∈ xs, ∀ {s}, I s → I (x.passing s)) :
    I (receiveAll C clock xs d).1.connector := by
  induction xs generalizing d with
  | nil => exact h
  | cons x xs ih =>
    obtain ⟨hone, hrest⟩ := List.forall_mem_cons.1 hx
    exact ih (onChanges_connector hC clock (d := { d with connector := x.passing d.connector })
      (hone h) x.changes) hrest

theorem place_connector (h : I d.connector) (r : Reservation) :
    I (d.place C clock r).desk.connector := by
  unfold place
  split
  next => exact h
  next =>
    split
    next => exact h
    next l _ =>
      have hall := receiveAll_connector hC clock
        (d := { d.setLedger l with connector := (C.reserve clock r.resources d.connector).2.2 })
        (hC.reserve clock r.resources h) _ (hC.passing d.connector clock r.resources)
      dsimp only
      split
      · exact hall
      · exact hall

theorem giveBack_connector (h : I d.connector) (removed : List Reservation) (noCache : Bool) :
    I (d.giveBack C clock removed noCache).2.connector := by
  unfold giveBack
  dsimp only
  split
  · exact h
  · exact hC.release _ _ _ h

theorem release_connector (h : I d.connector) (hd : HandleId) (id : ReservationId)
    (noCache : Bool) : I (d.release C clock hd id noCache).2.connector := by
  unfold release
  split
  · exact h
  · split
    · exact giveBack_connector hC clock (d := d.setLedger _) h _ noCache
    · exact h

theorem releaseWhere_connector (h : I d.connector) (p : Reservation → Bool) (noCache : Bool) :
    I (d.releaseWhere C clock p noCache).2.connector :=
  giveBack_connector hC clock (d := d.setLedger _) h _ noCache

omit hC in
/-- The connector is unregistered, it halts, or it changes by itself. -/
def Op.Upsets : Op σ → Bool
  | .halt _ | .stop | .tend _ => true
  | _ => false

theorem Op.run_connector (h : I d.connector) {op : Op σ} (hop : op.Upsets = false) :
    I (op.run C clock d).1.connector := by
  cases op with
  | reserve id q =>
    unfold run Desk.reserve
    dsimp only
    split
    · exact h
    · exact place_connector hC clock h _
  | place r => exact place_connector hC clock h r
  | release hd id n => exact release_connector hC clock h hd id n
  | releaseHandle hd n => exact releaseWhere_connector hC clock h _ n
  | releaseQueue q n => exact releaseWhere_connector hC clock h _ n
  | start => exact hC.register _ h
  | nodes => exact hC.nodes h
  | deliver cs =>
    exact onChanges_connector hC clock (d := { d with connector := C.incoming cs d.connector })
      (hC.incoming cs h) cs
  | halt | stop | tend => simp [Upsets] at hop

end Desk

namespace Broker

variable {C : Connector σ} {I : σ → Prop} (clock : Time) {b : Broker σ}

/-! ### Proper errands -/

/-- What the supervisor places again is as good as a new request. -/
theorem Op.errands_proper {C : Connector σ} (h : b.Watched Reservation.Fresh) (op : Op σ) :
    ∀ o ∈ op.errands C clock b, o.Proper := by
  intro o ho
  rcases Op.errand_cases C clock h
    (fun id q _ hf => Reservation.fresh_ofRequest id clock hf) ho with
    hd | ⟨_, _, rfl⟩ | ⟨r, hr, rfl⟩
  · cases op with
    | avoidDeadlock | retry | turn | roll | addClient | removeClient => simp [direct] at hd
    | reserve | release | releaseHandle | releaseQueue | start | nodes | deliver | halt | tend
    | stop =>
      rw [← Option.some.inj hd]
      trivial
  · trivial
  · exact hr

/-- What proper operations of a desk keep, an operation of a broker keeps. -/
theorem Op.run_proper {C : Connector σ} {P : Desk σ → Prop} (hP : ∀ {o : Desk.Op σ} {d : Desk σ},
      o.Proper → P d → P (o.run C clock d).1) (hw : b.Watched Reservation.Fresh) (h : P b.desk)
    (op : Op σ) : P (op.run C clock b).desk := by
  rw [Op.run_desk]
  exact serve_keeps C clock (fun o ho _ hd => hP (Op.errands_proper clock hw op o ho) hd) h

theorem supervised_watched (p : Reservation → Prop) (o : DeadlockOptions) (queue : QueueName)
    (s : σ) : (supervised clock o queue s).Watched p := by
  intro c hc id r hr
  rw [← Option.some.inj hc] at hr
  simp at hr

/-- Through any run whatever the ledger stays sound. -/
theorem after_sound (C : Connector σ) (o : DeadlockOptions) (queue : QueueName) (s : σ)
    (run : List (Time × Op σ)) : (after C run (supervised clock o queue s)).desk.ledger.Sound := by
  have hall : ∀ (run : List (Time × Op σ)) {b : Broker σ}, b.Watched Reservation.Fresh →
      b.desk.ledger.Sound → (after C run b).desk.ledger.Sound := by
    intro run
    induction run with
    | nil => exact fun _ h => h
    | cons e run ih =>
      intro b hw h
      refine ih (hw.run C e.1 fun id q _ hf => Reservation.fresh_ofRequest id e.1 hf) ?_
      exact Op.run_proper e.1 (P := fun d => d.ledger.Sound)
        (fun ho hd => (Desk.Op.run_keeps C e.1 ho hd).sound) hw h e.2
  exact hall run (supervised_watched clock _ o queue s) (Desk.sound_opened queue s)

/-! ### Calm errands -/

/-- The connector is unregistered, it halts, or it changes by itself. -/
def Op.Upsets : Op σ → Bool
  | .halt _ | .stop | .tend _ => true
  | _ => false

theorem Op.errands_calm {op : Op σ} (hop : op.Upsets = false) (C : Connector σ) (b : Broker σ) :
    ∀ o ∈ op.errands C clock b, o.Upsets = false := by
  have hall : b.Watched fun _ => True := fun _ _ _ _ _ => trivial
  intro o ho
  rcases Op.errand_cases C clock hall (fun _ _ _ _ => trivial) ho with
    hd | ⟨_, _, rfl⟩ | ⟨_, _, rfl⟩
  · cases op with
    | halt | stop | tend => simp [Upsets] at hop
    | avoidDeadlock | retry | turn | roll | addClient | removeClient => simp [direct] at hd
    | reserve | release | releaseHandle | releaseQueue | start | nodes | deliver =>
      rw [← Option.some.inj hd]
      rfl
  · rfl
  · rfl

theorem Op.run_connector (hC : C.Keeps I) (h : I b.desk.connector) {op : Op σ}
    (hop : op.Upsets = false) : I (op.run C clock b).desk.connector := by
  rw [Op.run_desk]
  exact serve_keeps C clock (P := fun d => I d.connector)
    (fun o ho _ hd => Desk.Op.run_connector hC clock hd (Op.errands_calm clock hop C b o ho)) h

end Broker

end ClusterBroker
