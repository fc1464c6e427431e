import ClusterBroker.Proofs.Broker.Control
import ClusterBroker.Proofs.Custody.Operation

/-!
# Errands

Whatever a broker does, it does at its desk: every operation of a broker, with or without a
supervisor, runs a few operations of the desk, its errands. So what holds of every run of a desk
holds of every run of a broker. The supervisor places again what it knows, so it must know only
what can be placed at any time.
-/
namespace ClusterBroker

namespace GangControl

variable {p : Reservation → Prop} {c : GangControl}

/-- Everything that the controller knows would have `p` if it were just placed. -/
def Knows (p : Reservation → Prop) (c : GangControl) : Prop :=
  ∀ id r, c.known.get? id = some r → p r.reset

theorem reset_reset (r : Reservation) : r.reset.reset = r.reset := by
  simp [Reservation.reset, Resource.reset, Function.comp_def]

theorem keeping_knows (p : Reservation → Prop) : Keeping (fun r => p r.reset) (Knows p) := by
  have hinsert : ∀ {c c' : GangControl} {k r}, c.Knows p → p r.reset →
      c'.known = c.known.insert k r → c'.Knows p := by
    intro c c' k r h hr he id s hs
    rw [he, Table.get?_insert] at hs
    split at hs
    next =>
      rw [← Option.some.inj hs]
      exact hr
    next => exact h id s hs
  have hsame : ∀ {c c' : GangControl}, c.Knows p → c'.known = c.known → c'.Knows p := by
    intro c c' h he id r hr
    rw [he] at hr
    exact h id r hr
  constructor
  · exact fun h hr => h _ _ hr
  · intro r hr
    rwa [reset_reset]
  · exact fun h he _ => hsame h he
  · intro c c' id r h hr he _
    exact hinsert (r := { r with status := .backedOff }) h hr he
  · exact fun h hr => hinsert h hr rfl
  · exact fun h he _ => hsame h he
  · intro c c' id h he _ k r hr
    rw [he, Table.get?_erase] at hr
    split at hr
    next => simp at hr
    next => exact h k r hr

theorem Knows.wake (h : c.Knows p) (now : Time) : ∀ r ∈ (c.wake now).1, p r := by
  intro r hr
  obtain ⟨s, hs, rfl⟩ := ((keeping_knows p).wake h now).1 r hr
  exact hs

end GangControl

namespace Broker

variable {σ : Type} (C : Connector σ) (clock now : Time) {b : Broker σ} {p : Reservation → Prop}

/-! ### What the supervisor knows -/

/-- The controller, if there is one, knows only what would have `p`. -/
def Watched (p : Reservation → Prop) (b : Broker σ) : Prop :=
  ∀ c, b.control? = some c → c.Knows p

theorem Watched.avoidDeadlock (h : b.Watched p) : (b.avoidDeadlock C clock now).2.Watched p :=
  Controls.avoidDeadlock C clock now ((GangControl.keeping_knows p).stable clock) h

theorem Watched.run (h : b.Watched p) {op : Op σ} (hop : ∀ id q, op = .reserve id q →
    q.fault? = none → p (Reservation.ofRequest id q clock)) : (op.run C clock b).Watched p := by
  apply Op.run_controls C clock ((GangControl.keeping_knows p).stable clock) h
  intro id q he _ hf
  rw [(Reservation.fresh_ofRequest id clock hf).reset_eq]
  exact hop id q he hf

/-! ### Errands -/

/-- Who steps back is released. -/
def releases (now : Time) (b : Broker σ) : List (Desk.Op σ) :=
  match b.control? with
  | none => []
  | some c =>
    if now.since c.lastAllocation < c.options.noAllocationLimit then []
    else c.pickVictims.1.map fun v => .release v.2 v.1 false

/-- Who has waited long enough is placed. -/
def placements (now : Time) (b : Broker σ) : List (Desk.Op σ) :=
  match b.control? with
  | none => []
  | some c => (c.wake now).1.map .place

/-- A gang is placed, unless it is refused or has to wait. -/
def placement (c : GangControl) (id : ReservationId) (q : Request) : List (Desk.Op σ) :=
  if q.fault? = none ∧ c.known.contains id = false ∧ c.backoff.isEmpty = true then
    [.place (.ofRequest id q clock)]
  else []

/-- What an operation does at the desk, in order. -/
def Op.errands : Op σ → Broker σ → List (Desk.Op σ)
  | .reserve id q, b =>
    match b.control? with
    | some c => if q.gang then placement clock c id q else [.reserve id q]
    | none => [.reserve id q]
  | .release h id n, _ => [.release h id n]
  | .releaseHandle h n, _ => [.releaseHandle h n]
  | .releaseQueue q n, _ => [.releaseQueue q n]
  | .start, _ => [.start]
  | .nodes, _ => [.nodes]
  | .deliver cs, _ => [.deliver cs]
  | .halt order, _ => [.halt order]
  | .avoidDeadlock now, b => b.releases now
  | .retry now, b => b.placements now
  | .turn, b => b.releases clock ++ (b.avoidDeadlock C clock clock).2.placements clock
  | .roll _, _ => []
  | .addClient _, _ => []
  | .removeClient _, _ => []
  | .tend f, _ => [.tend f]
  | .stop, _ => [.stop]

/-- What an operation asks of the desk when the supervisor has no part in it. -/
def Op.direct : Op σ → Option (Desk.Op σ)
  | .reserve id q => some (.reserve id q)
  | .release h id n => some (.release h id n)
  | .releaseHandle h n => some (.releaseHandle h n)
  | .releaseQueue q n => some (.releaseQueue q n)
  | .start => some .start
  | .nodes => some .nodes
  | .deliver cs => some (.deliver cs)
  | .halt order => some (.halt order)
  | .tend f => some (.tend f)
  | .stop => some .stop
  | .avoidDeadlock _ | .retry _ | .turn | .roll _ | .addClient _ | .removeClient _ => none

/-- The supervisor releases, and it places what it knows or what a client wants placed. -/
theorem Op.errand_cases (h : b.Watched p) {op : Op σ} (hop : ∀ id q, op = .reserve id q →
    q.fault? = none → p (Reservation.ofRequest id q clock)) {o : Desk.Op σ}
    (ho : o ∈ op.errands C clock b) :
    op.direct = some o ∨ (∃ hd id, o = .release hd id false) ∨ ∃ r, p r ∧ o = .place r := by
  have hplaced : ∀ {b : Broker σ} {now}, b.Watched p → o ∈ b.placements now →
      ∃ r, p r ∧ o = .place r := by
    intro b now h ho
    unfold placements at ho
    split at ho
    next => simp at ho
    next c hc =>
      obtain ⟨r, hr, rfl⟩ := List.mem_map.1 ho
      exact ⟨r, (h c hc).wake now r hr, rfl⟩
  have hreleased : ∀ {now}, o ∈ b.releases now → ∃ hd id, o = .release hd id false := by
    intro now ho
    unfold Broker.releases at ho
    split at ho
    next => simp at ho
    next =>
      split at ho
      next => simp at ho
      next =>
        obtain ⟨v, -, rfl⟩ := List.mem_map.1 ho
        exact ⟨_, _, rfl⟩
  cases op with
  | reserve id q =>
    unfold errands placement at ho
    dsimp only at ho
    split at ho
    next =>
      split at ho
      next =>
        split at ho
        next hf => exact .inr (.inr ⟨_, hop id q rfl hf.1, List.mem_singleton.1 ho⟩)
        next => simp at ho
      next => exact .inl (congrArg some (List.mem_singleton.1 ho).symm)
    next => exact .inl (congrArg some (List.mem_singleton.1 ho).symm)
  | avoidDeadlock now => exact .inr (.inl (hreleased ho))
  | retry now => exact .inr (.inr (hplaced h ho))
  | turn =>
    rcases List.mem_append.1 ho with ho | ho
    · exact .inr (.inl (hreleased ho))
    · exact .inr (.inr (hplaced (h.avoidDeadlock C clock clock) ho))
  | roll | addClient | removeClient => simp [errands] at ho
  | release | releaseHandle | releaseQueue | start | nodes | deliver | halt | tend | stop =>
    exact .inl (congrArg some (List.mem_singleton.1 ho).symm)

/-- The desk after errands, all at one reading of the clock. -/
def serve (ops : List (Desk.Op σ)) (d : Desk σ) : Desk σ := Desk.after C (ops.map (Prod.mk clock)) d

theorem serve_append (ops ops' : List (Desk.Op σ)) (d : Desk σ) :
    serve C clock (ops ++ ops') d = serve C clock ops' (serve C clock ops d) := by
  unfold serve Desk.after
  rw [List.map_append, List.foldl_append]

/-- What each errand keeps is kept by all of them. -/
theorem serve_keeps {P : Desk σ → Prop} {ops : List (Desk.Op σ)}
    (hops : ∀ o ∈ ops, ∀ {d}, P d → P (o.run C clock d).1) {d : Desk σ} (h : P d) :
    P (serve C clock ops d) := by
  induction ops generalizing d with
  | nil => exact h
  | cons o ops ih =>
    obtain ⟨ho, hrest⟩ := List.forall_mem_cons.1 hops
    exact ih hrest (ho h)

theorem avoidDeadlock_desk (b : Broker σ) :
    (b.avoidDeadlock C clock now).2.desk = serve C clock (b.releases now) b.desk := by
  have hsteps : ∀ (vs : List (ReservationId × HandleId)) (b : Broker σ),
      (vs.foldl (stepBack C clock now) b).desk =
        serve C clock (vs.map fun v => .release v.2 v.1 false) b.desk := by
    intro vs
    induction vs with
    | nil => exact fun _ => rfl
    | cons v vs ih => exact fun b => ih (b.stepBack C clock now v)
  unfold avoidDeadlock releases
  cases b.control? with
  | none => rfl
  | some c =>
    dsimp only
    split
    next => rfl
    next => exact hsteps _ _

theorem placeAgain_desk (r : Reservation) (b : Broker σ) :
    (b.placeAgain C clock r).desk = (b.desk.place C clock r).desk := by
  unfold placeAgain
  dsimp only
  split
  next => rfl
  next => exact (forward_unseen _ _).1

theorem retry_desk (b : Broker σ) :
    (b.retry C clock now).2.desk = serve C clock (b.placements now) b.desk := by
  have hagain : ∀ (rs : List Reservation) (b : Broker σ),
      (rs.foldl (placeAgain C clock) b).desk = serve C clock (rs.map .place) b.desk := by
    intro rs
    induction rs with
    | nil => exact fun _ => rfl
    | cons r rs ih =>
      intro b
      rw [List.foldl_cons, ih, placeAgain_desk]
      rfl
  unfold retry placements
  cases b.control? with
  | none => rfl
  | some c => exact hagain _ _

theorem submitGang_desk (b : Broker σ) (r : Reservation) :
    (b.submitGang C clock r).2.desk = serve C clock [.place r] b.desk := by
  unfold submitGang
  dsimp only
  split
  next => rfl
  next => rfl

theorem reserveGang_desk (b : Broker σ) (c : GangControl) (id : ReservationId) (q : Request) :
    (b.reserveGang C clock id q c).2.desk = serve C clock (placement clock c id q) b.desk := by
  unfold reserveGang placement
  cases hf : q.fault? with
  | some f => rfl
  | none =>
    dsimp only
    split
    next hk =>
      rw [if_neg (by simp [hk])]
      rfl
    next hk =>
      split
      next he =>
        rw [if_pos (by simp [hk, he])]
        exact submitGang_desk C clock b _
      next he =>
        rw [if_neg (by simp [he])]
        rfl

theorem forgetOf_desk (hd : HandleId) (id : ReservationId) (b : Broker σ) :
    (b.forgetOf hd id).2.desk = b.desk := by
  unfold forgetOf
  cases b.supervisor with
  | none => rfl
  | some s =>
    dsimp only
    split <;> rfl

theorem forgetWhere_desk (q : Reservation → Bool) (b : Broker σ) :
    (b.forgetWhere q).2.desk = b.desk := by
  unfold forgetWhere
  cases b.supervisor <;> rfl

/-- Everything that an operation does to the desk is done by its errands. -/
theorem Op.run_desk (op : Op σ) (b : Broker σ) :
    (op.run C clock b).desk = serve C clock (op.errands C clock b) b.desk := by
  cases op with
  | reserve id q =>
    unfold run Broker.reserve errands
    dsimp only
    cases b.control? with
    | none => rfl
    | some c =>
      dsimp only
      split
      next => exact reserveGang_desk C clock b c id q
      next => rfl
  | release hd id n =>
    change ((b.forgetOf hd id).2.desk.release C clock hd id n).2 = _
    rw [forgetOf_desk]
    rfl
  | releaseHandle hd n =>
    change ((b.forgetWhere fun r => r.handle = hd).2.desk.releaseHandle C clock hd n).2 = _
    rw [forgetWhere_desk]
    rfl
  | releaseQueue q n =>
    change ((b.forgetWhere fun r => r.queue = q).2.desk.releaseQueue C clock q n).2 = _
    rw [forgetWhere_desk]
    rfl
  | avoidDeadlock now => exact avoidDeadlock_desk C clock now b
  | retry now => exact retry_desk C clock now b
  | turn =>
    unfold run errands supervisionTurn
    rw [serve_append, ← avoidDeadlock_desk]
    exact retry_desk C clock clock _
  | addClient x =>
    unfold run Broker.addClient
    dsimp only
    cases b.supervisor <;> rfl
  | removeClient i =>
    unfold run Broker.removeClient
    dsimp only
    cases b.supervisor <;> rfl
  | start | nodes | deliver | halt | roll | tend | stop => rfl

end Broker

end ClusterBroker
