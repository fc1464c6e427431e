import ClusterBroker.Proofs.Broker.Keeping
import ClusterBroker.Proofs.Broker.Steady
import ClusterBroker.Proofs.Desk.Admission

/-!
# All or nothing

A request is taken exactly if it is well-formed, its id and its resources are free, the registry
runs and the connector takes it. A refused one leaves nothing behind, neither at the registry nor,
if it is a gang, with the controller. So it is for a gang under supervision while no other one
waits, since what the controller knows then is tracked.
-/
namespace ClusterBroker

theorem Desk.blocks_of_not_takes {σ : Type} {id : ReservationId} {q : Request} {d : Desk σ}
    (hf : q.fault? = none) (h : ¬ d.Takes id q) : d.Blocks id q := by
  obtain ⟨hne, hd, hz⟩ := Request.fault?_eq_none_iff.1 hf
  by_contra hn
  rw [Desk.Blocks, not_or, not_or] at hn
  obtain ⟨hid, hplaced, hrun⟩ := hn
  refine h ⟨hne, hd, fun a ha => ?_, by simpa using hrun, by simpa using hid, fun a ha => ?_⟩
  · simpa [or_iff_not_imp_left] using hz a ha
  · by_contra hx
    exact hplaced ⟨a, ha, hx⟩

namespace Broker

open GangControl (Filed Struck)

variable {σ : Type} (C : Connector σ) (clock : Time) {b : Broker σ} {c : GangControl}
  {id : ReservationId} {q : Request}

/-- How a gang fares at the broker `b` with the controller `c`: it is answered, and the broker is
`b'`. -/
structure GangFares (id : ReservationId) (q : Request) (c : GangControl) (b : Broker σ)
    (answer : Except BrokerFault Reservation) (b' : Broker σ) : Prop where
  fares : Desk.Fares C clock id q b.desk answer b'.desk
  /-- It is known and counts as submitted; whatever is settled meanwhile is struck out. -/
  submitted : answer.isOk = true → ∃ c', b'.control? = some c' ∧
    Struck (settledIn (eventsOf (b.desk.reserve C clock id q).sent))
      (c.submit (.ofRequest id q clock)) c'
  /-- The books of the controller are as before, and no client hears anything. -/
  restored : answer.isOk = false → ¬ b.desk.Takes id q ∨ b.desk.meanwhile C clock id q = [] →
    b' = { b with desk := b'.desk }

/-- What the controller knows the registry does not take either. -/
theorem not_takes_of_known (hb : b.desk.Closed ∨ ∃ s, Steady b s [] [])
    (hc : b.control? = some c) (he : c.backoff.isEmpty = true)
    (hk : c.known.contains id = true) : ¬ b.desk.Takes id q := by
  intro ht
  rcases hb with hb | ⟨s, hb⟩
  · have hrun := ht.running
    rw [hb.stopped] at hrun
    simp at hrun
  · obtain ⟨r, hr⟩ := Table.contains_iff.1 hk
    rw [hb.manned.control?] at hc
    obtain rfl := Option.some.inj hc
    obtain ⟨t, ht'⟩ := hb.backed.tracked he hr
    rw [ht.untracked] at ht'
    simp at ht'

theorem reserve_gang (hc : b.control? = some c) (hg : q.gang = true) :
    b.reserve C clock id q = b.reserveGang C clock id q c := by
  unfold reserve
  rw [hc]
  dsimp only
  rw [if_pos hg]

theorem reserve_gang_refused (hfiled : b.Controls Filed) (hc : b.control? = some c)
    (hg : q.gang = true) (he : c.backoff.isEmpty = true) (h : ¬ b.desk.Takes id q) :
    ∃ f, b.reserve C clock id q = (.error f, b) := by
  rw [reserve_gang C clock hc hg]
  cases hf : q.fault? with
  | some f =>
    unfold reserveGang
    rw [hf]
    exact ⟨_, rfl⟩
  | none =>
    obtain ⟨f, -, hr⟩ := reserveGang_refused C clock hfiled hc
      (.inr ⟨he, Desk.blocks_of_not_takes hf h⟩)
    exact ⟨f, hr⟩

/-- A gang that the controller does not know goes to the desk, and is struck out if it comes
back. -/
theorem reserve_gang_submits (hc : b.control? = some c) (hg : q.gang = true)
    (he : c.backoff.isEmpty = true) (hk : c.known.contains id = false) (hf : q.fault? = none) :
    let o := b.desk.reserve C clock id q
    let b' := (b.modifyControl (GangControl.submit (.ofRequest id q clock))).follow clock o.sent
      o.desk
    b.reserve C clock id q =
      (o.answer, if o.answer.isOk then b' else b'.modifyControl fun c => (c.forget id).2) := by
  have hplace : b.desk.reserve C clock id q = b.desk.place C clock (.ofRequest id q clock) := by
    unfold Desk.reserve
    rw [hf]
  rw [reserve_gang C clock hc hg, hplace]
  unfold reserveGang
  rw [hf]
  dsimp only
  rw [if_neg (by simp [hk]), if_pos he]
  unfold submitGang place
  dsimp only
  rw [show (b.modifyControl (GangControl.submit (.ofRequest id q clock))).desk = b.desk from rfl]
  cases (b.desk.place C clock (.ofRequest id q clock)).answer <;> rfl

/-- If nothing is heard meanwhile, striking out what was submitted leaves no trace. -/
theorem follow_withdrawn (hfiled : b.Controls Filed) (hc : b.control? = some c) {r : Reservation}
    (hk : c.known.get? r.id = none) (hs : r.status ≠ .backedOff) (d : Desk σ) :
    ((b.modifyControl (GangControl.submit r)).follow clock [] d).modifyControl
      (fun c => (c.forget r.id).2) = { b with desk := d } := by
  have hself : ({ b with desk := d } : Broker σ).modifyControl
      (fun c => ((c.submit r).forget r.id).2) = { b with desk := d } := by
    refine modifyControl_eq_self fun c' hc' => ?_
    obtain rfl := Option.some.inj (hc.symm.trans hc')
    exact GangControl.forget_submit (hfiled c hc) hk hs
  exact (modifyControl_modifyControl (b := { b with desk := d }) (GangControl.submit r)
    fun c => (c.forget r.id).2).trans hself

theorem reserve_gang_fares (hfiled : b.Controls Filed)
    (hb : b.desk.Closed ∨ ∃ s, Steady b s [] []) (hsound : b.desk.ledger.Sound)
    (hc : b.control? = some c) (hg : q.gang = true) (he : c.backoff.isEmpty = true) :
    GangFares C clock id q c b (b.reserve C clock id q).1 (b.reserve C clock id q).2 := by
  by_cases ht : b.desk.Takes id q
  case neg =>
    obtain ⟨f, hr⟩ := reserve_gang_refused C clock hfiled hc hg he ht
    rw [hr]
    exact ⟨Desk.fares_of_not_takes C clock ht f, nofun, fun _ _ => rfl⟩
  case pos =>
    obtain ⟨hf, hrun, -⟩ := (Desk.takes_iff clock).1 ht
    have hk : c.known.contains id = false := by
      rw [Bool.eq_false_iff]
      exact fun hk => not_takes_of_known hb hc he hk ht
    have hid : c.known.get? id = none := Table.contains_eq_false.1 hk
    have hfares : Desk.Fares C clock id q b.desk (b.desk.reserve C clock id q).answer
        (b.desk.reserve C clock id q).desk := Desk.reserve_fares C clock hsound
    rw [reserve_gang_submits C clock hc hg he hk hf]
    dsimp only
    cases hok : (b.desk.reserve C clock id q).answer.isOk with
    | true =>
      rw [if_pos rfl]
      refine ⟨hfares, fun _ => ?_, fun hno => absurd (hok.symm.trans hno) (by simp)⟩
      obtain ⟨s, hs⟩ := hb.resolve_left fun hd => by simp [hd.stopped] at hrun
      obtain rfl := Option.some.inj (hs.manned.control?.symm.trans hc)
      have hneat := (hs.backed.submit (Reservation.fresh_ofRequest id clock hf) hid).neat
      obtain ⟨s', hh, hstruck⟩ := follow_hears (hs.manned.modifyControl _) hneat.tidy clock
        (b.desk.reserve C clock id q).sent (b.desk.reserve C clock id q).desk
      exact ⟨s'.control, hh.manned.control?, hstruck⟩
    | false =>
      rw [if_neg Bool.false_ne_true]
      refine ⟨hfares, fun hyes => absurd (hok.symm.trans hyes) (by simp), fun _ hquiet => ?_⟩
      rw [Desk.reserve_sent C clock hquiet]
      exact follow_withdrawn clock hfiled hc (r := .ofRequest id q clock) hid
        (by simp [Reservation.ofRequest]) _

/-- After any run of a registry, and after any run under supervision while nothing waits: a request
succeeds exactly if it should, and otherwise leaves everything as it was. -/
theorem reserve_all_or_nothing (queue : QueueName) (s : σ) (id : ReservationId) (q : Request) :
    (∀ run : List (Time × Desk.Op σ), (∀ e ∈ run, e.2.Proper) →
      let d := Desk.after C run (Desk.opened queue s)
      let o := d.reserve C clock id q
      Desk.Fares C clock id q d o.answer o.desk ∧
        (¬ d.Takes id q ∨ d.meanwhile C clock id q = [] → o.sent = [])) ∧
    ∀ (options : DeadlockOptions) (opened : Time) (run : List (Time × Op σ)) (c : GangControl),
      let b := after C run (supervised opened options queue s)
      b.control? = some c → q.gang = true → c.backoff.isEmpty = true →
        GangFares C clock id q c b (b.reserve C clock id q).1 (b.reserve C clock id q).2 := by
  refine ⟨fun run hrun => ⟨?_, Desk.reserve_sent C clock⟩, fun options opened run c hc hg he => ?_⟩
  · exact Desk.reserve_fares C clock (Desk.after_sound C hrun (Desk.sound_opened queue s))
  · have hsteady := after_steady C run (supervised_watched opened _ options queue s)
      (.inr ⟨_, supervised_steady opened options queue s⟩)
    exact reserve_gang_fares C clock (after_filed C opened options queue s run) hsteady
      (after_sound opened C options queue s run) hc hg he

/-- A request that is taken, and a gang under supervision that the connector does not take. -/
theorem reserve_all_or_nothing_undone :
    let request := fun n : Nat => fun h : n < idRange =>
      (⟨⟨3, by decide⟩, ⟨"queue"⟩, true, [⟨⟨n, h⟩, ⟨"node"⟩, .dontCare, 1, 512⟩]⟩ : Request)
    let d := Desk.after ScriptedManager.connector [(.ofMillis 1, .start),
      (.ofMillis 2, .reserve ⟨7, by decide⟩ (request 1 (by decide)))] (Desk.opened ⟨"queue"⟩ {})
    let b := after ScriptedManager.connector [(.ofMillis 1, .start),
      (.ofMillis 2, .reserve ⟨7, by decide⟩ (request 1 (by decide))),
      (.ofMillis 3, .tend fun m => { m with failReserve := true })]
      (supervised (.ofMillis 0) {} ⟨"queue"⟩ {})
    let placed := d.reserve ScriptedManager.connector (.ofMillis 4) ⟨8, by decide⟩
      (request 2 (by decide))
    let refused := b.reserve ScriptedManager.connector (.ofMillis 4) ⟨8, by decide⟩
      (request 2 (by decide))
    (placed.answer.isOk = true ∧ placed.sent = [] ∧ placed.desk.ledger =
        d.ledger.add (.ofRequest ⟨8, by decide⟩ (request 2 (by decide)) (.ofMillis 4))) ∧
      refused.1.isOk = false ∧ refused.2.desk.ledger = b.desk.ledger ∧
        refused.2 = { b with desk := refused.2.desk } := by
  intro request d b placed refused
  have h := reserve_all_or_nothing ScriptedManager.connector (.ofMillis 4) ⟨"queue"⟩ {}
    ⟨8, by decide⟩ (request 2 (by decide))
  have hrun : ∀ e ∈ ([(.ofMillis 1, .start), (.ofMillis 2, .reserve ⟨7, by decide⟩
      (request 1 (by decide)))] : List (Time × Desk.Op ScriptedManager)), e.2.Proper := by
    simp [Desk.Op.Proper]
  obtain ⟨hplaced, hsent⟩ := h.1 _ hrun
  obtain ⟨c, hc⟩ : ∃ c, b.control? = some c := ⟨_, rfl⟩
  have hempty : (b.control?.map fun c => c.backoff.isEmpty) = some true := by decide +kernel
  rw [hc, Option.map_some] at hempty
  have hrefused := h.2 {} (.ofMillis 0) _ c hc rfl (Option.some.inj hempty)
  have hok : placed.answer.isOk = true := by decide +kernel
  have hno : refused.1.isOk = false := by decide +kernel
  exact ⟨⟨hok, hsent (.inr rfl), hplaced.added hok⟩, hno, hrefused.fares.restored hno rfl,
    hrefused.restored hno (.inr rfl)⟩

/-- The connector reports on the first request while it takes the second one. -/
theorem reserve_alters_another :
    let request := fun n : Nat => fun h : n < idRange =>
      (⟨⟨3, by decide⟩, ⟨"queue"⟩, false, [⟨⟨n, h⟩, ⟨"node"⟩, .dontCare, 1, 512⟩]⟩ : Request)
    let d := Desk.after ScriptedManager.connector [(.ofMillis 1, .start),
      (.ofMillis 2, .reserve ⟨7, by decide⟩ (request 1 (by decide))),
      (.ofMillis 3, .tend fun m => { m with
        batches := [[.allocated ⟨1, by decide⟩ ⟨1, 512, ⟨"node"⟩, ⟨"held"⟩⟩]] })]
      (Desk.opened ⟨"queue"⟩ {})
    let o := d.reserve ScriptedManager.connector (.ofMillis 4) ⟨8, by decide⟩
      (request 2 (by decide))
    o.answer.isOk = true ∧ d.ledger.get? ⟨7, by decide⟩ ≠ none ∧
      o.desk.ledger.get? ⟨7, by decide⟩ ≠ d.ledger.get? ⟨7, by decide⟩ := by
  decide +kernel

end Broker

end ClusterBroker
