import ClusterBroker.Proofs.Broker.Run
import ClusterBroker.Proofs.Desk.Calls
import ClusterBroker.Proofs.GangControl.Notes
import ClusterBroker.Proofs.GangControl.Queue
import ClusterBroker.ScriptedManager

/-!
# Releasing many at once

What a client names by its handle or its queue may be tracked by the registry, known to the
controller, or both. As long as the two agree every reservation that is named is answered once and
is gone from both sides, whatever the connector says, and nothing else is touched: neither
reservations nor index entries nor timers.
-/
namespace ClusterBroker

namespace Broker

variable {σ : Type} {b : Broker σ} {s : Supervisor} {id : ReservationId} {r : Reservation}

/-! ### One view of both sides -/

/-- What the registry tracks is what the broker has under its id. -/
theorem At.get?_tracked (h : At b s [] []) (hr : b.registry.get? id = some r) :
    b.get? id = some r := by
  unfold get?
  rw [h.manned.control?, Option.bind_some]
  have hnone : s.control.backedOff? id = none := by
    unfold GangControl.backedOff?
    rw [Option.filter_eq_none_iff]
    intro t ht hb
    have hw := (h.agrees.backedOff_iff ht).1 (of_decide_eq_true hb)
    simp only [List.map_nil, List.not_mem_nil, or_false] at hw
    have hn : b.registry.get? id = none := (h.agrees.waiting_away id hw).1
    rw [hn] at hr
    simp at hr
  rw [hnone, hr]
  rfl

/-- What waits is what the broker has under its id. -/
theorem At.get?_waiting (h : At b s [] []) (hr : s.control.known.get? id = some r)
    (hw : id ∈ s.control.waiting) : b.get? id = some r := by
  have hb : r.status = .backedOff := (h.agrees.backedOff_iff hr).2 (.inl hw)
  unfold get?
  rw [h.manned.control?, Option.bind_some]
  unfold GangControl.backedOff?
  rw [hr, Option.filter_some, if_pos (decide_eq_true hb)]
  rfl

theorem At.get?_cases (h : At b s [] []) (hr : b.get? id = some r) :
    b.registry.get? id = some r ∨ s.control.known.get? id = some r ∧ id ∈ s.control.waiting := by
  unfold get? at hr
  rw [h.manned.control?, Option.bind_some] at hr
  cases hb : s.control.backedOff? id with
  | none =>
    rw [hb] at hr
    exact .inl hr
  | some t =>
    rw [hb] at hr
    obtain rfl : t = r := Option.some.inj hr
    obtain ⟨hk, hs⟩ := Option.filter_eq_some_iff.1 hb
    have hw := (h.agrees.backedOff_iff hk).1 (of_decide_eq_true hs)
    exact .inr ⟨hk, hw.resolve_right List.not_mem_nil⟩

/-- What is known and does not wait is tracked too. -/
theorem At.tracked (h : At b s [] []) (hr : s.control.known.get? id = some r)
    (hw : id ∉ s.control.waiting) : ∃ t, b.registry.get? id = some t ∧ t.claim = r.claim := by
  have hk : (s.control.known.get? id).isSome = true := by rw [hr]; rfl
  have hsub := ((h.agrees.known_iff id).1 hk).resolve_right fun hn =>
    hn.elim hw List.not_mem_nil
  obtain ⟨ho, -⟩ := ((h.agrees.submitted_iff id).1 hsub).resolve_left List.not_mem_nil
  obtain ⟨t, ht, -⟩ := Ledger.openGang_iff.1 ho
  exact ⟨t, ht, h.agrees.claim_eq hr ht⟩

section Named

variable {p : Reservation → Bool} (hp : ∀ r t : Reservation, r.claim = t.claim → p r = p t)

/-- What is asked about a claim has one answer, whichever side is asked. -/
theorem At.any_of_tracked (h : At b s [] []) (hr : b.registry.get? id = some r) :
    (b.get? id).any p = p r := by
  rw [h.get?_tracked hr]
  rfl

include hp in
theorem At.any_of_known (h : At b s [] []) (hr : s.control.known.get? id = some r) :
    (b.get? id).any p = p r := by
  by_cases hw : id ∈ s.control.waiting
  · rw [h.get?_waiting hr hw]
    rfl
  · obtain ⟨t, ht, hc⟩ := h.tracked hr hw
    rw [h.any_of_tracked ht, hp t r hc]

end Named

/-! ### What a release does -/

/-- The reservations that the registry tracks and that `p` names. -/
def trackedWhere (p : Reservation → Bool) (b : Broker σ) : List Reservation :=
  b.registry.ledger.reservations.values.filter p

/-- A broker `b` with the controller `c` gives back what `p` names, answers, and becomes `b'` with
the controller `c'`. -/
structure ReleasesAll (p : Reservation → Bool) (noCache : Bool)
    (b : Broker (ClusterBroker.Recorded σ)) (c : GangControl)
    (answer : Except BrokerFault (List Reservation)) (b' : Broker (ClusterBroker.Recorded σ))
    (c' : GangControl) : Prop where
  /-- There is one call, with all that was tracked, or none if nothing was. -/
  calls : b.trackedWhere p = [] ∧ b'.desk.connector.calls = b.desk.connector.calls ∧
      answer.isOk = true ∨
    b.trackedWhere p ≠ [] ∧ ∃ a, b'.desk.connector.calls = b.desk.connector.calls ++
        [.release ((b.trackedWhere p).flatMap Reservation.resources) noCache a] ∧
      answer.isOk = a.isOk
  /-- Each is answered once, whichever side it was on. -/
  answered : ∀ rs, answer = .ok rs → (rs.map Reservation.id).Nodup ∧
    ∀ r, r ∈ rs ↔ ∃ w, b.get? w.id = some w ∧ p w = true ∧ r = w.ended
  get?_eq : ∀ id, b'.get? id = if (b.get? id).any p then none else b.get? id
  tracked : ∀ id, b'.registry.get? id = if (b.get? id).any p then none else b.registry.get? id
  known : ∀ id, c'.known.get? id = if (b.get? id).any p then none else c.known.get? id
  submitted : ∀ id, c'.submitted.get? id = if (b.get? id).any p then none else c.submitted.get? id
  index : ∀ x, b'.registry.ledger.index.get? x =
    (b.registry.ledger.index.get? x).filter fun id => !(b.get? id).any p
  timers : c'.backoff.timers = c.backoff.timers.filter fun t => !(b.get? t.payload).any p
  quiet : c.Quiet c'
  told_eq : b'.told = b.told

theorem mem_merge {released forgotten : List Reservation} : r ∈ merge released forgotten ↔
    r ∈ released ∨ ∃ w ∈ forgotten, w.id ∉ released.map Reservation.id ∧ r = w.ended := by
  unfold merge
  rw [List.mem_append, List.mem_map]
  refine or_congr_right (exists_congr fun w => ?_)
  rw [List.mem_filter, and_assoc, eq_comm (a := r), Bool.not_eq_true', List.contains_eq_mem,
    decide_eq_false_iff_not]

theorem merge_ids_nodup {released forgotten : List Reservation}
    (hr : (released.map Reservation.id).Nodup) (hf : (forgotten.map Reservation.id).Nodup) :
    ((merge released forgotten).map Reservation.id).Nodup := by
  unfold merge
  rw [List.map_append, List.map_map]
  refine List.nodup_append.2 ⟨hr, hf.sublist (List.filter_sublist.map _), ?_⟩
  rintro id hid _ hid' rfl
  obtain ⟨w, hw, rfl⟩ := List.mem_map.1 hid'
  have hid : w.id ∈ released.map Reservation.id := hid
  have hn := (List.mem_filter.1 hw).2
  rw [List.contains_iff_mem.2 hid] at hn
  simp at hn

/-- What the controller knows comes on top only if the registry does not have it. -/
theorem At.mem_merged (h : At b s [] []) {p : Reservation → Bool}
    (hp : ∀ r t : Reservation, r.claim = t.claim → p r = p t) :
    r ∈ merge (b.desk.ledger.removeWhere p).1 (s.control.forgetWhere p).1 ↔
      ∃ w, b.get? w.id = some w ∧ p w = true ∧ r = w.ended := by
  have hsound := h.agrees.sound
  have hforgotten : ∀ w, w ∈ (s.control.forgetWhere p).1 ↔
      s.control.known.get? w.id = some w ∧ p w = true :=
    fun w => h.agrees.tidy.mem_forgetWhere h.agrees.known_id
  rw [mem_merge, Ledger.mem_removeWhere hsound]
  constructor
  · rintro (⟨w, ht, hpw, rfl⟩ | ⟨w, hw, hn, rfl⟩)
    · exact ⟨w, h.get?_tracked ht, hpw, rfl⟩
    · obtain ⟨hk, hpw⟩ := (hforgotten w).1 hw
      by_cases hwait : w.id ∈ s.control.waiting
      · exact ⟨w, h.get?_waiting hk hwait, hpw, rfl⟩
      · obtain ⟨t, ht, hc⟩ := h.tracked hk hwait
        have ht : b.desk.ledger.get? w.id = some t := ht
        refine absurd ((Ledger.mem_removeWhere_ids hsound).2 ?_) hn
        rw [ht]
        exact (hp t w hc).trans hpw
  · rintro ⟨w, hw, hpw, rfl⟩
    rcases h.get?_cases hw with ht | ⟨hk, hwait⟩
    · exact .inl ⟨w, ht, hpw, rfl⟩
    · refine .inr ⟨w, (hforgotten w).2 ⟨hk, hpw⟩, ?_, rfl⟩
      rw [Ledger.mem_removeWhere_ids hsound, (h.agrees.waiting_away w.id hwait).1]
      simp

/-- What becomes of the books and the ledger, seen from the broker. -/
structure Severs (p : Reservation → Bool) (b : Broker σ) (c : GangControl) (l' : Ledger)
    (c' : GangControl) : Prop where
  tracked : ∀ id, l'.get? id = if (b.get? id).any p then none else b.registry.get? id
  known : ∀ id, c'.known.get? id = if (b.get? id).any p then none else c.known.get? id
  submitted : ∀ id, c'.submitted.get? id = if (b.get? id).any p then none else c.submitted.get? id
  timers : c'.backoff.timers = c.backoff.timers.filter fun t => !(b.get? t.payload).any p

theorem ite_none_congr {α : Type} {o : Option α} {p q : Prop} [Decidable p] [Decidable q]
    (h : ∀ a, o = some a → (p ↔ q)) : (if p then none else o) = if q then none else o := by
  cases o with
  | none => rw [ite_self, ite_self]
  | some a => exact if_congr (h a rfl) rfl rfl

theorem At.severs (h : At b s [] []) {p : Reservation → Bool}
    (hp : ∀ r t : Reservation, r.claim = t.claim → p r = p t) {l' : Ledger}
    (hl : ∀ id, l'.get? id = if (b.registry.get? id).any p then none else b.registry.get? id) :
    Severs p b s.control l' (s.control.forgetWhere p).2 := by
  obtain ⟨ids, hs, hids⟩ := GangControl.forgetWhere_struck h.agrees.tidy h.agrees.known_id p
  have hnamed : ∀ {id r}, s.control.known.get? id = some r →
      (id ∈ ids ↔ (b.get? id).any p = true) := by
    intro id r hr
    rw [hids, hr, h.any_of_known hp hr]
    rfl
  refine ⟨fun id => ?_, fun id => ?_, fun id => ?_, ?_⟩
  · refine (hl id).trans (ite_none_congr fun t ht => ?_)
    rw [h.any_of_tracked ht, ht]
    rfl
  · exact (hs.known id).trans (ite_none_congr fun r hr => hnamed hr)
  · refine (hs.submitted id).trans (ite_none_congr fun _ hsub => ?_)
    obtain ⟨r, hr⟩ := Option.isSome_iff_exists.1
      ((h.agrees.known_iff id).2 (.inl (by rw [hsub]; rfl)))
    exact hnamed hr
  · have hfilter : (s.control.forgetWhere p).2.backoff.timers = s.control.backoff.timers.filter
        fun t => t.payload ∉ (s.control.known.values.filter p).map Reservation.id :=
      congrArg DelayQueue.timers (h.agrees.tidy.forgetAll_backoff _)
    refine hfilter.trans (List.filter_congr fun t ht => ?_)
    obtain ⟨r, hr, -⟩ := h.agrees.tidy t.payload (List.mem_map_of_mem ht)
    have hmem := GangControl.mem_known_where h.agrees.known_id (p := p) (k := t.payload)
    rw [hr, Option.any_some] at hmem
    rw [h.any_of_known hp hr]
    cases hpr : p r <;> simp [hmem, hpr]

/-- On both sides exactly what `p` names is gone, and of the index and the queue what belonged to
it. -/
theorem At.releasesAll (C : Connector σ) (clock : Time)
    {b : Broker (ClusterBroker.Recorded σ)} (h : At b s [] []) {p : Reservation → Bool}
    (hp : ∀ r t : Reservation, r.claim = t.claim → p r = p t) (noCache : Bool) :
    let out := b.desk.releaseWhere C.recorded clock p noCache
    let c' := (s.control.forgetWhere p).2
    ReleasesAll p noCache b s.control (out.1.map (merge · (s.control.forgetWhere p).1))
      { b with desk := out.2, supervisor := some { s with control := c' } } c' := by
  intro out c'
  have hcalls := Desk.releaseWhere_calls C clock h.agrees.sound p noCache
  obtain ⟨hsound, hget⟩ := Desk.releaseWhere_ledger C.recorded clock h.agrees.sound p noCache
  obtain ⟨ht, hk, hs, htimers⟩ := h.severs hp hget
  have hold : ∀ id, b.get? id = (((s.control.known.get? id).filter fun r => r.status = .backedOff)
      <|> b.registry.get? id) := by
    intro id
    unfold get?
    rw [h.manned.control?]
    rfl
  refine ⟨?_, fun rs hrs => ?_, fun id => ?_, ht, hk, hs, fun x => ?_, htimers,
    GangControl.forgetAll_quiet _ _, rfl⟩
  · rcases hcalls with ⟨hnone, hcalls, hanswer⟩ | ⟨hsome, a, hcalls, hanswer⟩
    · refine .inl ⟨hnone, hcalls, ?_⟩
      rw [show out.1 = _ from hanswer]
      rfl
    · refine .inr ⟨hsome, a, hcalls, ?_⟩
      rw [show out.1 = _ from hanswer]
      cases a <;> rfl
  · have hrs : merge (b.desk.ledger.removeWhere p).1 (s.control.forgetWhere p).1 = rs := by
      rcases hcalls with ⟨-, -, hanswer⟩ | ⟨-, a, -, hanswer⟩
      · rw [show out.1 = _ from hanswer] at hrs
        exact Except.ok.inj hrs
      · rw [show out.1 = _ from hanswer] at hrs
        cases a with
        | error f => exact nomatch hrs
        | ok u => exact Except.ok.inj hrs
    rw [← hrs]
    refine ⟨merge_ids_nodup (Ledger.removeWhere_ids_nodup h.agrees.sound p)
      (h.agrees.tidy.forgetWhere_ids_nodup h.agrees.known_id p), fun r => h.mem_merged hp⟩
  · change (((c'.known.get? id).filter fun r => r.status = .backedOff) <|> out.2.ledger.get? id) = _
    rw [hk, show out.2.ledger.get? id = _ from ht id, hold]
    split
    · rfl
    · rfl
  · refine Option.ext fun id => ?_
    rw [Option.filter_eq_some_iff]
    refine hsound.index_iff.trans ?_
    have hindex : b.registry.ledger.index.get? x = some id ↔
      ∃ r, b.registry.get? id = some r ∧ x ∈ r.resourceIds := h.agrees.sound.index_iff
    rw [hindex, ht]
    by_cases hn : (b.get? id).any p = true <;> simp [hn]

/-- As long as the controller and the registry agree, both kinds of bulk release are complete and
touch nothing else, whatever the connector answers. They agree after any run that leaves the gangs
divided between them (`Resting.at`). -/
theorem bulk_release_complete (C : Connector σ) (clock : Time)
    {b : Broker (ClusterBroker.Recorded σ)} (h : At b s [] []) (noCache : Bool) :
    (∀ hd, let out := b.releaseHandle C.recorded clock hd noCache
      ∃ c', out.2.control? = some c' ∧
        ReleasesAll (fun r => r.handle = hd) noCache b s.control out.1 out.2 c') ∧
    ∀ q, let out := b.releaseQueue C.recorded clock q noCache
      ∃ c', out.2.control? = some c' ∧
        ReleasesAll (fun r => r.queue = q) noCache b s.control out.1 out.2 c' := by
  have hforget : ∀ p, b.forgetWhere p = ((s.control.forgetWhere p).1,
      { b with supervisor := some { s with control := (s.control.forgetWhere p).2 } }) := by
    intro p
    unfold forgetWhere
    rw [h.manned.supervisor]
  constructor
  · intro hd
    unfold releaseHandle Desk.releaseHandle
    dsimp only
    rw [hforget]
    exact ⟨_, rfl, h.releasesAll C clock (p := fun r => r.handle = hd)
      (fun r t hc => by rw [(Reservation.claim_eq_iff.1 hc).2.1]) noCache⟩
  · intro q
    unfold releaseQueue Desk.releaseQueue
    dsimp only
    rw [hforget]
    exact ⟨_, rfl, h.releasesAll C clock (p := fun r => r.queue = q)
      (fun r t hc => by rw [(Reservation.claim_eq_iff.1 hc).2.2.1]) noCache⟩

/-- Of a handle a gang that waits, one that was placed and a plain reservation are released; another
handle keeps its own. -/
theorem bulk_release_complete_handle :
    let o : DeadlockOptions := { backoffPercent := 50 }
    let request := fun (h : HandleId) (gang : Bool) (k : ResourceId) =>
      (⟨h, ⟨"queue"⟩, gang, [⟨k, ⟨"node"⟩, .dontCare, 1, 512⟩]⟩ : Request)
    let run : List (Time × Op (ClusterBroker.Recorded ScriptedManager)) := [
      (.ofMillis 0, .start),
      (.ofMillis 1, .reserve ⟨7, by decide⟩ (request ⟨3, by decide⟩ true ⟨1, by decide⟩)),
      (.ofMillis 2, .reserve ⟨8, by decide⟩ (request ⟨3, by decide⟩ true ⟨2, by decide⟩)),
      (.ofMillis 3, .reserve ⟨9, by decide⟩ (request ⟨3, by decide⟩ false ⟨4, by decide⟩)),
      (.ofMillis 4, .reserve ⟨10, by decide⟩ (request ⟨5, by decide⟩ false ⟨6, by decide⟩)),
      (.ofMillis 40000, .avoidDeadlock (.ofMillis 40000))]
    let b := after ScriptedManager.connector.recorded run
      (supervised (.ofMillis 0) o ⟨"queue"⟩ ⟨{}, []⟩)
    let out := b.releaseHandle ScriptedManager.connector.recorded (.ofMillis 41000)
      ⟨3, by decide⟩ false
    ∃ s c', At b s [] [] ∧ out.2.control? = some c' ∧
      ReleasesAll (fun r => r.handle = ⟨3, by decide⟩) false b s.control out.1 out.2 c' ∧
      (out.1.toOption.map fun rs => rs.map fun r => (r.id, r.status)) =
        some [(⟨8, by decide⟩, .ended), (⟨9, by decide⟩, .ended), (⟨7, by decide⟩, .ended)] ∧
      s.control.backoff.size = 1 ∧ c'.backoff.size = 0 ∧
      out.2.get? ⟨10, by decide⟩ = b.get? ⟨10, by decide⟩ := by
  intro o request run b out
  have hrun : Admitted ScriptedManager.connector.recorded run
      (supervised (.ofMillis 0) o ⟨"queue"⟩ ⟨{}, []⟩) := by
    refine ⟨trivial, ?_, ?_, ?_, ?_, trivial, trivial⟩
    all_goals
      change get? _ _ = none
      decide +kernel
  obtain ⟨s, h⟩ := after_at _ (supervised_at (.ofMillis 0) o ⟨"queue"⟩
    (⟨{}, []⟩ : ClusterBroker.Recorded ScriptedManager)) hrun
  obtain ⟨c', hc', hall⟩ := (bulk_release_complete ScriptedManager.connector (.ofMillis 41000)
    h false).1 ⟨3, by decide⟩
  have hbefore : (b.control?.map fun c => c.backoff.size) = some 1 := by decide +kernel
  have hafter : (out.2.control?.map fun c => c.backoff.size) = some 0 := by decide +kernel
  rw [show b.control? = _ from h.manned.control?] at hbefore
  rw [show out.2.control? = _ from hc'] at hafter
  refine ⟨s, c', h, hc', hall, by decide +kernel,
    Option.some.inj hbefore, Option.some.inj hafter, ?_⟩
  have hother : (b.get? ⟨10, by decide⟩).any (fun r => r.handle = ⟨3, by decide⟩) = false := by
    decide +kernel
  refine (hall.get?_eq _).trans ?_
  rw [hother]
  rfl

end Broker

end ClusterBroker
