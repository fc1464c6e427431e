import ClusterBroker.Proofs.Broker.Run
import ClusterBroker.ScriptedManager

/-!
# The division of gangs

After every admitted run the controller's gangs fall into submitted and waiting ones: the
submitted ones are those that the registry tracks and that still wait for allocations, and of the
waiting ones the registry has nothing. So the sizes add up, and neither a second chance nor a round
ever comes upon a gang that the controller does not know.
-/
namespace ClusterBroker.Broker

variable {σ : Type} (C : Connector σ) (clock : Time) {b : Broker σ} {s : Supervisor}

theorem openGang_iff_status {l : Ledger} {id : ReservationId} : l.openGang id = true ↔
    ∃ r, l.get? id = some r ∧ r.gang = true ∧ (r.status = .pending ∨ r.status = .partly) := by
  rw [Ledger.openGang_iff]
  simp [Reservation.isOpen]

theorem At.submitted_iff (h : At b s [] []) (id : ReservationId) :
    (s.control.submitted.get? id).isSome = true ↔ ∃ r, b.registry.get? id = some r ∧
      r.gang = true ∧ (r.status = .pending ∨ r.status = .partly) := by
  have hs := h.agrees.submitted_iff id
  simp only [List.map_nil, List.not_mem_nil, false_or, not_false_eq_true, and_true] at hs
  rw [hs, openGang_iff_status]
  rfl

theorem At.known_iff (h : At b s [] []) (id : ReservationId) :
    (s.control.known.get? id).isSome = true ↔
      (s.control.submitted.get? id).isSome = true ∨ id ∈ s.control.waiting := by
  have hk := h.agrees.known_iff id
  simpa using hk

theorem At.disjoint (h : At b s [] []) {id : ReservationId}
    (hs : (s.control.submitted.get? id).isSome = true) : id ∉ s.control.waiting := by
  intro hw
  obtain ⟨r, hr, -⟩ := (h.submitted_iff id).1 hs
  have hn : b.registry.get? id = none := (h.agrees.waiting_away id hw).1
  rw [hn] at hr
  simp at hr

/-- Known gangs are submitted or wait, and none does both. -/
theorem At.known_size (h : At b s [] []) :
    s.control.known.size = s.control.submitted.size + s.control.backoff.size := by
  have hn : (s.control.submitted.keys ++ s.control.waiting).Nodup := by
    refine List.nodup_append.2 ⟨s.control.submitted.keys_nodup, h.agrees.waiting_nodup, ?_⟩
    rintro k hk _ hw rfl
    exact h.disjoint (Table.mem_keys.1 hk) hw
  have hl := s.control.known.size_eq_of_keys hn fun k => by
    rw [List.mem_append, Table.mem_keys, h.known_iff]
  have hk : s.control.submitted.keys.length = s.control.submitted.size := List.length_map _
  have hw : s.control.waiting.length = s.control.backoff.size :=
    DelayQueue.length_payloads s.control.backoff
  rw [hl, List.length_append, hk, hw]

theorem At.drained_known (h : At b s [] []) (now : Time) :
    ∀ id ∈ (s.control.backoff.drain now).1, (s.control.known.get? id).isSome = true := by
  intro id hid
  obtain ⟨-, -, hdue, -⟩ := h.agrees.drain_splits now
  exact (h.known_iff id).2 (.inr (hdue id hid).1)

/-- When a gang is about to step back, the controller still knows it. -/
theorem At.victim_known (h : At b s [] []) (now : Time) {first : List (ReservationId × HandleId)}
    {v : ReservationId × HandleId} {rest : List (ReservationId × HandleId)}
    (hv : s.control.pickVictims.1 = first ++ v :: rest) :
    ((first.foldl (fun c v => c.stepBack now v.1)
      (s.control.pickVictims.2.noteRound
        s.control.pickVictims.1)).known.get? v.1).isSome = true := by
  have ha := h.agrees.noteRound
  rw [hv] at ha
  obtain ⟨l', h'⟩ := ha.stepBacks now
  obtain ⟨-, r, hr, -⟩ := h'.leaving_open v (List.mem_cons_self ..)
  rw [hv, hr]
  rfl

/-- After every admitted run, whatever the connector does and whatever is drawn. -/
theorem after_divided (o : DeadlockOptions) (queue : QueueName) (s₀ : σ)
    {run : List (Time × Op σ)} (hrun : Admitted C run (supervised clock o queue s₀)) :
    let b := after C run (supervised clock o queue s₀)
    ∃ c, b.control? = some c ∧
      (∀ id, (c.submitted.get? id).isSome = true → id ∉ c.waiting) ∧
      (∀ id, (c.known.get? id).isSome = true ↔
        (c.submitted.get? id).isSome = true ∨ id ∈ c.waiting) ∧
      c.waiting.Nodup ∧
      (∀ id r, c.known.get? id = some r → (r.status = .backedOff ↔ id ∈ c.waiting)) ∧
      (∀ id, (c.submitted.get? id).isSome = true ↔ ∃ r, b.registry.get? id = some r ∧
        r.gang = true ∧ (r.status = .pending ∨ r.status = .partly)) ∧
      (∀ id ∈ c.waiting, b.registry.get? id = none) ∧
      c.known.size = c.submitted.size + c.backoff.size ∧
      (∀ now, (∀ id ∈ (c.backoff.drain now).1, (c.known.get? id).isSome = true) ∧
        (c.wake now).1.map Reservation.id = (c.backoff.drain now).1) ∧
      c.pickVictims.2.submitted.size + c.pickVictims.1.length = c.submitted.size ∧
      ∀ now first v rest, c.pickVictims.1 = first ++ v :: rest →
        ((first.foldl (fun c v => c.stepBack now v.1)
          (c.pickVictims.2.noteRound c.pickVictims.1)).known.get? v.1).isSome = true := by
  intro b
  obtain ⟨s, h⟩ := after_at C (supervised_at clock o queue s₀) hrun
  refine ⟨s.control, h.manned.control?, fun id hs => h.disjoint hs, h.known_iff,
    h.agrees.waiting_nodup, fun id r hr => ?_, h.submitted_iff,
    fun id hw => (h.agrees.waiting_away id hw).1, h.known_size,
    fun now => ⟨h.drained_known now, (h.agrees.wake now).2⟩,
    (h.agrees.pick s.control.target s.control.submitted.size).2,
    fun now first v rest hv => h.victim_known now hv⟩
  have hb := h.agrees.backedOff_iff hr
  simpa using hb

/-- Two gangs of one resource each; nothing is allocated, and one of them steps back. -/
theorem after_divided_round :
    let o : DeadlockOptions := { backoffPercent := 50 }
    let ask := fun n : Nat => fun h : n < idRange =>
      ([⟨⟨n, h⟩, ⟨"node"⟩, .dontCare, 1, 512⟩] : List Ask)
    let run : List (Time × Op ScriptedManager) := [
      (.ofMillis 0, .start),
      (.ofMillis 1, .reserve ⟨7, by decide⟩ ⟨⟨3, by decide⟩, ⟨"queue"⟩, true, ask 1 (by decide)⟩),
      (.ofMillis 2, .reserve ⟨8, by decide⟩ ⟨⟨3, by decide⟩, ⟨"queue"⟩, true, ask 2 (by decide)⟩),
      (.ofMillis 40000, .avoidDeadlock (.ofMillis 40000))]
    Admitted ScriptedManager.connector run (supervised (.ofMillis 0) o ⟨"queue"⟩ {}) ∧
      ∃ c, (after ScriptedManager.connector run
          (supervised (.ofMillis 0) o ⟨"queue"⟩ {})).control? = some c ∧
        c.backoff.size = 1 ∧ c.submitted.size = 1 ∧ c.known.size = 2 := by
  intro o ask run
  have hrun : Admitted ScriptedManager.connector run
      (supervised (.ofMillis 0) o ⟨"queue"⟩ {}) := ⟨trivial, rfl, rfl, trivial, trivial⟩
  obtain ⟨c, hc, -, -, -, -, -, -, hsize, -⟩ :=
    after_divided ScriptedManager.connector (.ofMillis 0) o ⟨"queue"⟩ {} hrun
  have hcount : ((after ScriptedManager.connector run
      (supervised (.ofMillis 0) o ⟨"queue"⟩ {})).control?.map fun c =>
        (c.backoff.size, c.submitted.size)) = some (1, 1) := by decide +kernel
  rw [hc, Option.map_some] at hcount
  obtain ⟨hb, hs⟩ := Prod.mk.inj (Option.some.inj hcount)
  refine ⟨hrun, c, hc, hb, hs, ?_⟩
  rw [hsize, hb, hs]

end ClusterBroker.Broker
