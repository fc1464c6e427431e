import ClusterBroker.Proofs.Broker.Control

/-!
# Refused requests

A request is refused, with nothing changed anywhere, if its id is in use, if one of its resources
is already placed, or once the registry was stopped. Two places know which ids are in use, and
each request is only checked against some of them: what is passed on to the registry is checked
there, and a gang is checked against the books of the controller first. A gang that has to wait
because others do is not checked at the registry at all, neither now nor for its resources; it
meets the registry when it is placed at the end of its delay.
-/
namespace ClusterBroker

/-- The broker refuses on its own account; the connector was not asked. -/
def BrokerFault.IsRefusal : BrokerFault → Prop
  | .invalid _ | .shutDown => True
  | .connector _ => False

namespace Desk

variable {σ : Type} (C : Connector σ) (clock : Time)

/-- Something at the registry is in the way of a request. -/
def Blocks (id : ReservationId) (q : Request) (d : Desk σ) : Prop :=
  d.ledger.get? id ≠ none ∨ (∃ a ∈ q.asks, d.ledger.index.get? a.resource ≠ none) ∨
    d.registry.stopped = true

theorem conflict?_ofRequest {l : Ledger} {id : ReservationId} {q : Request} {t : Time}
    (h : l.get? id ≠ none ∨ ∃ a ∈ q.asks, l.index.get? a.resource ≠ none) :
    l.conflict? (.ofRequest id q t) ≠ none := by
  intro hn
  obtain ⟨hfree, hplaced⟩ := Ledger.conflict?_eq_none_iff.1 hn
  rcases h with h | ⟨a, ha, h⟩
  · exact h hfree
  · apply h
    apply hplaced
    rw [Reservation.resourceIds_eq]
    apply List.mem_map_of_mem
    have hasks := congrArg Request.asks (Reservation.toRequest_ofRequest id q t)
    change (Reservation.ofRequest id q t).resources.map Resource.ask = q.asks at hasks
    rwa [hasks]

theorem place_blocked {id : ReservationId} {q : Request} {d : Desk σ} (h : d.Blocks id q)
    (t : Time) : ∃ f : BrokerFault, f.IsRefusal ∧
      d.place C clock (.ofRequest id q t) = ⟨.error f, d, []⟩ := by
  unfold place
  split
  next => exact ⟨.shutDown, trivial, rfl⟩
  next hs =>
    have hc : d.registry.ledger.conflict? (.ofRequest id q t) ≠ none := by
      apply conflict?_ofRequest
      rcases h with h | h | h
      · exact .inl h
      · exact .inr h
      · exact absurd h hs
    obtain ⟨f, hf⟩ := Option.ne_none_iff_exists'.1 hc
    have hins : d.registry.ledger.insert (.ofRequest id q t) = .error f := by
      unfold Ledger.insert
      rw [hf]
    rw [hins]
    exact ⟨.invalid f, trivial, rfl⟩

theorem reserve_blocked {id : ReservationId} {q : Request} {d : Desk σ} (h : d.Blocks id q) :
    ∃ f : BrokerFault, f.IsRefusal ∧ d.reserve C clock id q = ⟨.error f, d, []⟩ := by
  unfold reserve
  split
  next f _ => exact ⟨.invalid f, trivial, rfl⟩
  next => exact place_blocked C clock h clock

end Desk

namespace GangControl

/-- What counts as submitted is known. -/
def Filed (c : GangControl) : Prop := ∀ id, c.submitted.get? id ≠ none → c.known.get? id ≠ none

theorem keeping_filed : Keeping (fun _ => True) Filed := by
  constructor
  · exact fun _ _ => trivial
  · exact fun _ => trivial
  · intro c c' h hk hs id
    rw [hk, hs]
    exact h id
  · intro c c' k r h _ hk hs id hid
    rw [hs] at hid
    rw [hk, Table.get?_insert]
    split
    · simp
    · exact h id hid
  · intro c r h _ id hid
    unfold submit KeySet.add at hid
    unfold submit
    rw [Table.get?_insert] at hid ⊢
    split
    next => simp
    next hne =>
      rw [if_neg hne] at hid
      exact h id hid
  · intro c c' k h hk hs id hid
    unfold KeySet.remove at hs
    rw [hs, Table.get?_erase] at hid
    rw [hk]
    split at hid
    next => simp at hid
    next => exact h id hid
  · intro c c' k h hk hs id hid
    unfold KeySet.remove at hs
    rw [hs, Table.get?_erase] at hid
    rw [hk, Table.get?_erase]
    split at hid
    next => simp at hid
    next hne =>
      rw [if_neg hne]
      exact h id hid

/-- Striking out what was submitted a moment ago leaves no trace. -/
theorem forget_submit {c : GangControl} (h : c.Filed) {r : Reservation}
    (hr : c.known.get? r.id = none) (hs : r.status ≠ .backedOff) :
    ((c.submit r).forget r.id).2 = c := by
  have hsub : c.submitted.get? r.id = none := by
    by_contra hn
    exact h r.id hn hr
  unfold forget submit KeySet.add KeySet.remove
  dsimp only
  rw [Table.get?_insert, if_pos rfl]
  dsimp only
  rw [if_neg hs, Table.erase_insert r hr, Table.erase_insert () hsub]

end GangControl

namespace Broker

open GangControl (Filed)

variable {σ : Type} (C : Connector σ) (clock : Time) {b : Broker σ}

/-- What stands in the way of a request: its id is in use, one of its resources is placed, or the
registry was stopped. -/
def Hinders (id : ReservationId) (q : Request) (b : Broker σ) : Prop :=
  b.get? id ≠ none ∨ (∃ a ∈ q.asks, b.registry.ledger.index.get? a.resource ≠ none) ∨
    b.registry.stopped = true

theorem place_refused {id : ReservationId} {q : Request} (h : b.desk.Blocks id q) (t : Time) :
    ∃ f : BrokerFault, f.IsRefusal ∧ b.place C clock (.ofRequest id q t) = (.error f, b) := by
  obtain ⟨f, hf, hp⟩ := Desk.place_blocked C clock h t
  refine ⟨f, hf, ?_⟩
  unfold place
  rw [hp]
  rfl

theorem reserveDirectly_refused {id : ReservationId} {q : Request} (h : b.desk.Blocks id q) :
    ∃ f : BrokerFault, f.IsRefusal ∧ b.reserveDirectly C clock id q = (.error f, b) := by
  obtain ⟨f, hf, hp⟩ := Desk.reserve_blocked C clock h
  refine ⟨f, hf, ?_⟩
  unfold reserveDirectly
  rw [hp]
  rfl

theorem modifyControl_modifyControl (f g : GangControl → GangControl) (b : Broker σ) :
    (b.modifyControl f).modifyControl g = b.modifyControl fun c => g (f c) := by
  unfold modifyControl
  dsimp only
  rw [Option.map_map]
  rfl

theorem modifyControl_eq_self {f : GangControl → GangControl}
    (h : ∀ c, b.control? = some c → f c = c) : b.modifyControl f = b := by
  obtain ⟨desk, listeners, supervisor, former, told⟩ := b
  unfold modifyControl
  cases supervisor with
  | none => rfl
  | some s =>
    have hs : f s.control = s.control := h s.control rfl
    rw [Option.map_some, hs]

theorem submitGang_refused (hb : b.Controls Filed) {c : GangControl} (hc : b.control? = some c)
    {id : ReservationId} {q : Request} (hk : c.known.get? id = none) (h : b.desk.Blocks id q)
    (t : Time) : ∃ f : BrokerFault, f.IsRefusal ∧
      b.submitGang C clock (.ofRequest id q t) = (.error f, b) := by
  have hblocks : (b.modifyControl (GangControl.submit (.ofRequest id q t))).desk.Blocks id q := h
  obtain ⟨f, hf, hp⟩ := place_refused C clock hblocks t
  refine ⟨f, hf, ?_⟩
  unfold submitGang
  rw [hp]
  dsimp only
  rw [modifyControl_modifyControl, modifyControl_eq_self]
  intro c' hc'
  rw [hc] at hc'
  rw [← Option.some.inj hc']
  exact GangControl.forget_submit (r := .ofRequest id q t) (hb c hc) hk
    (by simp [Reservation.ofRequest])

theorem reserveGang_refused (hb : b.Controls Filed) {c : GangControl} (hc : b.control? = some c)
    {id : ReservationId} {q : Request} (h : c.known.contains id = true ∨
      c.backoff.isEmpty = true ∧ b.desk.Blocks id q) :
    ∃ f : BrokerFault, f.IsRefusal ∧ b.reserveGang C clock id q c = (.error f, b) := by
  unfold reserveGang
  cases q.fault? with
  | some f => exact ⟨.invalid f, trivial, rfl⟩
  | none =>
    dsimp only
    split
    next => exact ⟨.invalid (.knownReservation id), trivial, rfl⟩
    next hn =>
      rcases h with h | ⟨he, h⟩
      · exact absurd h hn
      · rw [if_pos he]
        exact submitGang_refused C clock hb hc
          (Table.contains_eq_false.1 (by simpa using hn)) h clock

/-- While others wait, a gang that the controller does not know has to wait too. -/
theorem reserveGang_waits {c : GangControl} {id : ReservationId} {q : Request}
    (hf : q.fault? = none) (hk : c.known.contains id = false) (hw : c.backoff.isEmpty = false) :
    b.reserveGang C clock id q c =
      (.ok { Reservation.ofRequest id q clock with status := .backedOff },
        b.modifyControl (GangControl.wait clock (.ofRequest id q clock))) := by
  unfold reserveGang
  rw [hf]
  dsimp only
  rw [if_neg (by simp [hk]), if_neg (by simp [hw])]

theorem blocks_of_hinders {c : GangControl} (hc : b.control? = some c) {id : ReservationId}
    {q : Request} (h : b.Hinders id q) (hn : c.backedOff? id = none) : b.desk.Blocks id q := by
  rcases h with h | h | h
  · left
    unfold get? at h
    rw [hc, Option.bind_some, hn] at h
    exact h
  · exact .inr (.inl h)
  · exact .inr (.inr h)

theorem contains_of_backedOff {c : GangControl} {id : ReservationId}
    (h : c.backedOff? id ≠ none) : c.known.contains id = true := by
  rw [Table.contains_iff]
  unfold GangControl.backedOff? at h
  cases hk : c.known.get? id with
  | none => simp [hk] at h
  | some r => exact ⟨r, rfl⟩

theorem after_filed (o : DeadlockOptions) (queue : QueueName) (s : σ) (run : List (Time × Op σ)) :
    (after C run (supervised clock o queue s)).Controls Filed := by
  refine after_controls C GangControl.keeping_filed.stable ?_ fun _ _ _ _ _ _ _ => trivial
  intro k hk
  rw [(supervised_at clock o queue s).manned.control?] at hk
  rw [← Option.some.inj hk]
  exact fun id hid => absurd rfl hid

/-- After any run: a request that something stands in the way of is refused, and nothing changes,
as long as nothing waits or the request comes under an id that the controller knows, if it is a
gang, and as long as nothing waits under its id, if it is not. While others wait, a gang that the
controller does not know is taken, whatever the registry has. -/
theorem reserve_admission (o : DeadlockOptions) (queue : QueueName) (s : σ) (opened : Time)
    (run : List (Time × Op σ)) (id : ReservationId) (q : Request) {c : GangControl}
    (hc : (after C run (supervised opened o queue s)).control? = some c) :
    let b := after C run (supervised opened o queue s)
    (b.Hinders id q → (q.gang = true → c.known.contains id = true ∨ c.backoff.isEmpty = true) →
        (q.gang = false → c.backedOff? id = none) →
        ∃ f : BrokerFault, f.IsRefusal ∧ b.reserve C clock id q = (.error f, b)) ∧
      (q.fault? = none → q.gang = true → c.known.contains id = false → c.backoff.isEmpty = false →
        b.reserve C clock id q =
          (.ok { Reservation.ofRequest id q clock with status := .backedOff },
            b.modifyControl (GangControl.wait clock (.ofRequest id q clock)))) := by
  intro b
  have hfiled : b.Controls Filed := after_filed C opened o queue s run
  have hb : b.control? = some c := hc
  unfold reserve
  rw [hb]
  dsimp only
  constructor
  · intro h hgang hplain
    cases hg : q.gang with
    | true =>
      rw [if_pos rfl]
      apply reserveGang_refused C clock hfiled hb
      by_cases hn : c.backedOff? id = none
      · rcases hgang hg with hk | he
        · exact .inl hk
        · exact .inr ⟨he, blocks_of_hinders hb h hn⟩
      · exact .inl (contains_of_backedOff hn)
    | false =>
      rw [if_neg (by simp)]
      exact reserveDirectly_refused C clock (blocks_of_hinders hb h (hplain hg))
  · intro hf hg hk hw
    rw [if_pos hg]
    exact reserveGang_waits C clock hf hk hw

/-- A gang that was allocated; a second request comes under its id. -/
theorem reserve_admission_known :
    let request := fun n : Nat => fun h : n < idRange =>
      (⟨⟨3, by decide⟩, ⟨"queue"⟩, true, [⟨⟨n, h⟩, ⟨"node"⟩, .dontCare, 1, 512⟩]⟩ : Request)
    let run : List (Time × Op ScriptedManager) := [
      (.ofMillis 1, .reserve ⟨7, by decide⟩ (request 1 (by decide))),
      (.ofMillis 2, .deliver [.allocated ⟨1, by decide⟩ ⟨1, 512, ⟨"node"⟩, ⟨"held"⟩⟩])]
    let b := after ScriptedManager.connector run
      (supervised (.ofMillis 0) { backoffPercent := 100 } ⟨"queue"⟩ {})
    ∃ f : BrokerFault, f.IsRefusal ∧ b.reserve ScriptedManager.connector (.ofMillis 3)
      ⟨7, by decide⟩ (request 2 (by decide)) = (.error f, b) := by
  intro request run b
  obtain ⟨c, hc⟩ : ∃ c, b.control? = some c := ⟨_, rfl⟩
  have hempty : (b.control?.map fun c => c.backoff.isEmpty) = some true := by decide +kernel
  rw [hc, Option.map_some] at hempty
  have h := reserve_admission ScriptedManager.connector (.ofMillis 3) { backoffPercent := 100 }
    ⟨"queue"⟩ {} (.ofMillis 0) run ⟨7, by decide⟩ (request 2 (by decide)) hc
  apply h.1
  · left
    decide +kernel
  · exact fun _ => .inr (Option.some.inj hempty)
  · exact fun hg => absurd hg (by decide)

/-- The same while another gang waits: the second request is taken, though the registry tracks a
reservation of that id. -/
theorem reserve_deferred_under_known_id :
    let request := fun n : Nat => fun h : n < idRange =>
      (⟨⟨3, by decide⟩, ⟨"queue"⟩, true, [⟨⟨n, h⟩, ⟨"node"⟩, .dontCare, 1, 512⟩]⟩ : Request)
    let run : List (Time × Op ScriptedManager) := [
      (.ofMillis 1, .reserve ⟨7, by decide⟩ (request 1 (by decide))),
      (.ofMillis 2, .deliver [.allocated ⟨1, by decide⟩ ⟨1, 512, ⟨"node"⟩, ⟨"held"⟩⟩]),
      (.ofMillis 3, .reserve ⟨8, by decide⟩ (request 2 (by decide))),
      (.ofMillis 40000, .avoidDeadlock (.ofMillis 40000))]
    let b := after ScriptedManager.connector run
      (supervised (.ofMillis 0) { backoffPercent := 100 } ⟨"queue"⟩ {})
    b.Hinders ⟨7, by decide⟩ (request 3 (by decide)) ∧
      ¬ ∃ f, (b.reserve ScriptedManager.connector (.ofMillis 40001) ⟨7, by decide⟩
        (request 3 (by decide))).1 = .error f := by
  intro request run b
  refine ⟨.inl (by decide +kernel), ?_⟩
  have hok : (b.reserve ScriptedManager.connector (.ofMillis 40001) ⟨7, by decide⟩
      (request 3 (by decide))).1.isOk = true := by decide +kernel
  rintro ⟨f, hf⟩
  rw [hf] at hok
  simp [Except.isOk, Except.toBool] at hok

end Broker

end ClusterBroker
