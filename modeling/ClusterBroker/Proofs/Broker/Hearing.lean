import ClusterBroker.Broker
import ClusterBroker.Proofs.Desk.Operation
import ClusterBroker.Proofs.GangControl.Books

/-!
# What is heard

While a supervisor is in charge it alone listens to the registry. It learns from every event and
hands it on, so its books and what its clients hear both follow from the events sent out. Clients
may leave by themselves with the first event that they hear; those that stay hear every event, as
often as they are on the list.
-/
namespace ClusterBroker

/-! ### Lists of listeners -/

namespace Listeners

variable {α : Type} {once fails : α → Bool} {l : Listeners α}

/-- The listeners that do not leave by themselves. -/
def stayers (once : α → Bool) (l : Listeners α) : List (ListenerId × α) :=
  l.entries.filter fun y => !once y.2

variable [DecidableEq α]

/-- What a listener on a list hears when these events are sent out. -/
def share (a : α) (es : List Event) (l : List (ListenerId × α)) : List Event :=
  es.flatMap fun e => (l.filter fun y => y.2 = a).map fun _ => e

theorem share_append (a : α) (es fs : List Event) (l : List (ListenerId × α)) :
    share a (es ++ fs) l = share a es l ++ share a fs l := List.flatMap_append

/-- A listener that is on the list once hears everything once. -/
theorem share_single {a : α} {l : List (ListenerId × α)} {i : ListenerId}
    (h : (l.filter fun y => y.2 = a) = [(i, a)]) (es : List Event) : share a es l = es := by
  unfold share
  rw [h]
  exact List.flatMap_singleton' es

theorem filter_stayers {a : α} (ha : once a = false) (l : Listeners α) :
    ((l.stayers once).filter fun y => y.2 = a) = l.entries.filter fun y => y.2 = a := by
  unfold stayers
  rw [List.filter_filter]
  apply List.filter_congr
  intro y _
  by_cases hy : y.2 = a
  · simp [hy, ha]
  · simp [hy]

theorem calls_share {a : α} (ha : once a = false) (events : List Event) (l : Listeners α) :
    ((l.calls events).filter fun c => c.listener = a).map Call.event =
      share a (events.filter fun e => !e.isEmpty) (l.stayers once) := by
  unfold calls share
  rw [filter_stayers ha]
  induction events.filter fun e => !e.isEmpty with
  | nil => rfl
  | cons e es ih =>
    rw [List.flatMap_cons, List.flatMap_cons, List.filter_append, List.map_append, ih,
      List.filter_map, List.map_map]
    rfl

end Listeners

namespace Broker

open Listeners

theorem sendOut_stayers {α : Type} (fails once : α → Bool) (events : List Event)
    (l : Listeners α) : (sendOut fails once events l).stayers once = l.stayers once := by
  unfold sendOut stayers
  dsimp only
  split
  next => rfl
  next =>
    unfold dismissWhere afterDispatch
    rw [List.filter_filter]
    simp

theorem sendOut_nextId {α : Type} (fails once : α → Bool) (events : List Event)
    (l : Listeners α) : (sendOut fails once events l).nextId = l.nextId := by
  unfold sendOut
  dsimp only
  split <;> rfl

variable {σ : Type} {b b' b'' : Broker σ} {s s' s'' : Supervisor}

structure Manned (b : Broker σ) (s : Supervisor) : Prop where
  supervisor : b.supervisor = some s
  listeners : ∃ i, b.listeners.entries = [(i, .supervisor)]

/-- The events that a client has heard, in order. -/
def heardBy (x : Client) (b : Broker σ) : List Event :=
  (b.told.filter fun n => n.client = x).map Notice.event

theorem heardBy_append {ns : List (Notice σ)} (x : Client) (h : b'.told = b.told ++ ns) :
    b'.heardBy x = b.heardBy x ++ (ns.filter fun n => n.client = x).map Notice.event := by
  unfold heardBy
  rw [h, List.filter_append, List.map_append]

theorem Manned.modifyControl (h : Manned b s) (f : GangControl → GangControl) :
    Manned (b.modifyControl f) { s with control := f s.control } := by
  refine ⟨?_, h.listeners⟩
  unfold Broker.modifyControl
  rw [h.supervisor]
  rfl

theorem Manned.unique (h : Manned b s) (h' : Manned b s') : s' = s :=
  Option.some.inj (h'.supervisor.symm.trans h.supervisor)

theorem Manned.control? (h : Manned b s) : b.control? = some s.control := by
  unfold Broker.control?
  rw [h.supervisor]
  rfl

/-! ### Telling the clients -/

/-- From `b` to `b'` the clients of the supervisor are told of these events. -/
structure Tells (b : Broker σ) (s : Supervisor) (es : List Event) (b' : Broker σ)
    (s' : Supervisor) : Prop where
  manned : Manned b' s'
  nextId_eq : s'.clients.nextId = s.clients.nextId
  stayers_eq : s'.clients.stayers Client.once = s.clients.stayers Client.once
  told : ∀ {x}, x.once = false →
    b'.heardBy x = b.heardBy x ++ share x es (s.clients.stayers Client.once)

theorem Tells.refl (h : Manned b s) : Tells b s [] b s :=
  ⟨h, rfl, rfl, fun _ => (List.append_nil _).symm⟩

theorem Tells.trans {es es' : List Event} (h : Tells b s es b' s') (h' : Tells b' s' es' b'' s'') :
    Tells b s (es ++ es') b'' s'' := by
  refine ⟨h'.manned, h'.nextId_eq.trans h.nextId_eq, h'.stayers_eq.trans h.stayers_eq,
    fun hx => ?_⟩
  rw [h'.told hx, h.told hx, h.stayers_eq, share_append, List.append_assoc]

theorem foldl_tell (calls : List (Listeners.Call Client)) (b : Broker σ) :
    calls.foldl (fun b c => b.tell c.event c.listener) b =
      { b with told := b.told ++
          calls.map fun c => ⟨c.listener, c.event, b.desk, b.control?⟩ } := by
  induction calls generalizing b with
  | nil => simp
  | cons c calls ih =>
    rw [List.foldl_cons, ih]
    simp [tell, Broker.control?]

theorem forward_tells (h : Manned b s) (e : Event) :
    ∃ s', Tells b s ([e].filter fun e => !e.isEmpty) (b.forward e) s' ∧
      s'.control = s.control ∧ (b.forward e).desk = b.desk := by
  unfold forward
  rw [h.supervisor]
  dsimp only
  rw [foldl_tell]
  refine ⟨_, ⟨⟨rfl, h.listeners⟩, sendOut_nextId .., sendOut_stayers ..,
    fun {x} hx => ?_⟩, rfl, rfl⟩
  rw [heardBy_append x rfl, ← calls_share hx, List.filter_map, List.map_map]
  rfl

theorem answer_tells (h : Manned b s) (clock : Time) (e : Event) (i : ListenerId) :
    ∃ s', Tells b s ([e].filter fun e => !e.isEmpty) (b.answerCall clock ⟨e, i, .supervisor⟩) s' ∧
      s'.control = s.control.learn clock e := by
  obtain ⟨s', ht, hc, -⟩ := forward_tells (h.modifyControl (GangControl.learn clock e)) e
  exact ⟨s', ⟨ht.manned, ht.nextId_eq, ht.stayers_eq, ht.told⟩, hc⟩

theorem answers_tells (h : Manned b s) (clock : Time) (es : List Event) (i : ListenerId) :
    ∃ s', Tells b s (es.filter fun e => !e.isEmpty)
      ((es.map fun e => (⟨e, i, .supervisor⟩ : Listeners.Call Subscriber)).foldl
        (answerCall clock) b) s' ∧
      s'.control = es.foldl (fun c e => c.learn clock e) s.control := by
  induction es generalizing b s with
  | nil => exact ⟨s, .refl h, rfl⟩
  | cons e es ih =>
    obtain ⟨s₁, h₁, hc₁⟩ := answer_tells h clock e i
    obtain ⟨s₂, h₂, hc₂⟩ := ih h₁.manned
    refine ⟨s₂, ?_, ?_⟩
    · have ht := h₁.trans h₂
      rw [← List.filter_append] at ht
      exact ht
    · rw [hc₂, hc₁]
      rfl

/-! ### Everything that is sent out -/

/-- The events of a dispatch that say anything. -/
def spoken (d : Dispatch σ) : List Event := d.events.filter fun e => !e.isEmpty

theorem flatMap_spoken (sent : List (Dispatch σ)) :
    sent.flatMap spoken = (eventsOf sent).filter fun e => !e.isEmpty := by
  unfold eventsOf
  rw [List.filter_flatMap]
  rfl

theorem hear_tells (h : Manned b s) (clock : Time) (d : Dispatch σ) :
    ∃ s', Tells b s (spoken d) (b.hear clock d) s' ∧
      s'.control = (spoken d).foldl (fun c e => c.learn clock e) s.control := by
  obtain ⟨i, hi⟩ := h.listeners
  have hcalls : b.listeners.calls d.events =
      (spoken d).map fun e => (⟨e, i, .supervisor⟩ : Listeners.Call Subscriber) := by
    unfold Listeners.calls spoken
    rw [hi, List.map_eq_flatMap]
    rfl
  have hstart : Manned ({ b with
      desk := d.desk
      listeners :=
        sendOut Subscriber.fails Subscriber.once d.events b.listeners } : Broker σ) s := by
    refine ⟨h.supervisor, i, ?_⟩
    unfold sendOut
    dsimp only
    split
    · exact hi
    · unfold Listeners.dismissWhere Listeners.afterDispatch
      simp [hi, Subscriber.once]
  obtain ⟨s', ht, hc⟩ := answers_tells hstart clock (spoken d) i
  unfold hear
  dsimp only
  rw [hcalls]
  unfold spoken at ht
  rw [List.filter_filter] at ht
  simp only [Bool.and_self] at ht
  exact ⟨s', ⟨ht.manned, ht.nextId_eq, ht.stayers_eq, ht.told⟩, hc⟩

theorem follow_tells (h : Manned b s) (clock : Time) (sent : List (Dispatch σ)) (d : Desk σ) :
    ∃ s', Tells b s (sent.flatMap spoken) (b.follow clock sent d) s' ∧
      s'.control = (sent.flatMap spoken).foldl (fun c e => c.learn clock e) s.control := by
  have hall : ∃ s', Tells b s (sent.flatMap spoken) (sent.foldl (hear clock) b) s' ∧
      s'.control = (sent.flatMap spoken).foldl (fun c e => c.learn clock e) s.control := by
    induction sent generalizing b s with
    | nil => exact ⟨s, .refl h, rfl⟩
    | cons x sent ih =>
      obtain ⟨s₁, h₁, hc₁⟩ := hear_tells h clock x
      obtain ⟨s₂, h₂, hc₂⟩ := ih h₁.manned
      refine ⟨s₂, h₁.trans h₂, ?_⟩
      rw [hc₂, hc₁, List.flatMap_cons, List.foldl_append]
  obtain ⟨s', ht, hc⟩ := hall
  exact ⟨s', ⟨⟨ht.manned.supervisor, ht.manned.listeners⟩, ht.nextId_eq, ht.stayers_eq, ht.told⟩,
    hc⟩

/-! ### What is settled -/

/-- A client that stays is on the supervisor's list, once. -/
structure Attends (i : ListenerId) (x : Client) (s : Supervisor) : Prop where
  once_eq : x.once = false
  entries_eq : (s.clients.entries.filter fun e => e.2 = x) = [(i, x)]

/-- From `b` to `b'` the clients hear of exactly these reservations being settled. -/
structure Hears (b : Broker σ) (s : Supervisor) (ids : List ReservationId) (b' : Broker σ)
    (s' : Supervisor) : Prop where
  manned : Manned b' s'
  told : ∀ {i x}, Attends i x s →
    Attends i x s' ∧ settledIn (heardBy x b') = settledIn (heardBy x b) ++ ids

theorem Tells.hears {es : List Event} (h : Tells b s es b' s') :
    Hears b s (settledIn es) b' s' := by
  refine ⟨h.manned, fun {i x} hx => ?_⟩
  have hstay : ((s.clients.stayers Client.once).filter fun e => e.2 = x) = [(i, x)] := by
    rw [filter_stayers hx.once_eq, hx.entries_eq]
  constructor
  · refine ⟨hx.once_eq, ?_⟩
    rw [← filter_stayers hx.once_eq, h.stayers_eq, hstay]
  · rw [h.told hx.once_eq, share_single hstay, settledIn_append]

theorem Hears.refl (h : Manned b s) : Hears b s [] b s := (Tells.refl h).hears

theorem Hears.trans {ids ids' : List ReservationId} (h : Hears b s ids b' s')
    (h' : Hears b' s' ids' b'' s'') : Hears b s (ids ++ ids') b'' s'' := by
  refine ⟨h'.manned, fun hx => ?_⟩
  obtain ⟨hx', ht⟩ := h.told hx
  obtain ⟨hx'', ht'⟩ := h'.told hx'
  exact ⟨hx'', by rw [ht', ht, List.append_assoc]⟩

/-- Nothing is told, and the clients stay. -/
theorem Hears.of_silent (h : Manned b' s') (hc : s'.clients.entries = s.clients.entries)
    (ht : b'.told = b.told) : Hears b s [] b' s' := by
  refine ⟨h, fun {i x} hx => ⟨⟨hx.once_eq, ?_⟩, ?_⟩⟩
  · rw [hc]
    exact hx.entries_eq
  · unfold heardBy
    rw [ht, List.append_nil]

theorem forward_hears (h : Manned b s) (e : Event) :
    ∃ s', Hears b s e.settled (b.forward e) s' ∧ s'.control = s.control ∧
      (b.forward e).desk = b.desk := by
  obtain ⟨s', ht, hc, hd⟩ := forward_tells h e
  have hh := ht.hears
  rw [settledIn_filter, settledIn_cons, settledIn_nil, List.append_nil] at hh
  exact ⟨s', hh, hc, hd⟩

/-- While the desk moves on, the clients hear what is settled and the controller strikes it out. -/
theorem follow_hears (h : Manned b s) (ht : s.control.Tidy)
    (clock : Time) (sent : List (Dispatch σ)) (d : Desk σ) : ∃ s',
      Hears b s (settledIn (eventsOf sent)) (b.follow clock sent d) s' ∧
      GangControl.Struck (settledIn (eventsOf sent)) s.control s'.control := by
  obtain ⟨s', hs', hc⟩ := follow_tells h clock sent d
  have hh := hs'.hears
  have hstruck := GangControl.foldl_learn_struck ht clock (sent.flatMap spoken)
  rw [flatMap_spoken, settledIn_filter] at hh hstruck
  rw [flatMap_spoken] at hc
  rw [← hc] at hstruck
  exact ⟨s', hh, hstruck⟩

end Broker

end ClusterBroker
