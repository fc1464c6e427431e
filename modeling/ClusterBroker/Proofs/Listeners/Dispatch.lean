import ClusterBroker.Listeners

/-!
# Dispatching to listeners that may fail

A dispatch goes through the events and calls, for each that is not empty, everyone who was on the
list when it began. A call that fails is caught there and then and is counted. What listeners do
when they are called is left open: they go by a world that they share and may change, so that
whether a call fails may depend on all calls before it. They only do not call back.

Whatever they do, a dispatch returns, and has made every call that it should make.
-/
namespace ClusterBroker.Listeners

variable {α ω ε : Type}

/-- What listeners do when they are called. -/
abbrev Conduct (α ω ε : Type) := Call α → ω → Except ε Unit × ω

/-- A list of listeners in its world, and the calls so far, each with whether it failed. -/
structure Scene (α ω : Type) where
  list : Listeners α := {}
  world : ω
  made : List (Call α × Bool) := []

/-- Work on a scene, which may break off. -/
abbrev Work (α ω ε : Type) := ExceptT ε (StateM (Scene α ω))

/-- A call fails if the listener does. -/
def call (act : Conduct α ω ε) (c : Call α) : Work α ω ε Unit := fun s =>
  let r := act c s.world
  (r.1, { s with world := r.2, made := s.made ++ [(c, !r.1.isOk)] })

def noteEvent (l : Listeners α) : Listeners α := { l with dispatched := l.dispatched + 1 }

def noteFailure (l : Listeners α) : Listeners α := { l with failures := l.failures + 1 }

def dispatch (act : Conduct α ω ε) (events : List Event) : Work α ω ε Unit := do
  let listeners := (← get).list.entries
  events.forM fun e => unless e.isEmpty do
    modify fun s => { s with list := s.list.noteEvent }
    listeners.forM fun x =>
      tryCatch (call act ⟨e, x.1, x.2⟩) fun _ =>
        modify fun s => { s with list := s.list.noteFailure }

/-! ### Every call is made -/

/-- What follows on work that does not break off. -/
theorem bind_of_ok {β γ : Type} {f : Work α ω ε β} {g : β → Work α ω ε γ} {s s' : Scene α ω} {b : β}
    (h : f s = (.ok b, s')) : (f >>= g) s = g b s' := by
  simp only [bind, ExceptT.bind, ExceptT.mk, StateT.bind, h]
  rfl

theorem caught_of_ok {f : Work α ω ε Unit} {g : ε → Work α ω ε Unit} {s s' : Scene α ω}
    (h : f s = (.ok (), s')) : (tryCatch f g) s = (.ok (), s') := by
  simp only [tryCatch, tryCatchThe, MonadExceptOf.tryCatch, ExceptT.tryCatch, ExceptT.mk, bind,
    StateT.bind, h]
  rfl

theorem caught_of_error {f : Work α ω ε Unit} {g : ε → Work α ω ε Unit} {s s' : Scene α ω} {e : ε}
    (h : f s = (.error e, s')) : (tryCatch f g) s = g e s' := by
  simp only [tryCatch, tryCatchThe, MonadExceptOf.tryCatch, ExceptT.tryCatch, ExceptT.mk, bind,
    StateT.bind, h]

/-- Calls one after the other, each with whether it fails, and the world after them. -/
def trace (act : Conduct α ω ε) : List (Call α) → ω → List (Call α × Bool) × ω
  | [], w => ([], w)
  | c :: cs, w =>
    let r := act c w
    let rest := trace act cs r.2
    ((c, !r.1.isOk) :: rest.1, rest.2)

theorem trace_append (cs cs' : List (Call α)) (w : ω) : trace act (cs ++ cs') w =
    ((trace act cs w).1 ++ (trace act cs' (trace act cs w).2).1,
      (trace act cs' (trace act cs w).2).2) := by
  induction cs generalizing w with
  | nil => rfl
  | cons c cs ih =>
    rw [List.cons_append, trace, ih]
    rfl

theorem trace_calls (cs : List (Call α)) (w : ω) : (trace act cs w).1.map Prod.fst = cs := by
  induction cs generalizing w with
  | nil => rfl
  | cons c cs ih => exact congrArg (c :: ·) (ih _)

theorem countP_trace {act : Conduct α ω ε} {fails : Call α → Bool}
    (hfails : ∀ c w, (act c w).1.isOk = !fails c) (cs : List (Call α)) (w : ω) :
    (trace act cs w).1.countP Prod.snd = cs.countP fails := by
  induction cs generalizing w with
  | nil => rfl
  | cons c cs ih =>
    rw [trace, List.countP_cons, List.countP_cons, ih, hfails, Bool.not_not]

/-- From `s` to `s'` these calls are made, for this number of events. -/
structure Makes (act : Conduct α ω ε) (s : Scene α ω) (n : Nat) (cs : List (Call α))
    (s' : Scene α ω) : Prop where
  entries : s'.list.entries = s.list.entries
  nextId : s'.list.nextId = s.list.nextId
  dispatched : s'.list.dispatched = s.list.dispatched + n
  failures : s'.list.failures = s.list.failures + (trace act cs s.world).1.countP Prod.snd
  world : s'.world = (trace act cs s.world).2
  made : s'.made = s.made ++ (trace act cs s.world).1

theorem Makes.refl (s : Scene α ω) : Makes act s 0 [] s :=
  ⟨rfl, rfl, rfl, rfl, rfl, (List.append_nil _).symm⟩

theorem Makes.trans (h : Makes act s n cs s') (h' : Makes act s' n' cs' s'') :
    Makes act s (n + n') (cs ++ cs') s'' := by
  refine ⟨h'.entries.trans h.entries, h'.nextId.trans h.nextId, ?_, ?_, ?_, ?_⟩
  · rw [h'.dispatched, h.dispatched, Nat.add_assoc]
  · rw [h'.failures, h.failures, h.world, trace_append, List.countP_append, Nat.add_assoc]
  · rw [h'.world, h.world, trace_append]
  · rw [h'.made, h.made, h.world, trace_append, List.append_assoc]

/-- What is done for each in turn is done in the end. Some of them count as an event. -/
theorem forM_makes {β : Type} {f : β → Work α ω ε Unit} {counts : β → Bool}
    {calls : β → List (Call α)}
    (hf : ∀ x s, ∃ s', f x s = (.ok (), s') ∧
      Makes act s (if counts x then 1 else 0) (calls x) s')
    (xs : List β) (s : Scene α ω) :
    ∃ s', xs.forM f s = (.ok (), s') ∧ Makes act s (xs.countP counts) (xs.flatMap calls) s' := by
  induction xs generalizing s with
  | nil => exact ⟨s, rfl, .refl s⟩
  | cons x xs ih =>
    obtain ⟨s₁, hx, hmakes⟩ := hf x s
    obtain ⟨s₂, hxs, hmakes'⟩ := ih s₁
    refine ⟨s₂, (bind_of_ok hx).trans hxs, ?_⟩
    rw [List.countP_cons, List.flatMap_cons, Nat.add_comm]
    exact hmakes.trans hmakes'

/-- A call that fails is caught. -/
theorem call_makes (act : Conduct α ω ε) (c : Call α) (s : Scene α ω) : ∃ s',
    (tryCatch (call act c) fun _ => modify fun s => { s with list := s.list.noteFailure } :
      Work α ω ε Unit) s = (.ok (), s') ∧ Makes act s 0 [c] s' := by
  cases hr : (act c s.world).1 with
  | ok u =>
    have hcall : call act c s =
        (.ok (), { s with world := (act c s.world).2, made := s.made ++ [(c, false)] }) := by
      unfold call
      dsimp only
      rw [hr]
      rfl
    refine ⟨_, caught_of_ok hcall, ?_⟩
    constructor <;> simp [trace, hr, Except.isOk, Except.toBool]
  | error e =>
    have hcall : call act c s =
        (.error e, { s with world := (act c s.world).2, made := s.made ++ [(c, true)] }) := by
      unfold call
      dsimp only
      rw [hr]
      rfl
    refine ⟨_, caught_of_error hcall, ?_⟩
    constructor <;> simp [trace, hr, Except.isOk, Except.toBool, noteFailure]

theorem note_makes (s : Scene α ω) : Makes act s 1 [] { s with list := s.list.noteEvent } :=
  ⟨rfl, rfl, rfl, rfl, rfl, (List.append_nil _).symm⟩

/-- The calls for one event. -/
def round (e : Event) (l : Listeners α) : List (Call α) :=
  if e.isEmpty then [] else l.entries.map fun x => ⟨e, x.1, x.2⟩

theorem calls_eq (events : List Event) (l : Listeners α) :
    l.calls events = events.flatMap l.round := by
  unfold calls
  induction events with
  | nil => rfl
  | cons e es ih =>
    rw [List.flatMap_cons, ← ih, List.filter_cons, round]
    cases e.isEmpty <;> rfl

/-- A dispatch returns, and everyone on the list was called with every event that is not empty. -/
theorem dispatch_makes (act : Conduct α ω ε) (events : List Event) (s : Scene α ω) :
    ∃ s', dispatch act events s = (.ok (), s') ∧
      Makes act s (events.filter fun e => !e.isEmpty).length (s.list.calls events) s' := by
  have hround : ∀ (e : Event) (s₁ : Scene α ω), ∃ s', (unless e.isEmpty do
      modify fun s => { s with list := s.list.noteEvent }
      s.list.entries.forM fun x => tryCatch (call act ⟨e, x.1, x.2⟩) fun _ =>
        modify fun s => { s with list := s.list.noteFailure } : Work α ω ε Unit) s₁ = (.ok (), s') ∧
      Makes act s₁ (if !e.isEmpty then 1 else 0) (s.list.round e) s' := by
    intro e s₁
    unfold round
    cases e.isEmpty with
    | true => exact ⟨s₁, rfl, .refl s₁⟩
    | false =>
      have hcall : ∀ (x : ListenerId × α) (s : Scene α ω), ∃ s',
          (tryCatch (call act ⟨e, x.1, x.2⟩) fun _ =>
            modify fun s => { s with list := s.list.noteFailure } : Work α ω ε Unit) s =
            (.ok (), s') ∧ Makes act s (if false then 1 else 0) [⟨e, x.1, x.2⟩] s' :=
        fun x => call_makes act ⟨e, x.1, x.2⟩
      obtain ⟨s', hs', hmakes⟩ :=
        forM_makes hcall s.list.entries { s₁ with list := s₁.list.noteEvent }
      rw [List.countP_false, ← List.map_eq_flatMap] at hmakes
      exact ⟨s', (bind_of_ok rfl).trans hs', (note_makes s₁).trans hmakes⟩
  obtain ⟨s', hs', hmakes⟩ := forM_makes hround events s
  rw [List.countP_eq_length_filter, ← calls_eq] at hmakes
  exact ⟨s', (bind_of_ok (f := get) rfl).trans hs', hmakes⟩

/-- Where it depends on the listener and the event alone whether a call fails, the list is
afterwards as it is foretold. -/
theorem Makes.afterDispatch {events : List Event} {fails : α → Event → Bool}
    (h : Makes act s (events.filter fun e => !e.isEmpty).length (s.list.calls events) s')
    (hfails : ∀ c w, (act c w).1.isOk = !fails c.listener c.event) :
    s'.list = s.list.afterDispatch fails events := by
  have hfailures := h.failures
  rw [countP_trace hfails] at hfailures
  unfold Listeners.afterDispatch
  rw [← h.entries, ← h.nextId, ← h.dispatched, ← hfailures]

end ClusterBroker.Listeners
