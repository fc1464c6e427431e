import ClusterBroker.Proofs.Listeners.Dispatch

/-!
# Listeners do not disturb one another

In every history of additions, removals and dispatches a listener hears what was dispatched from its
addition to its removal. Who else was on the list, and which calls failed, makes no difference. An
id is given out once, and its removal takes away the listener that it was given to and no other.
-/
namespace ClusterBroker.Listeners

variable {α ω ω' ε ε' : Type} {act : Conduct α ω ε} {s s' : Scene α ω} {a : α} {i : ListenerId}

/-- What can be done with a list of listeners. -/
inductive Op (α : Type) where
  | add (a : α)
  | remove (id : ListenerId)
  | dispatch (events : List Event)

def Op.run (act : Conduct α ω ε) : Op α → Scene α ω → Scene α ω
  | .add a, s => { s with list := (s.list.add a).2 }
  | .remove id, s => { s with list := (s.list.remove id).2 }
  | .dispatch events, s => (Listeners.dispatch act events s).2

def after (act : Conduct α ω ε) : List (Op α) → Scene α ω → Scene α ω
  | [], s => s
  | op :: ops, s => after act ops (op.run act s)

/-- The ids that were given out, in order. -/
def issued (act : Conduct α ω ε) : List (Op α) → Scene α ω → List ListenerId
  | [], _ => []
  | .add a :: ops, s => (s.list.add a).1 :: issued act ops ((Op.add a).run act s)
  | op :: ops, s => issued act ops (op.run act s)

/-- Who was called under an id, and with which events. -/
def heard (i : ListenerId) (s : Scene α ω) : List (α × Event) :=
  (s.made.filter fun m => m.1.id = i).map fun m => (m.1.listener, m.1.event)

/-- What concerns the listener of an id: every dispatch, and its own removal. -/
def Op.concern (i : ListenerId) : Op α → Option (Option (List Event))
  | .add _ => none
  | .remove j => if j = i then some none else none
  | .dispatch events => some (some events)

/-- What is dispatched until a removal, without the events that are empty. -/
def audible : List (Option (List Event)) → List Event
  | [] => []
  | none :: _ => []
  | some events :: rest => (events.filter fun e => !e.isEmpty) ++ audible rest

theorem dispatch_run_makes (act : Conduct α ω ε) (events : List Event) (s : Scene α ω) :
    Makes act s (events.filter fun e => !e.isEmpty).length (s.list.calls events)
      ((Op.dispatch events).run act s) := by
  obtain ⟨s', hs', hmakes⟩ := dispatch_makes act events s
  change Makes act s _ _ (Listeners.dispatch act events s).2
  rwa [hs']

/-! ### Ids -/

def ids (l : Listeners α) : List ListenerId := l.entries.map Prod.fst

theorem ids_remove (i : ListenerId) (l : Listeners α) :
    (l.remove i).2.ids = l.ids.filter fun j => !decide (j = i) := by
  unfold ids remove
  rw [List.filter_map]
  rfl

/-- Ids are given out in turn. -/
structure Numbered (s : Scene α ω) : Prop where
  nodup : s.list.ids.Nodup
  id_lt : ∀ i ∈ s.list.ids, i.index < s.list.nextId
  made_lt : ∀ m ∈ s.made, m.1.id.index < s.list.nextId

theorem numbered_opening (w : ω) : Numbered ({ world := w } : Scene α ω) :=
  ⟨.nil, List.forall_mem_nil _, List.forall_mem_nil _⟩

theorem mem_calls {events : List Event} {l : Listeners α} {c : Call α} (h : c ∈ l.calls events) :
    c.id ∈ l.ids := by
  obtain ⟨e, -, hc⟩ := List.mem_flatMap.1 h
  obtain ⟨x, hx, rfl⟩ := List.mem_map.1 hc
  exact List.mem_map_of_mem hx

theorem Numbered.run (h : Numbered s) (op : Op α) : Numbered (op.run act s) := by
  cases op with
  | add a =>
    have hids : ((Op.add a).run act s).list.ids = s.list.ids ++ [⟨s.list.nextId⟩] := List.map_append
    refine ⟨?_, ?_, fun m hm => Nat.lt_succ_of_lt (h.made_lt m hm)⟩
    · rw [hids, List.nodup_append]
      refine ⟨h.nodup, List.pairwise_singleton _ _, ?_⟩
      rintro j hj _ hnew rfl
      rw [List.mem_singleton.1 hnew] at hj
      exact Nat.lt_irrefl _ (h.id_lt _ hj)
    · rw [hids, List.forall_mem_append]
      exact ⟨fun j hj => Nat.lt_succ_of_lt (h.id_lt j hj),
        List.forall_mem_singleton.2 (Nat.lt_succ_self _)⟩
  | remove i =>
    have hids : ((Op.remove i).run act s).list.ids = _ := ids_remove i s.list
    refine ⟨?_, ?_, h.made_lt⟩
    · rw [hids]
      exact h.nodup.filter _
    · rw [hids]
      exact fun j hj => h.id_lt j (List.mem_filter.1 hj).1
  | dispatch events =>
    have hmakes := dispatch_run_makes act events s
    have hids : ((Op.dispatch events).run act s).list.ids = s.list.ids :=
      congrArg (List.map Prod.fst) hmakes.entries
    refine ⟨hids ▸ h.nodup, ?_, ?_⟩
    · rw [hids, hmakes.nextId]
      exact h.id_lt
    · rw [hmakes.made, hmakes.nextId, List.forall_mem_append]
      refine ⟨h.made_lt, fun m hm => ?_⟩
      have hcs : (trace act (s.list.calls events) s.world).1.map Prod.fst = s.list.calls events :=
        trace_calls _ _
      have hcall : m.1 ∈ s.list.calls events := hcs ▸ List.mem_map_of_mem hm
      exact h.id_lt _ (mem_calls hcall)

theorem Numbered.after (h : Numbered s) (ops : List (Op α)) : Numbered (after act ops s) := by
  induction ops generalizing s with
  | nil => exact h
  | cons op ops ih => exact ih (h.run op)

theorem nextId_le_run (op : Op α) (s : Scene α ω) : s.list.nextId ≤ (op.run act s).list.nextId := by
  cases op with
  | add a => exact Nat.le_succ _
  | remove => exact Nat.le_refl _
  | dispatch events => exact Nat.le_of_eq (dispatch_run_makes act events s).nextId.symm

/-- Every id that is given out comes after those before it. -/
theorem issued_ascend (ops : List (Op α)) (s : Scene α ω) :
    (issued act ops s).Pairwise (fun i j => i.index < j.index) ∧
      ∀ i ∈ issued act ops s, s.list.nextId ≤ i.index := by
  induction ops generalizing s with
  | nil => exact ⟨.nil, List.forall_mem_nil _⟩
  | cons op ops ih =>
    obtain ⟨hpair, hle⟩ := ih (op.run act s)
    have hnext : s.list.nextId ≤ (op.run act s).list.nextId := nextId_le_run op s
    cases op with
    | add a =>
      refine ⟨List.pairwise_cons.2 ⟨hle, hpair⟩, List.forall_mem_cons.2 ⟨Nat.le_refl _, ?_⟩⟩
      exact fun j hj => Nat.le_trans hnext (hle j hj)
    | remove => exact ⟨hpair, fun j hj => Nat.le_trans hnext (hle j hj)⟩
    | dispatch => exact ⟨hpair, fun j hj => Nat.le_trans hnext (hle j hj)⟩

theorem issued_nodup (ops : List (Op α)) (s : Scene α ω) : (issued act ops s).Nodup :=
  (issued_ascend ops s).1.imp fun h heq => Nat.ne_of_lt h (congrArg ListenerId.index heq)

/-! ### Who is on the list -/

/-- The id was given out and was not taken back since. -/
def Standing (act : Conduct α ω ε) (i : ListenerId) (ops : List (Op α)) (s : Scene α ω) : Prop :=
  ∃ before a since, ops = before ++ .add a :: since ∧ ((after act before s).list.add a).1 = i ∧
    .remove i ∉ since

theorem standing_cons {op : Op α} {ops : List (Op α)} : Standing act i (op :: ops) s ↔
    (∃ a, op = .add a ∧ (s.list.add a).1 = i ∧ .remove i ∉ ops) ∨
      Standing act i ops (op.run act s) := by
  constructor
  · rintro ⟨before, a, since, hops, hid, hsince⟩
    cases before with
    | nil =>
      obtain ⟨rfl, rfl⟩ := List.cons.inj hops
      exact .inl ⟨a, rfl, hid, hsince⟩
    | cons op' before =>
      obtain ⟨rfl, rfl⟩ := List.cons.inj hops
      exact .inr ⟨before, a, since, rfl, hid, hsince⟩
  · rintro (⟨a, rfl, hid, hsince⟩ | ⟨before, a, since, rfl, hid, hsince⟩)
    · exact ⟨[], a, ops, rfl, hid, hsince⟩
    · exact ⟨op :: before, a, since, rfl, hid, hsince⟩

theorem mem_ids_after (ops : List (Op α)) (s : Scene α ω) : i ∈ (after act ops s).list.ids ↔
    i ∈ s.list.ids ∧ .remove i ∉ ops ∨ Standing act i ops s := by
  induction ops generalizing s with
  | nil =>
    refine ⟨fun h => .inl ⟨h, List.not_mem_nil⟩, ?_⟩
    rintro (⟨h, -⟩ | ⟨before, a, since, hops, -⟩)
    · exact h
    · simp at hops
  | cons op ops ih =>
    unfold after
    rw [ih, standing_cons, List.mem_cons, not_or]
    cases op with
    | add a =>
      have hids : ((Op.add a).run act s).list.ids = s.list.ids ++ [(s.list.add a).1] :=
        List.map_append
      rw [hids, List.mem_append, List.mem_singleton]
      simp only [reduceCtorEq, not_false_eq_true, true_and, Op.add.injEq, exists_eq_left']
      rw [eq_comm (b := i), or_and_right, or_assoc]
    | remove j =>
      have hids : ((Op.remove j).run act s).list.ids = _ := ids_remove j s.list
      rw [hids, List.mem_filter]
      simp only [Bool.not_eq_true', decide_eq_false_iff_not, Op.remove.injEq, reduceCtorEq,
        false_and, exists_false, false_or]
      rw [and_assoc]
    | dispatch events =>
      have hids : ((Op.dispatch events).run act s).list.ids = s.list.ids :=
        congrArg (List.map Prod.fst) (dispatch_run_makes act events s).entries
      rw [hids]
      simp

theorem remove_eq_true {l : Listeners α} : (l.remove i).1 = true ↔ i ∈ l.ids := by
  unfold remove ids
  dsimp only
  rw [decide_eq_true_iff, ne_eq, List.length_filter_eq_length_iff, List.mem_map]
  simp

/-- The removal of an id takes its listener from the list, if there is one, and no other. -/
structure Removal (i : ListenerId) (l : Listeners α) : Prop where
  absent : (l.remove i).1 = false → (l.remove i).2 = l
  present : (l.remove i).1 = true → ∃ l₁ a l₂, l.entries = l₁ ++ (i, a) :: l₂ ∧
    (l.remove i).2 = { l with entries := l₁ ++ l₂ }

/-- The other entries of a list without its one entry of an id. -/
theorem filter_ne {l : List (ListenerId × α)} (h : i ∉ l.map Prod.fst) :
    (l.filter fun x => !decide (x.1 = i)) = l := by
  rw [List.filter_eq_self]
  intro x hx
  have hne : x.1 ≠ i := fun heq => h (heq ▸ List.mem_map_of_mem hx)
  simp [hne]

theorem Numbered.splits (h : Numbered s) (ha : (i, a) ∈ s.list.entries) : ∃ l₁ l₂,
    s.list.entries = l₁ ++ (i, a) :: l₂ ∧ i ∉ l₁.map Prod.fst ∧ i ∉ l₂.map Prod.fst := by
  obtain ⟨l₁, l₂, hl⟩ := List.append_of_mem ha
  have hnodup : (s.list.entries.map Prod.fst).Nodup := h.nodup
  rw [hl, List.map_append, List.map_cons, List.nodup_append, List.nodup_cons] at hnodup
  obtain ⟨-, ⟨hafter, -⟩, hbefore⟩ := hnodup
  exact ⟨l₁, l₂, hl, fun h₁ => hbefore i h₁ i List.mem_cons_self rfl, hafter⟩

theorem Numbered.removal (h : Numbered s) (i : ListenerId) : Removal i s.list := by
  refine ⟨fun hno => ?_, fun hyes => ?_⟩
  · have hi : i ∉ s.list.ids := fun hi => by simp [remove_eq_true.2 hi] at hno
    unfold remove
    dsimp only
    rw [filter_ne hi]
  · obtain ⟨⟨_, a⟩, ha, rfl⟩ := List.mem_map.1 (remove_eq_true.1 hyes)
    obtain ⟨l₁, l₂, hl, h₁, h₂⟩ := h.splits ha
    refine ⟨l₁, a, l₂, hl, ?_⟩
    unfold remove
    dsimp only
    rw [hl, List.filter_append, List.filter_cons_of_neg (by simp), filter_ne h₁, filter_ne h₂]

/-! ### What a listener hears -/

theorem heard_of_makes {n : Nat} {cs : List (Call α)} (h : Makes act s n cs s') : heard i s' =
    heard i s ++ (cs.filter fun c => c.id = i).map fun c => (c.listener, c.event) := by
  have hcs : (trace act cs s.world).1.map Prod.fst = cs := trace_calls cs s.world
  unfold heard
  rw [h.made, List.filter_append, List.map_append]
  generalize (trace act cs s.world).1 = new at hcs
  rw [← hcs, List.filter_map, List.map_map]
  rfl

/-- The calls under an id, by those who are on the list under it. -/
theorem calls_under (i : ListenerId) (events : List Event) (l : Listeners α) :
    ((l.calls events).filter fun c => c.id = i).map (fun c => (c.listener, c.event)) =
      (events.filter fun e => !e.isEmpty).flatMap fun e =>
        (l.entries.filter fun x => x.1 = i).map fun x => (x.2, e) := by
  unfold calls
  rw [List.filter_flatMap, List.map_flatMap]
  congr 1
  funext e
  rw [List.filter_map, List.map_map]
  rfl

theorem filter_eq_nil {l : List (ListenerId × α)} (h : i ∉ l.map Prod.fst) :
    (l.filter fun x => x.1 = i) = [] := by
  rw [List.filter_eq_nil_iff]
  intro x hx heq
  exact h (of_decide_eq_true heq ▸ List.mem_map_of_mem hx)

theorem heard_dispatch (h : Numbered s) (ha : (i, a) ∈ s.list.entries) (events : List Event) :
    heard i ((Op.dispatch events).run act s) =
      heard i s ++ (events.filter fun e => !e.isEmpty).map (Prod.mk a) := by
  obtain ⟨l₁, l₂, hl, h₁, h₂⟩ := h.splits ha
  have hone : (s.list.entries.filter fun x => x.1 = i) = [(i, a)] := by
    rw [hl, List.filter_append, List.filter_cons_of_pos (by simp), filter_eq_nil h₁,
      filter_eq_nil h₂]
    rfl
  rw [heard_of_makes (dispatch_run_makes act events s), calls_under, hone, List.map_eq_flatMap]
  rfl

theorem heard_dispatch_absent (hi : i ∉ s.list.ids) (events : List Event) :
    heard i ((Op.dispatch events).run act s) = heard i s := by
  rw [heard_of_makes (dispatch_run_makes act events s), calls_under, filter_eq_nil hi]
  simp

theorem heard_absent (hi : i ∉ s.list.ids) (hlt : i.index < s.list.nextId) (ops : List (Op α)) :
    heard i (after act ops s) = heard i s := by
  induction ops generalizing s with
  | nil => rfl
  | cons op ops ih =>
    have hlt' : i.index < (op.run act s).list.nextId := Nat.lt_of_lt_of_le hlt (nextId_le_run op s)
    have hi' : i ∉ (op.run act s).list.ids := by
      intro hmem
      have hmem : i ∈ (after act [op] s).list.ids := hmem
      rcases (mem_ids_after [op] s).1 hmem with ⟨h, -⟩ | h
      · exact hi h
      rcases standing_cons.1 h with ⟨a, -, rfl, -⟩ | ⟨before, a, since, hops, -⟩
      · exact Nat.lt_irrefl _ hlt
      · simp at hops
    refine (ih hi' hlt').trans ?_
    cases op with
    | add => rfl
    | remove => rfl
    | dispatch events => exact heard_dispatch_absent hi events

theorem heard_present (h : Numbered s) (ha : (i, a) ∈ s.list.entries) (ops : List (Op α)) :
    heard i (after act ops s) =
      heard i s ++ (audible (ops.filterMap (Op.concern i))).map (Prod.mk a) := by
  induction ops generalizing s with
  | nil => exact (List.append_nil _).symm
  | cons op ops ih =>
    have hnext : Numbered (op.run act s) := h.run op
    unfold after
    cases op with
    | add b => exact ih hnext (List.mem_append_left _ ha)
    | remove j =>
      by_cases hj : j = i
      · have hgone : i ∉ ((Op.remove j).run act s).list.ids := by
          have hids : ((Op.remove j).run act s).list.ids = _ := ids_remove j s.list
          rw [hids, hj]
          simp
        have hconcern : (Op.remove j : Op α).concern i = some none := if_pos hj
        rw [heard_absent hgone (h.id_lt i (List.mem_map_of_mem ha)),
          List.filterMap_cons_some hconcern]
        exact (List.append_nil _).symm
      · have hconcern : (Op.remove j : Op α).concern i = none := if_neg hj
        rw [List.filterMap_cons_none hconcern]
        refine ih hnext (List.mem_filter.2 ⟨ha, ?_⟩)
        simp [Ne.symm hj]
    | dispatch events =>
      have hstay : (i, a) ∈ ((Op.dispatch events).run act s).list.entries := by
        rw [(dispatch_run_makes act events s).entries]
        exact ha
      have hconcern : (Op.dispatch events : Op α).concern i = some (some events) := rfl
      rw [ih hnext hstay, heard_dispatch h ha, List.filterMap_cons_some hconcern, audible,
        List.map_append, List.append_assoc]

/-- A listener that is new hears what is dispatched until its removal. -/
theorem heard_new (h : Numbered s) (a : α) (ops : List (Op α)) :
    heard (s.list.add a).1 (after act (.add a :: ops) s) =
      (audible (ops.filterMap (Op.concern (s.list.add a).1))).map (Prod.mk a) := by
  have hnever : heard (s.list.add a).1 s = [] := by
    unfold heard
    rw [List.map_eq_nil_iff, List.filter_eq_nil_iff]
    intro m hm heq
    have hlt := h.made_lt m hm
    rw [of_decide_eq_true heq] at hlt
    exact Nat.lt_irrefl _ hlt
  have hmem : ((s.list.add a).1, a) ∈ ((Op.add a).run act s).list.entries :=
    List.mem_append_right _ List.mem_cons_self
  refine (heard_present (h.run _) hmem ops).trans ?_
  rw [show heard _ ((Op.add a).run act s) = [] from hnever, List.nil_append]

/-- A listener hears the events dispatched from its addition to its removal that are not empty, in
order and once each: the same in any two histories that differ in other listeners, in what these do
and in what fails. Ids are not given out twice, and a removal takes away the one listener that has
the id, if it is on the list. A dispatch returns with every call made, and counts the events and the
calls that failed. -/
theorem listeners_isolated (act : Conduct α ω ε) (act' : Conduct α ω' ε') (w : ω) (w' : ω')
    (before since before' since' : List (Op α)) (a : α) :
    let s := after act before { world := w }
    let t := after act' before' { world := w' }
    let i := (s.list.add a).1
    let j := (t.list.add a).1
    heard i (after act (.add a :: since) s) =
        (audible (since.filterMap (Op.concern i))).map (Prod.mk a) ∧
      (since.filterMap (Op.concern i) = since'.filterMap (Op.concern j) →
        heard i (after act (.add a :: since) s) = heard j (after act' (.add a :: since') t)) ∧
      (issued act (before ++ .add a :: since) { world := w }).Nodup ∧
      (∀ k, (s.list.remove k).1 = true ↔ Standing act k before { world := w }) ∧
      (∀ k, Removal k s.list) ∧
      (∀ events, ∃ s', dispatch act events s = (.ok (), s') ∧
        Makes act s (events.filter fun e => !e.isEmpty).length (s.list.calls events) s' ∧
        ∀ fails : α → Event → Bool, (∀ c w, (act c w).1.isOk = !fails c.listener c.event) →
          s'.list = s.list.afterDispatch fails events) := by
  intro s t i j
  have hs : Numbered s := (numbered_opening w).after before
  have ht : Numbered t := (numbered_opening w').after before'
  have hhere : heard i (after act (.add a :: since) s) =
      (audible (since.filterMap (Op.concern i))).map (Prod.mk a) := heard_new hs a since
  have hthere : heard j (after act' (.add a :: since') t) =
      (audible (since'.filterMap (Op.concern j))).map (Prod.mk a) := heard_new ht a since'
  refine ⟨hhere, fun hsame => ?_, issued_nodup _ _, fun k => ?_, hs.removal, fun events => ?_⟩
  · rw [hthere, ← hsame]
    exact hhere
  · rw [remove_eq_true, mem_ids_after]
    exact or_iff_right fun h => List.not_mem_nil h.1
  · obtain ⟨s', hs', hmakes⟩ := dispatch_makes act events s
    exact ⟨s', hs', hmakes, fun fails => hmakes.afterDispatch⟩

/-- In one history the listener before it fails at everything, an event is empty, and both are
removed one after the other; in the other history it is alone and nobody fails. -/
theorem listeners_isolated_failing :
    let news := fun k => Event.rejection (.ofNat 7) (.ofNat k)
    let act : Conduct (Nat × Bool) Nat Unit := fun c n =>
      (if c.listener.2 then .error () else .ok (), n + 1)
    let calm : Conduct (Nat × Bool) Unit Unit := fun _ w => (.ok (), w)
    let before : List (Op (Nat × Bool)) := [.add (0, true)]
    let since : List (Op (Nat × Bool)) := [.dispatch [news 1, { handle := .ofNat 7 }, news 2],
      .remove ⟨0⟩, .dispatch [news 3], .remove ⟨1⟩, .dispatch [news 4]]
    let since' : List (Op (Nat × Bool)) := [.dispatch [news 1, { handle := .ofNat 7 }, news 2],
      .dispatch [news 3], .remove ⟨0⟩, .dispatch [news 4]]
    let s := after act before { world := 0 }
    let t := after calm [] { world := () }
    heard ⟨1⟩ (after act (.add (1, false) :: since) s) =
        [((1, false), news 1), ((1, false), news 2), ((1, false), news 3)] ∧
      heard ⟨0⟩ (after calm (.add (1, false) :: since') t) =
        [((1, false), news 1), ((1, false), news 2), ((1, false), news 3)] ∧
      ∃ s', dispatch act [news 5, news 6] s = (.ok (), s') ∧ s'.list.failures = 2 := by
  intro news act calm before since since' s t
  obtain ⟨hheard, hsame, -, -, -, hdispatch⟩ :=
    listeners_isolated act calm 0 () before since [] since' (1, false)
  have hother := hsame rfl
  obtain ⟨s', hs', -, hlist⟩ := hdispatch [news 5, news 6]
  have hfails := hlist (fun x _ => x.2) fun c n => by
    change (if c.listener.2 then .error () else .ok () : Except Unit Unit).isOk = _
    cases c.listener.2 <;> rfl
  refine ⟨hheard.trans rfl, hother.symm.trans (hheard.trans rfl), s', hs', ?_⟩
  rw [hfails]
  rfl

end ClusterBroker.Listeners
