import Mathlib.Data.List.Induction
import ClusterBroker.Proofs.Ledger.Completion
import ClusterBroker.Proofs.Ledger.Resources

/-!
# The course of a batch

Changes that are applied one after the other have effects one after the other, or none where a
change is ignored. This is the course of a batch. Everything that a batch leads to is read off
its course: what is given back and what is counted as it stands there, and the events merged,
those to one handle into one event. Merging adds nothing and loses nothing: what a handle learns
is what the single events say to it, in the same order.
-/
namespace ClusterBroker

/-! ### Merging -/

namespace Event

/-- The events with those to one handle made one, in order of first appearance. -/
def merged (fs : List Event) : List Event := fs.foldl (fun es f => f.addTo es) []

/-- What events say to a handle in one of their fields. -/
def saidTo {α : Type} (h : HandleId) (p : Event → List α) (es : List Event) : List α :=
  (es.filter fun e => e.handle = h).flatMap p

@[simp] theorem merged_concat (fs : List Event) (f : Event) :
    merged (fs ++ [f]) = f.addTo (merged fs) := by
  unfold merged
  rw [List.foldl_append]
  rfl

section

variable {α : Type} {p : Event → List α} {h : HandleId}

@[simp] theorem saidTo_nil : saidTo h p [] = [] := rfl

theorem saidTo_cons (e : Event) (es : List Event) :
    saidTo h p (e :: es) = (if e.handle = h then p e else []) ++ saidTo h p es := by
  unfold saidTo
  by_cases he : e.handle = h
  · rw [List.filter_cons_of_pos (by simpa using he), if_pos he, List.flatMap_cons]
  · rw [List.filter_cons_of_neg (by simpa using he), if_neg he, List.nil_append]

@[simp] theorem saidTo_append (es fs : List Event) :
    saidTo h p (es ++ fs) = saidTo h p es ++ saidTo h p fs := by
  unfold saidTo
  rw [List.filter_append, List.flatMap_append]

theorem saidTo_of_not_mem {es : List Event} (hn : h ∉ es.map Event.handle) :
    saidTo h p es = [] := by
  unfold saidTo
  rw [List.filter_eq_nil_iff.2, List.flatMap_nil]
  intro e he hh
  exact hn (List.mem_map.2 ⟨e, he, of_decide_eq_true hh⟩)

theorem mem_saidTo {es : List Event} {a : α} :
    a ∈ saidTo h p es ↔ ∃ e ∈ es, e.handle = h ∧ a ∈ p e := by
  unfold saidTo
  simp only [List.mem_flatMap, List.mem_filter, decide_eq_true_eq, and_assoc]

end

theorem handles_addTo (f : Event) (es : List Event) :
    (f.addTo es).map handle =
      if f.handle ∈ es.map handle then es.map handle else es.map handle ++ [f.handle] := by
  induction es with
  | nil => simp [addTo]
  | cons e es ih =>
    unfold addTo
    by_cases he : e.handle = f.handle
    · rw [if_pos he, if_pos (by simp [he])]
      rfl
    · have hiff : f.handle ∈ (e :: es).map handle ↔ f.handle ∈ es.map handle := by
        simp [Ne.symm he]
      simp only [hiff]
      rw [if_neg he, List.map_cons, ih, List.map_cons]
      split <;> rfl

theorem handles_addTo_nodup {f : Event} {es : List Event} (h : (es.map handle).Nodup) :
    ((f.addTo es).map handle).Nodup := by
  rw [handles_addTo]
  split
  next => exact h
  next hn => simpa using h.concat hn

theorem merged_nodup (fs : List Event) : ((merged fs).map handle).Nodup := by
  induction fs using List.reverseRecOn with
  | nil => exact List.nodup_nil
  | append_singleton fs f ih =>
    rw [merged_concat]
    exact handles_addTo_nodup ih

theorem mem_handles_merged {fs : List Event} {h : HandleId} :
    h ∈ (merged fs).map handle ↔ h ∈ fs.map handle := by
  induction fs using List.reverseRecOn with
  | nil => rfl
  | append_singleton fs f ih =>
    rw [merged_concat, handles_addTo, List.map_append, List.mem_append, ← ih]
    split
    next hm =>
      refine ⟨.inl, fun hh => hh.elim id fun hf => ?_⟩
      rw [List.mem_singleton.1 hf]
      exact hm
    next => exact List.mem_append

/-- Handles are listed in the order in which they first have something to learn. -/
theorem merged_handles_prefix (fs gs : List Event) :
    (merged fs).map handle <+: (merged (fs ++ gs)).map handle := by
  induction gs using List.reverseRecOn with
  | nil => simp
  | append_singleton gs g ih =>
    rw [← List.append_assoc, merged_concat, handles_addTo]
    split
    next => exact ih
    next => exact ih.trans (List.prefix_append _ _)

theorem forall_merged {q : Event → Prop} (hq : ∀ {e f : Event}, q e → q f → q (e.append f))
    {fs : List Event} (h : ∀ f ∈ fs, q f) : ∀ e ∈ merged fs, q e := by
  induction fs using List.reverseRecOn with
  | nil => exact List.forall_mem_nil _
  | append_singleton fs f ih =>
    rw [merged_concat]
    exact forall_addTo hq (h f (by simp)) (ih fun g hg => h g (List.mem_append_left _ hg))

theorem saidTo_addTo {α : Type} {p : Event → List α} (hp : ∀ e f, p (append e f) = p e ++ p f)
    (h : HandleId) (f : Event) {es : List Event} (hn : (es.map handle).Nodup) :
    saidTo h p (f.addTo es) = saidTo h p (es ++ [f]) := by
  induction es with
  | nil => rfl
  | cons e es ih =>
    rw [List.map_cons, List.nodup_cons] at hn
    unfold addTo
    by_cases he : e.handle = f.handle
    · rw [if_pos he, List.cons_append, saidTo_cons, saidTo_cons, saidTo_append, saidTo_cons,
        saidTo_nil, List.append_nil]
      change (if e.handle = h then p (e.append f) else []) ++ _ = _
      by_cases hh : e.handle = h
      · have hrest : saidTo h p es = [] := saidTo_of_not_mem (hh ▸ hn.1)
        rw [if_pos hh, if_pos hh, if_pos (he ▸ hh), hp, hrest, List.append_nil, List.nil_append]
      · rw [if_neg hh, if_neg hh, if_neg (he ▸ hh), List.append_nil]
    · rw [if_neg he, List.cons_append, saidTo_cons, saidTo_cons, ih hn.2]

/-- A handle learns from the merged events what the single events say to it. -/
theorem saidTo_merged {α : Type} {p : Event → List α} (hp : ∀ e f, p (append e f) = p e ++ p f)
    (h : HandleId) (fs : List Event) : saidTo h p (merged fs) = saidTo h p fs := by
  induction fs using List.reverseRecOn with
  | nil => rfl
  | append_singleton fs f ih =>
    rw [merged_concat, saidTo_addTo hp h f (merged_nodup fs), saidTo_append, ih, saidTo_append]

/-- Of a merged list, the event to a handle is all that the handle learns. -/
theorem saidTo_of_mem {α : Type} {p : Event → List α} {es : List Event}
    (hn : (es.map handle).Nodup) {e : Event} (he : e ∈ es) : saidTo e.handle p es = p e := by
  induction es with
  | nil => simp at he
  | cons f es ih =>
    rw [List.map_cons, List.nodup_cons] at hn
    rw [saidTo_cons]
    rcases List.mem_cons.1 he with rfl | he
    · rw [if_pos rfl, saidTo_of_not_mem hn.1, List.append_nil]
    · rw [if_neg, List.nil_append, ih hn.2 he]
      intro hf
      exact hn.1 (hf ▸ List.mem_map_of_mem he)

theorem isEmpty_append {e f : Event} :
    (e.append f).isEmpty = (e.isEmpty && f.isEmpty) := by
  unfold isEmpty append
  rw [Bool.eq_iff_iff]
  simp only [Bool.and_eq_true, List.isEmpty_iff, List.append_eq_nil_iff]
  tauto

/-- An event that says something leaves its mark. -/
theorem addTo_ne_self {f : Event} (hf : f.isEmpty = false) (es : List Event) :
    f.addTo es ≠ es := by
  induction es with
  | nil => simp [addTo]
  | cons e es ih =>
    unfold addTo
    split
    next =>
      intro heq
      have he : e.append f = e := (List.cons.inj heq).1
      have hfields : ∀ {α : Type} (p : Event → List α), (∀ e f, p (append e f) = p e ++ p f) →
          p f = [] := fun p hp => List.append_right_eq_self.1 ((hp e f).symm.trans (congrArg p he))
      simp [isEmpty, hfields Event.allocated fun _ _ => rfl,
        hfields Event.allocatedReservations fun _ _ => rfl,
        hfields Event.rejectedReservations fun _ _ => rfl, hfields Event.rejected fun _ _ => rfl,
        hfields Event.preempted fun _ _ => rfl, hfields Event.lost fun _ _ => rfl] at hf
    next => exact fun heq => ih (List.cons.inj heq).2

end Event

/-! ### Effects in a row -/

/-- A reservation is torn down. -/
def tearsDown (e : Option Effect) : Bool := e.any Effect.tornDown

namespace Ledger

variable {now : Time} {l l' : Ledger} {c : Change} {e : Option Effect}

/-- The ledger after changes, one after the other. -/
def through (now : Time) (cs : List Change) (l : Ledger) : Ledger :=
  cs.foldl (fun l c => (l.apply now c).1) l

/-- What changes lead to, one after the other. -/
def course (now : Time) : List Change → Ledger → List (Option Effect)
  | [], _ => []
  | c :: cs, l => (l.apply now c).2 :: course now cs (l.apply now c).1

theorem through_cons (c : Change) (cs : List Change) (l : Ledger) :
    l.through now (c :: cs) = (l.apply now c).1.through now cs := rfl

theorem course_cons (c : Change) (cs : List Change) (l : Ledger) :
    l.course now (c :: cs) = (l.apply now c).2 :: (l.apply now c).1.course now cs := rfl

theorem through_append (cs ds : List Change) (l : Ledger) :
    l.through now (cs ++ ds) = (l.through now cs).through now ds := List.foldl_append

theorem course_append (cs ds : List Change) (l : Ledger) :
    l.course now (cs ++ ds) = l.course now cs ++ (l.through now cs).course now ds := by
  induction cs generalizing l with
  | nil => rfl
  | cons c cs ih =>
    rw [List.cons_append, course_cons, course_cons, ih, List.cons_append, through_cons]

@[simp] theorem length_course (now : Time) (cs : List Change) (l : Ledger) :
    (l.course now cs).length = cs.length := by
  induction cs generalizing l with
  | nil => rfl
  | cons c cs ih =>
    rw [course_cons, List.length_cons, ih, List.length_cons]

theorem mem_course {cs : List Change} (he : e ∈ l.course now cs) :
    ∃ before c rest, cs = before ++ c :: rest ∧ ((l.through now before).apply now c).2 = e := by
  induction cs generalizing l with
  | nil => simp [course] at he
  | cons c cs ih =>
    rw [course_cons] at he
    rcases List.mem_cons.1 he with rfl | he
    · exact ⟨[], c, cs, rfl, rfl⟩
    · obtain ⟨before, d, rest, rfl, hd⟩ := ih he
      exact ⟨c :: before, d, rest, rfl, hd⟩

theorem through_sound (h : l.Sound) (now : Time) (cs : List Change) :
    (l.through now cs).Sound := by
  induction cs generalizing l with
  | nil => exact h
  | cons c cs ih =>
    rw [through_cons]
    exact ih ((apply_applied h now c).sound h)

/-- What is tracked after changes was tracked before them. -/
theorem through_origin (h : l.Sound) {cs : List Change} {id : ReservationId} {s : Reservation}
    (hs : (l.through now cs).get? id = some s) : ∃ r, l.get? id = some r ∧ r.Advances s := by
  induction cs generalizing l with
  | nil => exact ⟨s, hs, .refl s⟩
  | cons c cs ih =>
    have ha := apply_applied h now c
    obtain ⟨t, ht, hts⟩ := ih (ha.sound h) hs
    obtain ⟨r, hr, hrt⟩ := ha.origin h ht
    exact ⟨r, hr, hrt.trans hts⟩

/-- An ignored change alters nothing. -/
theorem Applied.eq_of_ignored (ha : Applied now l c l' none) : l' = l := by
  cases ha <;> rfl

/-- Nobody is told nothing. -/
theorem Applied.isEmpty_eq_false (ha : Applied now l c l' e) :
    ∀ f ∈ noticed e, f.isEmpty = false := by
  cases ha with
  | unknown => simp [noticed]
  | repeated => simp [noticed]
  | illegal => simp [noticed]
  | @reported c r =>
    intro f hf
    rw [show f = .ofStatus r.handle c.resource c.status by simpa [noticed] using hf]
    unfold Event.ofStatus
    split <;> rfl
  | @granted id a r x =>
    intro f hf
    have hf : r.grantEvent now id a x = some f := by simpa [noticed] using hf
    unfold Reservation.grantEvent at hf
    split at hf
    next =>
      rw [← Option.some.inj hf]
      simp [Event.isEmpty]
    next =>
      split at hf
      next => simp at hf
      next =>
        rw [← Option.some.inj hf]
        rfl
  | @tornDown c r b =>
    intro f hf
    rw [show f = _ by simpa [noticed, Reservation.tearDown] using hf]
    cases b <;> rfl

/-! ### The outcome of a batch -/

/-- The outcome of a batch that leads to `l` on this course. -/
def Batch.ofCourse (l : Ledger) (es : List (Option Effect)) : Batch where
  ledger := l
  events := Event.merged (es.flatMap noticed)
  toRelease := es.flatMap givenUp
  applied := es.countP Option.isSome
  ignored := es.countP Option.isNone
  tornDown := es.countP tearsDown

theorem Batch.step_ofCourse (now : Time) (l : Ledger) (es : List (Option Effect)) (c : Change) :
    (ofCourse l es).step now c = ofCourse (l.apply now c).1 (es ++ [(l.apply now c).2]) := by
  unfold step ofCourse
  dsimp only
  cases he : (l.apply now c).2 with
  | none => simp [note, noticed, givenUp, tearsDown]
  | some x =>
    cases hx : x.event with
    | none =>
      cases ht : x.tornDown <;> simp [note, noticed, givenUp, tearsDown, hx, ht]
    | some f =>
      cases ht : x.tornDown <;> simp [note, noticed, givenUp, tearsDown, hx, ht]

theorem midway_eq (now : Time) (cs : List Change) (l : Ledger) :
    l.midway now cs = .ofCourse (l.through now cs) (l.course now cs) := by
  have hfold : ∀ (cs : List Change) (m : Ledger) (es : List (Option Effect)),
      cs.foldl (Batch.step now) (.ofCourse m es) =
        .ofCourse (m.through now cs) (es ++ m.course now cs) := by
    intro cs
    induction cs with
    | nil =>
      intro m es
      rw [course, List.append_nil]
      rfl
    | cons c cs ih =>
      intro m es
      rw [List.foldl_cons, Batch.step_ofCourse, ih, List.append_assoc]
      rfl
  exact hfold cs l []

theorem reconcile_through (now : Time) (cs : List Change) (l : Ledger) :
    (l.reconcile now cs).ledger = l.through now cs := by
  rw [reconcile_ledger, midway_eq]
  rfl

/-- No event says nothing, so none is left out. -/
theorem reconcile_eq (h : l.Sound) (now : Time) (cs : List Change) :
    l.reconcile now cs = .ofCourse (l.through now cs) (l.course now cs) := by
  have hall : ∀ e ∈ Event.merged ((l.course now cs).flatMap noticed), e.isEmpty = false := by
    refine Event.forall_merged (fun {e f} he _ => by simp [Event.isEmpty_append, he]) ?_
    intro f hf
    obtain ⟨e, he, hf⟩ := List.mem_flatMap.1 hf
    obtain ⟨before, c, -, -, rfl⟩ := mem_course he
    exact (apply_applied (through_sound h now before) now c).isEmpty_eq_false f hf
  have hm := midway_eq now cs l
  unfold midway at hm
  unfold reconcile
  rw [hm]
  unfold Batch.ofCourse
  dsimp only
  rw [List.filter_eq_self.2 fun e he => by simp [hall e he]]

/-! ### Batches of allocations -/

theorem Applied.rejects_nothing (ha : Applied now l c l' e) (hc : c.status = .allocated) :
    ∀ f ∈ noticed e, f.rejectedReservations = [] := by
  cases ha with
  | unknown | repeated | illegal => simp [noticed]
  | reported _ _ hv =>
    rw [hc] at hv
    simp [Verdict.of] at hv
  | tornDown _ _ hv =>
    rw [hc] at hv
    simp [Verdict.of] at hv
  | granted =>
    intro f hf
    simp only [noticed, Option.bind_some, Reservation.grantEvent] at hf
    split at hf
    next =>
      rw [List.mem_singleton.1 hf]
    next =>
      split at hf
      next => simp at hf
      next => rw [List.mem_singleton.1 hf]

/-- Nobody is told of a rejection because of allocations. -/
theorem reconcile_rejects_nothing (h : l.Sound) (now : Time) {cs : List Change}
    (hcs : ∀ c ∈ cs, c.status = .allocated) :
    ∀ e ∈ (l.reconcile now cs).events, e.rejectedReservations = [] := by
  rw [reconcile_eq h]
  refine Event.forall_merged (fun {e f} he hf => ?_) fun f hf => ?_
  · simp [Event.append, he, hf]
  · obtain ⟨e, he, hf⟩ := List.mem_flatMap.1 hf
    obtain ⟨before, c, rest, rfl, rfl⟩ := mem_course he
    have ha := apply_applied (through_sound h now before) now c
    exact ha.rejects_nothing (hcs c (List.mem_append_right _ (List.mem_cons_self ..))) f hf

end Ledger

end ClusterBroker
