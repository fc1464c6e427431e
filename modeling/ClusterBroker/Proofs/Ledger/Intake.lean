import ClusterBroker.Proofs.Ledger.Reporting

/-!
# Batches as they are taken in

A batch that a ledger takes in is sent out as one event per handle. The changes of the batch are
followed one by one here, with the events that they lead to by themselves; merging these for
their handles, and leaving out those that say nothing, alters nothing that is said of one
reservation. So what is told of a reservation along a path of batches follows from the changes
that reached it.
-/
namespace ClusterBroker

/-! ### Merging -/

/-- Two lists of events say the same of a reservation. -/
structure SameNews (id : ReservationId) (es fs : List Event) : Prop where
  reported : reported id es = reported id fs
  allocated : (allocatedIn es).count id = (allocatedIn fs).count id
  rejected : (rejectedIn es).count id = (rejectedIn fs).count id

theorem SameNews.refl (id : ReservationId) (es : List Event) : SameNews id es es :=
  ⟨rfl, rfl, rfl⟩

theorem SameNews.append {id : ReservationId} {es fs es' fs' : List Event} (h : SameNews id es fs)
    (h' : SameNews id es' fs') : SameNews id (es ++ es') (fs ++ fs') := by
  constructor
  · rw [reported_append, reported_append, h.reported, h'.reported]
  · rw [allocatedIn_append, allocatedIn_append, List.count_append, List.count_append, h.allocated,
      h'.allocated]
  · rw [rejectedIn_append, rejectedIn_append, List.count_append, List.count_append, h.rejected,
      h'.rejected]

theorem Reported.congr {r : Reservation} {g : List Resource} {es fs : List Event}
    (h : Reported r g es) (hs : SameNews r.id es fs) : Reported r g fs := by
  constructor
  · rw [← hs.reported]
    exact h.gang
  · rw [← hs.reported]
    exact h.single
  · rw [← hs.allocated]
    exact h.allocated
  · rw [← List.count_pos_iff, ← hs.rejected, List.count_pos_iff, ← hs.reported]
    exact h.rejected
  · rw [← hs.allocated, ← hs.rejected]
    exact h.once

theorem Stands.congr {r : Reservation} {g : List Resource} {es fs : List Event} {l : Ledger}
    (h : Stands r g es l) (hs : SameNews r.id es fs) : Stands r g fs l := by
  cases h with
  | tracked hr hc hres hn =>
    refine .tracked hr hc hres ?_
    rwa [← List.count_eq_zero, ← hs.rejected, List.count_eq_zero]
  | gone hr => exact .gone hr

theorem addressed_nil (r : Reservation) : Addressed r [] := ⟨List.nodup_nil, nofun⟩

theorem mem_handles_addTo {f : Event} {es : List Event} {h : HandleId}
    (hm : h ∈ (f.addTo es).map Event.handle) : h = f.handle ∨ h ∈ es.map Event.handle := by
  induction es with
  | nil =>
    left
    simpa [Event.addTo] using hm
  | cons e es ih =>
    unfold Event.addTo at hm
    split at hm
    next =>
      right
      exact hm
    next =>
      rw [List.map_cons, List.mem_cons] at hm
      rcases hm with rfl | hm
      · right
        exact List.mem_cons_self ..
      · rcases ih hm with rfl | hm
        · exact .inl rfl
        · exact .inr (List.mem_cons_of_mem _ hm)

theorem Event.mentions_append {id : ReservationId} {e f : Event} :
    (e.append f).Mentions id ↔ e.Mentions id ∨ f.Mentions id := by
  simp only [Mentions, settled, append, List.mem_append]
  constructor
  · rintro (((h | h) | (h | h)) | ⟨x, hx | hx, hid⟩)
    · exact .inl (.inl (.inl h))
    · exact .inr (.inl (.inl h))
    · exact .inl (.inl (.inr h))
    · exact .inr (.inl (.inr h))
    · exact .inl (.inr ⟨x, hx, hid⟩)
    · exact .inr (.inr ⟨x, hx, hid⟩)
  · rintro (((h | h) | ⟨x, hx, hid⟩) | ((h | h) | ⟨x, hx, hid⟩))
    · exact .inl (.inl (.inl h))
    · exact .inl (.inr (.inl h))
    · exact .inr ⟨x, .inl hx, hid⟩
    · exact .inl (.inl (.inr h))
    · exact .inl (.inr (.inr h))
    · exact .inr ⟨x, .inr hx, hid⟩

theorem Addressed.tail {r : Reservation} {e : Event} {es : List Event}
    (h : Addressed r (e :: es)) : Addressed r es :=
  ⟨(List.nodup_cons.1 h.nodup).2, fun f hf => h.own f (List.mem_cons_of_mem e hf)⟩

theorem Addressed.addTo {r : Reservation} {es : List Event} (h : Addressed r es) {f : Event}
    (hf : f.Mentions r.id → f.handle = r.handle) : Addressed r (f.addTo es) := by
  induction es with
  | nil =>
    constructor
    · exact List.nodup_singleton _
    · intro e he
      rw [List.mem_singleton.1 he]
      exact hf
  | cons e es ih =>
    unfold Event.addTo
    split
    next heq =>
      constructor
      · exact h.nodup
      · intro g hg
        rcases List.mem_cons.1 hg with rfl | hg
        · intro hm
          rcases Event.mentions_append.1 hm with hm | hm
          · exact h.own e (List.mem_cons_self ..) hm
          · exact heq.trans (hf hm)
        · exact h.tail.own g hg
    next hne =>
      have hrest := ih h.tail
      constructor
      · rw [List.map_cons, List.nodup_cons]
        refine ⟨fun hm => ?_, hrest.nodup⟩
        rcases mem_handles_addTo hm with heq | hm
        · exact hne heq
        · exact (List.nodup_cons.1 h.nodup).1 hm
      · intro g hg
        rcases List.mem_cons.1 hg with rfl | hg
        · exact h.own g (List.mem_cons_self ..)
        · exact hrest.own g hg

/-- Only one event of a merged list can mention the reservation. -/
theorem Addressed.reported_tail {r : Reservation} {e : Event} {es : List Event}
    (h : Addressed r (e :: es)) (he : e.handle = r.handle) : reported r.id es = [] := by
  apply reported_of_not_mentions
  intro f hf hm
  apply (List.nodup_cons.1 h.nodup).1
  rw [he, ← h.own f (List.mem_cons_of_mem e hf) hm]
  exact List.mem_map_of_mem hf

theorem Addressed.reported_addTo {r : Reservation} {es : List Event} (h : Addressed r es)
    {f : Event} (hf : f.Mentions r.id → f.handle = r.handle) :
    reported r.id (f.addTo es) = reported r.id (es ++ [f]) := by
  induction es with
  | nil => rfl
  | cons e es ih =>
    unfold Event.addTo
    split
    next heq =>
      have happ : reported r.id (e.append f :: es) =
          reported r.id [e] ++ reported r.id [f] ++ reported r.id es := by
        simp [Event.append]
      have hall : reported r.id (e :: es ++ [f]) =
          reported r.id [e] ++ (reported r.id es ++ reported r.id [f]) := by
        simp
      rw [happ, hall, List.append_assoc]
      congr 1
      by_cases hm : f.Mentions r.id
      · rw [h.reported_tail (heq.trans (hf hm)), List.append_nil, List.nil_append]
      · rw [Event.reported_of_not_mentions hm, List.append_nil, List.nil_append]
    next => rw [reported_cons, List.cons_append, reported_cons, ih h.tail]

/-- What an event lists is listed by the merged event, up to order. -/
theorem count_flatMap_addTo {α : Type} [BEq α] (p : Event → List α)
    (hp : ∀ e f, p (Event.append e f) = p e ++ p f) (f : Event) (es : List Event) (a : α) :
    ((f.addTo es).flatMap p).count a = ((es ++ [f]).flatMap p).count a := by
  induction es with
  | nil => rfl
  | cons e es ih =>
    unfold Event.addTo
    split
    · simp only [List.flatMap_cons, List.cons_append, List.flatMap_append, List.flatMap_nil, hp,
        List.count_append, List.append_nil]
      omega
    · simp only [List.flatMap_cons, List.cons_append, List.count_append, ih]

theorem Addressed.sameNews_addTo {r : Reservation} {es : List Event} (h : Addressed r es)
    {f : Event} (hf : f.Mentions r.id → f.handle = r.handle) :
    SameNews r.id (es ++ [f]) (f.addTo es) := by
  constructor
  · rw [h.reported_addTo hf]
  · exact (count_flatMap_addTo Event.allocatedReservations (fun _ _ => rfl) f es r.id).symm
  · exact (count_flatMap_addTo Event.rejectedReservations (fun _ _ => rfl) f es r.id).symm

theorem Event.not_mentions_of_isEmpty {e : Event} (h : e.isEmpty = true) (id : ReservationId) :
    ¬ e.Mentions id := by
  have hset := Event.settled_eq_nil h
  have hal : e.allocated = [] := by
    unfold isEmpty at h
    simp only [Bool.and_eq_true, List.isEmpty_iff] at h
    exact h.1.1.1.1.1
  unfold Mentions
  rw [hset, hal]
  simp

theorem sameNews_filter (id : ReservationId) (es : List Event) :
    SameNews id es (es.filter fun e => !e.isEmpty) := by
  induction es with
  | nil => exact .refl id []
  | cons e es ih =>
    cases he : e.isEmpty with
    | true =>
      rw [List.filter_cons_of_neg (by simp [he])]
      have hn : ∀ f ∈ [e], ¬ f.Mentions id := by
        intro f hf
        rw [List.mem_singleton.1 hf]
        exact Event.not_mentions_of_isEmpty he id
      have hone : SameNews id [e] [] := by
        constructor
        · exact reported_of_not_mentions hn
        · exact List.count_eq_zero_of_not_mem (allocatedIn_of_not_mentions hn)
        · exact List.count_eq_zero_of_not_mem (rejectedIn_of_not_mentions hn)
      exact hone.append ih
    | false =>
      rw [List.filter_cons_of_pos (by simp [he])]
      exact (SameNews.refl id [e]).append ih

theorem Addressed.filter {r : Reservation} {es : List Event} (h : Addressed r es)
    (p : Event → Bool) : Addressed r (es.filter p) :=
  ⟨h.nodup.sublist (List.filter_sublist.map Event.handle),
    fun e he => h.own e (List.mem_of_mem_filter he)⟩

/-- What a merged list says of the reservation is said by the one event that mentions it. -/
theorem Addressed.reported_eq {r : Reservation} {es : List Event} (h : Addressed r es) {e : Event}
    (he : e ∈ es) (hm : e.Mentions r.id) : reported r.id [e] = reported r.id es := by
  induction es with
  | nil => simp at he
  | cons f es ih =>
    have hsplit : reported r.id (f :: es) = reported r.id [f] ++ reported r.id es :=
      reported_append r.id [f] es
    rw [hsplit]
    rcases List.mem_cons.1 he with rfl | he'
    · rw [h.reported_tail (h.own e he hm), List.append_nil]
    · have hf : ¬ f.Mentions r.id := by
        intro hf
        apply (List.nodup_cons.1 h.nodup).1
        rw [h.own f (List.mem_cons_self ..) hf, ← h.own e he hm]
        exact List.mem_map_of_mem he'
      rw [Event.reported_of_not_mentions hf, List.nil_append]
      exact ih h.tail he'

/-- The event that reports the reservation as allocated comes when the last resource is granted. It
lists the whole of a gang; of any other reservation it lists what was not listed before. -/
theorem Reported.completion {r : Reservation} {g g' : List Resource} {es fs : List Event}
    (h : Reported r g es) (h' : Reported r g' (es ++ fs)) (ha : Addressed r fs) {e : Event}
    (he : e ∈ fs) (hid : r.id ∈ e.allocatedReservations) :
    ¬ r.Complete g ∧ r.Complete g' ∧ (r.gang = true → reported r.id [e] = r.filled g') ∧
      (r.gang = false → g ++ reported r.id [e] = g') := by
  have hpos : 0 < (allocatedIn fs).count r.id :=
    List.count_pos_iff.2 (List.mem_flatMap.2 ⟨e, he, hid⟩)
  have hcount := h'.allocated
  rw [allocatedIn_append, List.count_append, h.allocated] at hcount
  have hg : ¬ r.Complete g := by
    intro hc
    rw [if_pos hc] at hcount
    split at hcount <;> omega
  have hg' : r.Complete g' := by
    by_contra hc
    rw [if_neg hc] at hcount
    omega
  rw [ha.reported_eq he (.inl (List.mem_append_left _ hid))]
  refine ⟨hg, hg', fun hgang => ?_, fun hgang => ?_⟩
  · have hbefore := h.gang hgang
    have hafter := h'.gang hgang
    rw [if_neg hg] at hbefore
    rwa [if_pos hg', reported_append, hbefore, List.nil_append] at hafter
  · rw [← h.single hgang, ← reported_append]
    exact h'.single hgang

/-! ### Through a batch -/

namespace Ledger

/-- The changes of a batch that come while a reservation is tracked. -/
def reaching (now : Time) (id : ReservationId) : List Change → Ledger → List Change
  | [], _ => []
  | c :: cs, l => l.reaches id c ++ reaching now id cs (l.apply now c).1

variable {now : Time} {l : Ledger} {r : Reservation}

/-- The middle of a batch: `b` has taken in the changes so far, and `es` was told before. -/
structure Underway (r : Reservation) (cs : List Change) (es : List Event) (b : Batch) : Prop where
  sound : b.ledger.Sound
  addressed : Addressed r b.events
  stands : Stands r (r.granted cs) (es ++ b.events) b.ledger
  reported : Reported r (r.granted cs) (es ++ b.events)

theorem Underway.step (now : Time) (hr : r.Fresh) {cs : List Change} {es : List Event} {b : Batch}
    (h : Underway r cs es b) (c : Change) :
    Underway r (cs ++ b.ledger.reaches r.id c) es (b.step now c) := by
  have ha := apply_applied h.sound now c
  obtain ⟨hst, hre⟩ := ha.stands hr h.sound h.stands h.reported
  have hown : ∀ f ∈ noticed (b.ledger.apply now c).2, f.Mentions r.id → f.handle = r.handle := by
    intro f hf hm
    obtain ⟨s, hs, -, hh⟩ := ha.mentions h.sound hf hm
    cases h.stands with
    | tracked ht hcl =>
      rw [hs] at ht
      rw [hh, Option.some.inj ht]
      exact (Reservation.claim_eq_iff.1 hcl).2.1
    | gone ht =>
      rw [hs] at ht
      simp at ht
  have hmerge : Addressed r (b.step now c).events ∧
      SameNews r.id (b.events ++ noticed (b.ledger.apply now c).2) (b.step now c).events := by
    revert hown
    unfold Batch.step Batch.note noticed
    cases (b.ledger.apply now c).2 with
    | none =>
      intro _
      refine ⟨h.addressed, ?_⟩
      simpa using SameNews.refl r.id b.events
    | some e =>
      cases hev : e.event with
      | none =>
        intro _
        refine ⟨by simpa [hev] using h.addressed, ?_⟩
        simpa [hev] using SameNews.refl r.id b.events
      | some f =>
        intro hown
        have hf := hown f (by simp [hev])
        refine ⟨by simpa [hev] using h.addressed.addTo hf, ?_⟩
        simpa [hev] using h.addressed.sameNews_addTo hf
  have hnews := (SameNews.refl r.id es).append hmerge.2
  rw [← List.append_assoc] at hnews
  constructor
  · rw [Batch.step_ledger]
    exact ha.sound h.sound
  · exact hmerge.1
  · rw [Batch.step_ledger]
    exact hst.congr hnews
  · exact hre.congr hnews

theorem Underway.foldl (now : Time) (hr : r.Fresh) (more : List Change)
    {cs : List Change} {es : List Event}
    {b : Batch} (h : Underway r cs es b) :
    Underway r (cs ++ reaching now r.id more b.ledger) es (more.foldl (Batch.step now) b) := by
  induction more generalizing cs b with
  | nil =>
    unfold reaching
    rw [List.append_nil]
    exact h
  | cons c more ih =>
    have hstep := ih (h.step now hr c)
    rw [List.foldl_cons]
    rw [Batch.step_ledger, List.append_assoc] at hstep
    exact hstep

end Ledger

/-- A batch that is taken in, and the ledger that takes it in. -/
structure Intake where
  clock : Time
  changes : List Change
  ledger : Ledger

namespace Intake

/-- What is sent out. -/
def events (x : Intake) : List Event := (x.ledger.reconcile x.clock x.changes).events

/-- The ledger afterwards. -/
def after (x : Intake) : Ledger := (x.ledger.reconcile x.clock x.changes).ledger

/-- The changes that come while the reservation is tracked. -/
def reaching (id : ReservationId) (x : Intake) : List Change :=
  x.ledger.reaching x.clock id x.changes

end Intake

/-- The ledger, what the reservation was granted by these changes and what its owner was told are
in step. -/
structure InStep (r : Reservation) (cs : List Change) (es : List Event) (l : Ledger) : Prop where
  sound : l.Sound
  stands : Stands r (r.granted cs) es l
  reported : Reported r (r.granted cs) es

theorem InStep.intake {r : Reservation} (hr : r.Fresh) {x : Intake} {cs : List Change}
    {es : List Event} (h : InStep r cs es x.ledger) :
    InStep r (cs ++ x.reaching r.id) (es ++ x.events) x.after ∧ Addressed r x.events := by
  have hstart : Ledger.Underway r cs es { ledger := x.ledger } :=
    ⟨h.sound, addressed_nil r, by simpa using h.stands, by simpa using h.reported⟩
  have hend := hstart.foldl x.clock hr x.changes
  have hnews := (SameNews.refl r.id es).append (sameNews_filter r.id
    (x.changes.foldl (Ledger.Batch.step x.clock) { ledger := x.ledger }).events)
  exact ⟨⟨hend.sound, hend.stands.congr hnews, hend.reported.congr hnews⟩,
    hend.addressed.filter _⟩

/-! ### Along a path of batches -/

/-- Batches one after the other; in between the ledger may change, but not at this id. -/
inductive Path (id : ReservationId) : Ledger → List Intake → Ledger → Prop
  | done (l : Ledger) : Path id l [] l
  | intake {x : Intake} {xs : List Intake} {m : Ledger} :
      Path id x.after xs m → Path id x.ledger (x :: xs) m
  | aside {l l' m : Ledger} {xs : List Intake} :
      l'.Sound → l'.get? id = l.get? id → Path id l' xs m → Path id l xs m

theorem Path.append {id : ReservationId} {l m n : Ledger} {xs ys : List Intake}
    (h : Path id l xs m) (h' : Path id m ys n) : Path id l (xs ++ ys) n := by
  induction h with
  | done => exact h'
  | intake _ ih => exact .intake (ih h')
  | aside hs hg _ ih => exact .aside hs hg (ih h')

theorem Path.split {id : ReservationId} {l m : Ledger} {xs ys : List Intake}
    (h : Path id l (xs ++ ys) m) : ∃ n, Path id l xs n ∧ Path id n ys m := by
  generalize hz : xs ++ ys = zs at h
  induction h generalizing xs with
  | done l =>
    obtain ⟨rfl, rfl⟩ := List.append_eq_nil_iff.1 hz
    exact ⟨l, .done l, .done l⟩
  | @intake x zs m hp ih =>
    cases xs with
    | nil =>
      rw [List.nil_append] at hz
      rw [hz]
      exact ⟨x.ledger, .done _, .intake hp⟩
    | cons y xs =>
      rw [List.cons_append, List.cons.injEq] at hz
      obtain ⟨rfl, hz⟩ := hz
      obtain ⟨n, hn, hn'⟩ := ih hz
      exact ⟨n, .intake hn, hn'⟩
  | aside hs hg _ ih =>
    obtain ⟨n, hn, hn'⟩ := ih hz
    exact ⟨n, .aside hs hg hn, hn'⟩

theorem InStep.path {r : Reservation} (hr : r.Fresh) {l m : Ledger} {xs : List Intake}
    (hp : Path r.id l xs m) {cs : List Change} {es : List Event} (h : InStep r cs es l) :
    InStep r (cs ++ xs.flatMap (Intake.reaching r.id)) (es ++ xs.flatMap Intake.events) m ∧
      ∀ x ∈ xs, Addressed r x.events := by
  induction hp generalizing cs es with
  | done l => exact ⟨by simpa using h, nofun⟩
  | @intake x xs m _ ih =>
    obtain ⟨hx, had⟩ := h.intake hr
    obtain ⟨hrest, hads⟩ := ih hx
    refine ⟨?_, ?_⟩
    · rw [List.flatMap_cons, List.flatMap_cons, ← List.append_assoc, ← List.append_assoc]
      exact hrest
    · intro y hy
      rcases List.mem_cons.1 hy with rfl | hy
      · exact had
      · exact hads y hy
  | aside hs hg _ ih => exact ih ⟨hs, h.stands.of_get? hg, h.reported⟩

end ClusterBroker
