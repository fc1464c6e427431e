import ClusterBroker.Proofs.Ledger.Sound

/-!
# What a change does to a ledger

`Applied` lists everything that one reported change can do to a sound ledger: three reasons to
be ignored and three effects. No case is an index entry without a reservation, or a reservation
without the indexed resource. What holds of every change is read off the list: soundness is
kept, reservations only advance or leave, and a reservation that stops waiting for allocations
is named exactly once in the event that tells its owner.
-/
namespace ClusterBroker

/-! ### Effects -/

/-- What the owner learns from an allocation. -/
def Reservation.grantEvent (now : Time) (id : ResourceId) (a : Allocation) (x : Resource)
    (r : Reservation) : Option Event :=
  if (r.grant now id a).status = .allocated then
    some { handle := r.handle
           allocated := if r.gang then (r.grant now id a).resources else [x.allocate a]
           allocatedReservations := [r.id] }
  else if r.gang then none else some { handle := r.handle, allocated := [x.allocate a] }

/-- What follows from tearing a reservation down because of one resource. -/
def Reservation.tearDown (id : ResourceId) (reportResource : Bool) (r : Reservation) : Effect where
  event := some (if reportResource then
    { Event.rejection r.handle r.id with rejected := [id] } else .rejection r.handle r.id)
  toRelease := r.resources.filter fun x => x.id ≠ id
  tornDown := true

/-- The reservations that an event reports as allocated or rejected. -/
def Event.settled (e : Event) : List ReservationId :=
  e.allocatedReservations ++ e.rejectedReservations

def Effect.settled (e : Effect) : List ReservationId := (e.event.map Event.settled).getD []

/-- A reservation that still waits for allocations. -/
def Reservation.isOpen (r : Reservation) : Bool := r.status = .pending ∨ r.status = .partly

namespace Ledger

def isOpen (l : Ledger) (id : ReservationId) : Bool := (l.get? id).any Reservation.isOpen

/-- `Applied now l c l' e`: the change `c` at `now` takes `l` to `l'` with effect `e`. -/
inductive Applied (now : Time) (l : Ledger) : Change → Ledger → Option Effect → Prop
  | unknown {c : Change} : l.index.get? c.resource = none → Applied now l c l none
  | repeated {id : ResourceId} {a : Allocation} {r : Reservation} {x : Resource} :
      l.get? r.id = some r → r.resource? id = some x → x.isAllocated = true →
      Applied now l (.allocated id a) l none
  | illegal {c : Change} {r : Reservation} :
      l.get? r.id = some r → c.resource ∈ r.resourceIds → c.status ≠ .allocated →
      Verdict.of c.status r.status r.gang = .illegal → Applied now l c l none
  | granted {id : ResourceId} {a : Allocation} {r : Reservation} {x : Resource} :
      l.get? r.id = some r → r.resource? id = some x → x.isAllocated = false →
      Applied now l (.allocated id a) (l.update (r.grant now id a))
        (some { event := r.grantEvent now id a x })
  | reported {c : Change} {r : Reservation} :
      l.get? r.id = some r → c.resource ∈ r.resourceIds →
      Verdict.of c.status r.status r.gang = .report →
      Applied now l c l (some { event := some (.ofStatus r.handle c.resource c.status) })
  | tornDown {c : Change} {r : Reservation} {reportResource : Bool} :
      l.get? r.id = some r → c.resource ∈ r.resourceIds →
      Verdict.of c.status r.status r.gang = .tearDown reportResource →
      Applied now l c (l.drop r) (some (r.tearDown c.resource reportResource))

theorem applyAllocated_eq {now : Time} {id : ResourceId} {a : Allocation} {r : Reservation}
    {x : Resource} (l : Ledger) (hx : r.resource? id = some x) (hn : x.isAllocated = false) :
    l.applyAllocated now id a r =
      (l.update (r.grant now id a), some { event := r.grantEvent now id a x }) := by
  unfold applyAllocated Reservation.grantEvent
  by_cases hall : (r.modifyResource id (Resource.allocate · a)).allAllocated = true
  · rw [Reservation.grant_of_all now id a hall]
    simp only [hx, hn, hall]
    rfl
  · rw [Reservation.grant_of_not_all now id a hall]
    simp only [hx, hn, hall]
    rfl

/-- Tearing down changes the status of the resource in question only, and that one is not given
back. -/
theorem filter_modifyFirst (id : ResourceId) {f : Resource → Resource}
    (hf : ∀ x, (f x).id = x.id) (l : List Resource) :
    (modifyFirst (fun x => x.id = id) f l).filter (fun x => x.id ≠ id) =
      l.filter fun x => x.id ≠ id := by
  induction l with
  | nil => rfl
  | cons x r ih =>
    unfold modifyFirst
    by_cases hx : x.id = id
    · simp [hx, hf]
    · rw [if_neg (by simpa using hx), List.filter_cons_of_pos (by simpa using hx),
        List.filter_cons_of_pos (by simpa using hx), ih]

theorem applyTearDown_eq (id : ResourceId) (kind : Resource.Status) (reportResource : Bool)
    (r : Reservation) (l : Ledger) : l.applyTearDown id kind reportResource r =
      (l.drop r, some (r.tearDown id reportResource)) := by
  have hf := filter_modifyFirst id (f := fun x => { x with status := kind }) (fun _ => rfl)
    r.resources
  unfold applyTearDown Reservation.tearDown
  rw [← hf]
  rfl

theorem applyNegative_applied {now : Time} {l : Ledger} {c : Change} {r : Reservation}
    (hr : l.get? r.id = some r) (hc : c.resource ∈ r.resourceIds) (hn : c.status ≠ .allocated) :
    Applied now l c (l.applyNegative c.resource c.status r).1
      (l.applyNegative c.resource c.status r).2 := by
  unfold applyNegative
  split
  next h => exact .illegal hr hc hn h
  next h => exact .reported hr hc h
  next h =>
    rw [applyTearDown_eq]
    exact .tornDown hr hc h

theorem apply_applied {l : Ledger} (h : l.Sound) (now : Time) (c : Change) :
    Applied now l c (l.apply now c).1 (l.apply now c).2 := by
  unfold apply
  cases hi : l.index.get? c.resource with
  | none => exact .unknown hi
  | some rid =>
    obtain ⟨r, x, hr, rfl, hx⟩ := h.lookup hi
    obtain ⟨hxr, hxid⟩ := Reservation.mem_of_resource? hx
    have hc : c.resource ∈ r.resourceIds := hxid ▸ List.mem_map_of_mem hxr
    simp only [hr]
    cases c with
    | allocated id a =>
      have hx : r.resource? id = some x := hx
      cases ha : x.isAllocated with
      | true =>
        have hskip : l.applyAllocated now id a r = (l, none) := by
          unfold applyAllocated
          simp [hx, ha]
        simp only [hskip]
        exact .repeated hr hx ha
      | false =>
        simp only [applyAllocated_eq l hx ha]
        exact .granted hr hx ha
    | rejected id => exact applyNegative_applied (c := .rejected id) hr hc nofun
    | preempted id => exact applyNegative_applied (c := .preempted id) hr hc nofun
    | lost id => exact applyNegative_applied (c := .lost id) hr hc nofun

/-! ### What every change keeps -/

variable {now : Time} {l l' : Ledger} {c : Change} {e : Option Effect}

theorem Applied.sound (h : l.Sound) (ha : Applied now l c l' e) : l'.Sound := by
  cases ha with
  | unknown => exact h
  | repeated => exact h
  | illegal => exact h
  | reported => exact h
  | @granted id a r x hr hx _ =>
    obtain ⟨hxr, rfl⟩ := Reservation.mem_of_resource? hx
    exact h.update hr ((h.sound hr).grant now a (List.mem_map_of_mem hxr))
      (Reservation.grant_claim (h.sound hr) now x.id a)
  | tornDown hr => exact h.drop hr

/-- What is tracked after a change was tracked before it and has not gone back. -/
theorem Applied.origin (h : l.Sound) (ha : Applied now l c l' e) {id : ReservationId}
    {s : Reservation} (hs : l'.get? id = some s) : ∃ r, l.get? id = some r ∧ r.Advances s := by
  cases ha with
  | unknown => exact ⟨s, hs, .refl s⟩
  | repeated => exact ⟨s, hs, .refl s⟩
  | illegal => exact ⟨s, hs, .refl s⟩
  | reported => exact ⟨s, hs, .refl s⟩
  | @granted rid a r x hr hx hn =>
    obtain ⟨hxr, rfl⟩ := Reservation.mem_of_resource? hx
    have hsound := h.sound hr
    rw [get?_update, Reservation.grant_id hsound] at hs
    split at hs
    next he =>
      subst he
      rw [← Option.some.inj hs]
      exact ⟨r, hr, hsound.advances_grant now a hxr hn⟩
    next => exact ⟨s, hs, .refl s⟩
  | tornDown hr =>
    rw [get?_drop] at hs
    split at hs
    next => simp at hs
    next => exact ⟨s, hs, .refl s⟩

/-- A change about another resource leaves a reservation as it is. -/
theorem Applied.get?_of_not_mem (h : l.Sound) (ha : Applied now l c l' e) {s : Reservation}
    (hs : l.get? s.id = some s) (hn : c.resource ∉ s.resourceIds) : l'.get? s.id = some s := by
  have hother : ∀ {r : Reservation}, l.get? r.id = some r → c.resource ∈ r.resourceIds →
      r.id ≠ s.id := by
    intro r hr hc he
    rw [he, hs] at hr
    exact hn (Option.some.inj hr ▸ hc)
  cases ha with
  | unknown => exact hs
  | repeated => exact hs
  | illegal => exact hs
  | reported => exact hs
  | @granted rid a r x hr hx _ =>
    obtain ⟨hxr, rfl⟩ := Reservation.mem_of_resource? hx
    rw [get?_update, Reservation.grant_id (h.sound hr),
      if_neg (hother hr (List.mem_map_of_mem hxr))]
    exact hs
  | tornDown hr hc =>
    rw [get?_drop, if_neg (hother hr hc)]
    exact hs

theorem Verdict.isOpen_of_tearDown {kind : Resource.Status} {r : Reservation} {b : Bool}
    (h : Verdict.of kind r.status r.gang = .tearDown b) : r.isOpen = true := by
  unfold Reservation.isOpen
  revert h
  cases kind <;> cases r.status <;> cases r.gang <;> simp [Verdict.of]

theorem Reservation.Sound.isOpen_iff {r : Reservation} (h : r.Sound) :
    r.isOpen = true ↔ r.status ≠ .allocated := by
  unfold Reservation.isOpen
  rcases h.status_cases with hs | hs | hs <;> simp [hs]

theorem isOpen_of_get? {id : ReservationId} {r : Reservation} (h : l.get? id = some r) :
    l.isOpen id = r.isOpen := by
  unfold isOpen
  rw [h]
  rfl

theorem isOpen_update (r : Reservation) (id : ReservationId) :
    (l.update r).isOpen id = if r.id = id then r.isOpen else l.isOpen id := by
  unfold isOpen
  rw [get?_update]
  split <;> rfl

theorem isOpen_drop (r : Reservation) (id : ReservationId) :
    (l.drop r).isOpen id = if r.id = id then false else l.isOpen id := by
  unfold isOpen
  rw [get?_drop]
  split <;> rfl

theorem isOpen_add (r : Reservation) (id : ReservationId) :
    (l.add r).isOpen id = if r.id = id then r.isOpen else l.isOpen id := by
  unfold isOpen
  rw [get?_add]
  split <;> rfl

def settledBy (e : Option Effect) : List ReservationId := (e.map Effect.settled).getD []

/-- A reservation is reported as allocated or rejected exactly when it stops waiting. -/
theorem Applied.settled (h : l.Sound) (ha : Applied now l c l' e) (id : ReservationId) :
    (settledBy e).count id + (l'.isOpen id).toNat = (l.isOpen id).toNat := by
  cases ha with
  | unknown => simp [settledBy]
  | repeated => simp [settledBy]
  | illegal => simp [settledBy]
  | @reported c r hr hc hv =>
    have hs : (Event.ofStatus r.handle c.resource c.status).settled = [] := by
      unfold Event.ofStatus
      split <;> rfl
    simp [settledBy, Effect.settled, hs]
  | @granted rid a r x hr hx hn =>
    obtain ⟨hxr, rfl⟩ := Reservation.mem_of_resource? hx
    have hsound := h.sound hr
    have hopen : r.isOpen = true := by
      rw [Reservation.Sound.isOpen_iff hsound]
      intro hs
      rw [hsound.allocated_iff.1 hs x hxr] at hn
      simp at hn
    rw [isOpen_update, Reservation.grant_id hsound]
    rcases Reservation.grant_status_cases hsound now x.id a with ⟨hs, -⟩ | ⟨hs, -⟩
    · have hset : settledBy (some { event := r.grantEvent now x.id a x }) = [r.id] := by
        simp [settledBy, Effect.settled, Event.settled, Reservation.grantEvent, hs]
      have hshut : (r.grant now x.id a).isOpen = false := by simp [Reservation.isOpen, hs]
      rw [hset, hshut]
      by_cases hid : r.id = id
      · subst hid
        simp [isOpen_of_get? hr, hopen]
      · simp [hid]
    · have hset : settledBy (some { event := r.grantEvent now x.id a x }) = [] := by
        cases hg : r.gang <;>
          simp [settledBy, Effect.settled, Event.settled, Reservation.grantEvent, hs, hg]
      have hstill : (r.grant now x.id a).isOpen = true := by simp [Reservation.isOpen, hs]
      rw [hset, hstill]
      by_cases hid : r.id = id
      · subst hid
        simp [isOpen_of_get? hr, hopen]
      · simp [hid]
  | @tornDown c r b hr hc hv =>
    have hopen := Verdict.isOpen_of_tearDown hv
    have hset : settledBy (some (r.tearDown c.resource b)) = [r.id] := by
      cases b <;> simp [settledBy, Effect.settled, Event.settled, Reservation.tearDown,
        Event.rejection]
    rw [hset, isOpen_drop]
    by_cases hid : r.id = id
    · subst hid
      simp [isOpen_of_get? hr, hopen]
    · simp [hid]

end Ledger

end ClusterBroker
