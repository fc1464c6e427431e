import ClusterBroker.Proofs.GangControl.Books

/-!
# The controller and the ledger agree

The controller keeps copies of gangs that the ledger tracks too, and its own division of them
into submitted and waiting ones. `Agrees` is what connects the two. In the middle of an operation
some gangs are on the move: those in `hand` count as submitted and are about to be placed, those
in `leaving` step back and are still tracked. Between operations both lists are empty.
-/
namespace ClusterBroker

/-! ### Gangs that wait for allocations -/

namespace Ledger

variable {l l' : Ledger} {ids : List ReservationId} {id : ReservationId}

def openGang (l : Ledger) (id : ReservationId) : Bool :=
  (l.get? id).any fun r => r.gang && r.isOpen

theorem openGang_iff : l.openGang id = true ↔
    ∃ r, l.get? id = some r ∧ r.gang = true ∧ r.isOpen = true := by
  unfold openGang
  rw [Option.any_eq_true]
  simp

theorem openGang_of_none (h : l.get? id = none) : l.openGang id = false := by
  unfold openGang
  rw [h]
  rfl

theorem isOpen_of_none (h : l.get? id = none) : l.isOpen id = false := by
  unfold isOpen
  rw [h]
  rfl

theorem isOpen_of_openGang (h : l.openGang id = true) : l.isOpen id = true := by
  obtain ⟨r, hr, -, ho⟩ := openGang_iff.1 h
  rw [isOpen_of_get? hr, ho]

theorem Succeeds.openGang_eq (h : l.Succeeds ids l') (hid : id ∉ ids) :
    l'.openGang id = l.openGang id := by
  have ho := h.isOpen_eq hid
  cases hs : l'.get? id with
  | none =>
    rw [isOpen_of_none hs] at ho
    rw [openGang_of_none hs]
    cases hg : l.openGang id with
    | false => rfl
    | true => rw [isOpen_of_openGang hg] at ho; exact ho
  | some s =>
    obtain ⟨r, hr, hadv⟩ := h.origin hs
    rw [isOpen_of_get? hs, isOpen_of_get? hr] at ho
    simp [openGang, hs, hr, ho, hadv.gang_eq]

theorem openGang_add (r : Reservation) (k : ReservationId) :
    (l.add r).openGang k = if r.id = k then r.gang && r.isOpen else l.openGang k := by
  unfold openGang
  rw [get?_add]
  split <;> rfl

end Ledger

theorem Reservation.Fresh.reset_eq {r : Reservation} (h : r.Fresh) : r.reset = r := by
  obtain ⟨-, he⟩ := h
  rw [he]
  simp [reset, ofRequest, Resource.reset, Function.comp_def]

theorem Reservation.reset_status (r : Reservation) (s : Reservation.Status) :
    ({ r with status := s } : Reservation).reset = r.reset := rfl

theorem Reservation.Fresh.isOpen_eq {r : Reservation} (h : r.Fresh) : r.isOpen = true := by
  simp [Reservation.isOpen, h.status_eq]

namespace GangControl

structure Agrees (c : GangControl) (l : Ledger) (hand : List Reservation)
    (leaving : List (ReservationId × HandleId)) : Prop where
  sound : l.Sound
  known_id : ∀ {id r}, c.known.get? id = some r → r.id = id
  known_gang : ∀ {id r}, c.known.get? id = some r → r.gang = true ∧ r.reset.Fresh
  claim_eq : ∀ {id r s}, c.known.get? id = some r → l.get? id = some s → s.claim = r.claim
  submitted_iff : ∀ id, (c.submitted.get? id).isSome = true ↔
    id ∈ hand.map Reservation.id ∨ l.openGang id = true ∧ id ∉ leaving.map Prod.fst
  known_iff : ∀ id, (c.known.get? id).isSome = true ↔
    (c.submitted.get? id).isSome = true ∨ id ∈ c.waiting ∨ id ∈ leaving.map Prod.fst
  backedOff_iff : ∀ {id r}, c.known.get? id = some r →
    (r.status = .backedOff ↔ id ∈ c.waiting ∨ id ∈ leaving.map Prod.fst)
  waiting_nodup : c.waiting.Nodup
  waiting_away : ∀ id ∈ c.waiting, l.get? id = none ∧ id ∉ hand.map Reservation.id
  hand_nodup : (hand.map Reservation.id).Nodup
  hand_known : ∀ r ∈ hand, c.known.get? r.id = some r ∧ r.Fresh ∧ l.get? r.id = none
  leaving_nodup : (leaving.map Prod.fst).Nodup
  leaving_open : ∀ v ∈ leaving, l.openGang v.1 = true ∧
    ∃ r, c.known.get? v.1 = some r ∧ r.handle = v.2

variable {c c' : GangControl} {l l' : Ledger} {hand : List Reservation}
  {leaving : List (ReservationId × HandleId)}

/-- Chance, tallies and times are not part of the agreement. -/
theorem Agrees.congr (h : Agrees c l hand leaving) (hk : c'.known = c.known)
    (hs : c'.submitted = c.submitted) (hb : c'.backoff = c.backoff) :
    Agrees c' l hand leaving := by
  obtain ⟨o, k, s, b, t, d, y⟩ := c
  obtain ⟨o', k', s', b', t', d', y'⟩ := c'
  simp only at hk hs hb
  subst hk hs hb
  exact ⟨h.sound, h.known_id, h.known_gang, h.claim_eq, h.submitted_iff, h.known_iff,
    h.backedOff_iff, h.waiting_nodup, h.waiting_away, h.hand_nodup, h.hand_known,
    h.leaving_nodup, h.leaving_open⟩

theorem Agrees.tidy (h : Agrees c l hand leaving) : c.Tidy := by
  intro id hid
  obtain ⟨r, hr⟩ := Option.isSome_iff_exists.1 ((h.known_iff id).2 (.inr (.inl hid)))
  exact ⟨r, hr, (h.backedOff_iff hr).2 (.inl hid)⟩

theorem agrees_empty (o : DeadlockOptions) (t : Time) :
    Agrees { options := o, lastAllocation := t } {} [] [] := by
  refine ⟨Ledger.sound_empty, ?_, ?_, ?_, ?_, ?_, ?_, ?_, ?_, ?_, ?_, ?_, ?_⟩ <;>
    simp [Ledger.openGang, Ledger.get?, waiting, DelayQueue.payloads]

theorem Agrees.not_waiting (h : Agrees c l hand leaving) {id : ReservationId}
    (hk : c.known.get? id = none) : id ∉ c.waiting := by
  intro hw
  have hs := (h.known_iff id).2 (.inr (.inl hw))
  rw [hk] at hs
  simp at hs

/-- Writing a gang down leaves what is known in order, if the desk knows it as the same. -/
theorem Agrees.known_insert (h : Agrees c l hand leaving) {r : Reservation} (hg : r.gang = true)
    (hf : r.reset.Fresh) (hr : ∀ s, l'.get? r.id = some s → s.claim = r.claim)
    (hl : ∀ k, r.id ≠ k → l'.get? k = l.get? k) {k : ReservationId} {t : Reservation}
    (ht : (c.known.insert r.id r).get? k = some t) :
    t.id = k ∧ (t.gang = true ∧ t.reset.Fresh) ∧ ∀ s, l'.get? k = some s → s.claim = t.claim := by
  rw [Table.get?_insert] at ht
  split at ht
  next he =>
    cases Option.some.inj ht
    exact ⟨he, ⟨hg, hf⟩, he ▸ hr⟩
  next hne =>
    rw [hl k hne]
    exact ⟨h.known_id ht, h.known_gang ht, fun s hs => h.claim_eq ht hs⟩

/-! ### Striking out -/

theorem Agrees.known_of_openGang (h : Agrees c l hand leaving) {k : ReservationId}
    (ho : l.openGang k = true) : (c.known.get? k).isSome = true := by
  rw [h.known_iff]
  by_cases hm : k ∈ leaving.map Prod.fst
  · exact .inr (.inr hm)
  · exact .inl ((h.submitted_iff k).2 (.inr ⟨ho, hm⟩))

/-- The controller strikes out what is open no more, and the others are as they were. -/
theorem Agrees.strike {ids : List ReservationId} {hand' : List Reservation}
    (h : Agrees c l hand []) (hc : Struck ids c c') (hl : l'.Sound)
    (hfrom : ∀ {k s}, l'.get? k = some s → ∃ r, l.get? k = some r ∧ s.claim = r.claim)
    (hgone : ∀ k ∈ ids, l'.openGang k = false)
    (hstay : ∀ k, k ∉ ids → l'.openGang k = l.openGang k) (hsub : hand'.Sublist hand)
    (hhand : ∀ k, k ∈ hand'.map Reservation.id ↔ k ∈ hand.map Reservation.id ∧ k ∉ ids) :
    Agrees c' l' hand' [] := by
  have hnone : ∀ {k}, l.get? k = none → l'.get? k = none := by
    intro k hk
    rw [Option.eq_none_iff_forall_ne_some]
    intro s hs
    obtain ⟨r, hr, -⟩ := hfrom hs
    rw [hk] at hr
    simp at hr
  refine ⟨hl, fun hr => h.known_id (hc.of_known hr).2, fun hr => h.known_gang (hc.of_known hr).2,
    fun hr hs => ?_, fun k => ?_, fun k => ?_, fun {k r} hr => ?_, ?_, fun k hk => ?_,
    (hsub.map _).nodup h.hand_nodup, fun r hr => ?_, List.nodup_nil, List.forall_mem_nil _⟩
  · obtain ⟨s₀, hs₀, he⟩ := hfrom hs
    rw [he]
    exact h.claim_eq (hc.of_known hr).2 hs₀
  · rw [hc.submitted, hhand]
    by_cases hk : k ∈ ids
    · simp [hk, hgone k hk]
    · rw [if_neg hk, hstay k hk, h.submitted_iff]
      simp [hk]
  · rw [hc.known, hc.submitted, hc.waiting]
    by_cases hk : k ∈ ids
    · simp [hk]
    · simpa [hk] using h.known_iff k
  · obtain ⟨hn, hr⟩ := hc.of_known hr
    rw [h.backedOff_iff hr, hc.waiting]
    simp [hn]
  · rw [hc.waiting]
    exact h.waiting_nodup.filter _
  · rw [hc.waiting] at hk
    obtain ⟨hn, hh⟩ := h.waiting_away k (List.mem_of_mem_filter hk)
    exact ⟨hnone hn, fun hm => hh ((hhand k).1 hm).1⟩
  · obtain ⟨hr₁, hf, hn⟩ := h.hand_known r (hsub.subset hr)
    rw [hc.known, if_neg ((hhand r.id).1 (List.mem_map_of_mem hr)).2]
    exact ⟨hr₁, hf, hnone hn⟩

/-- What a batch reports as settled is what the controller strikes out. -/
theorem Agrees.batch {ids : List ReservationId} (h : Agrees c l hand [])
    (hl : l.Succeeds ids l') (hc : Struck ids c c') : Agrees c' l' hand [] := by
  refine h.strike hc hl.sound (fun hs => ?_) (fun k hk => ?_) (fun k hk => hl.openGang_eq hk)
    (.refl _) fun k => ⟨fun hm => ⟨hm, fun hk => ?_⟩, fun hm => hm.1⟩
  · obtain ⟨s₀, hs₀, hadv⟩ := hl.origin hs
    exact ⟨s₀, hs₀, hadv.claim_eq⟩
  · rw [Bool.eq_false_iff]
    intro ho
    have hopen := Ledger.isOpen_of_openGang ho
    rw [(hl.of_mem hk).2] at hopen
    simp at hopen
  · obtain ⟨r, hr, rfl⟩ := List.mem_map.1 hm
    have ho := (hl.of_mem hk).1
    rw [Ledger.isOpen_of_none (h.hand_known r hr).2.2] at ho
    simp at ho

/-! ### Placing -/

/-- The next gang in hand is tracked from now on. -/
theorem Agrees.add {r : Reservation} (h : Agrees c l (r :: hand) [])
    (hc : l.conflict? r = none) : Agrees c (l.add r) hand [] := by
  obtain ⟨hk, hf, hn⟩ := h.hand_known r (List.mem_cons_self ..)
  have hnd := h.hand_nodup
  rw [List.map_cons, List.nodup_cons] at hnd
  have hget : ∀ k, k ≠ r.id → (l.add r).get? k = l.get? k := by
    intro k hk
    rw [Ledger.get?_add, if_neg (Ne.symm hk)]
  refine ⟨h.sound.add hf.sound hc, h.known_id, h.known_gang, fun {k s t} hs ht => ?_, fun k => ?_,
    h.known_iff, h.backedOff_iff, h.waiting_nodup, fun k hw => ?_, hnd.2, fun s hs => ?_,
    List.nodup_nil, List.forall_mem_nil _⟩
  · by_cases he : k = r.id
    · subst he
      rw [hk] at hs
      rw [Ledger.get?_add, if_pos rfl] at ht
      rw [← Option.some.inj hs, ← Option.some.inj ht]
    · rw [hget k he] at ht
      exact h.claim_eq hs ht
  · rw [h.submitted_iff, Ledger.openGang_add]
    by_cases he : r.id = k
    · subst he
      simp [(h.known_gang hk).1, hf.isOpen_eq]
    · simp [he, Ne.symm he]
  · obtain ⟨hl, hh⟩ := h.waiting_away k hw
    rw [List.map_cons, List.mem_cons, not_or] at hh
    rw [hget k hh.1]
    exact ⟨hl, hh.2⟩
  · obtain ⟨hs₁, hs₂, hs₃⟩ := h.hand_known s (List.mem_cons_of_mem r hs)
    have hne : s.id ≠ r.id := fun he => hnd.1 (he ▸ List.mem_map_of_mem hs)
    rw [hget s.id hne]
    exact ⟨hs₁, hs₂, hs₃⟩

/-- What is not a gang is none of the controller's business. -/
theorem Agrees.add_other {r : Reservation} (h : Agrees c l hand []) (hr : r.Sound)
    (hg : r.gang = false) (hk : c.known.get? r.id = none) (hc : l.conflict? r = none) :
    Agrees c (l.add r) hand [] := by
  have hget : ∀ k, (c.known.get? k).isSome = true → (l.add r).get? k = l.get? k := by
    intro k hs
    rw [Ledger.get?_add, if_neg]
    rintro rfl
    rw [hk] at hs
    simp at hs
  refine ⟨h.sound.add hr hc, h.known_id, h.known_gang, fun {k s t} hs ht => ?_, fun k => ?_,
    h.known_iff, h.backedOff_iff, h.waiting_nodup, fun k hw => ?_, h.hand_nodup, fun s hs => ?_,
    List.nodup_nil, List.forall_mem_nil _⟩
  · rw [hget k (by simp [hs])] at ht
    exact h.claim_eq hs ht
  · rw [h.submitted_iff, Ledger.openGang_add]
    split
    next he =>
      have hn := (Ledger.conflict?_eq_none_iff.1 hc).1
      rw [he] at hn
      simp [hg, Ledger.openGang_of_none hn]
    next => rfl
  · rw [hget k ((h.known_iff k).2 (.inr (.inl hw)))]
    exact h.waiting_away k hw
  · obtain ⟨hs₁, hs₂, hs₃⟩ := h.hand_known s hs
    rw [hget s.id (by simp [hs₁])]
    exact ⟨hs₁, hs₂, hs₃⟩

/-- A new gang is about to be placed. -/
theorem Agrees.submit {r : Reservation} (h : Agrees c l [] []) (hf : r.Fresh) (hg : r.gang = true)
    (hk : c.known.get? r.id = none) (hn : l.get? r.id = none) :
    Agrees (c.submit r) l [r] [] := by
  have hreset : r.reset.Fresh := by
    rw [hf.reset_eq]
    exact hf
  have hknown : ∀ k, (c.submit r).known.get? k = if r.id = k then some r else c.known.get? k :=
    fun k => Table.get?_insert c.known r.id k r
  have hsub : ∀ k, (c.submit r).submitted.get? k =
      if r.id = k then some () else c.submitted.get? k :=
    fun k => Table.get?_insert c.submitted r.id k ()
  have hwait := h.not_waiting hk
  have hclaim : ∀ t, l.get? r.id = some t → t.claim = r.claim := by simp [hn]
  have hwell := fun {k s} => h.known_insert (k := k) (t := s) hg hreset hclaim fun _ _ => rfl
  refine ⟨h.sound, fun hs => (hwell hs).1, fun hs => (hwell hs).2.1,
    fun hs ht => (hwell hs).2.2 _ ht, fun k => ?_, fun k => ?_, fun {k s} hs => ?_,
    h.waiting_nodup, fun k hw => ?_, by simp, fun s hs => ?_, List.nodup_nil,
    List.forall_mem_nil _⟩
  · rw [hsub]
    split
    next he => simp [he]
    next he =>
      rw [h.submitted_iff]
      simp [Ne.symm he]
  · rw [hknown, hsub]
    split
    next he => simp
    next he => exact h.known_iff k
  · rw [hknown] at hs
    split at hs
    next he =>
      subst he
      rw [← Option.some.inj hs, hf.status_eq]
      change _ ↔ r.id ∈ c.waiting ∨ _
      simp [hwait]
    next => exact h.backedOff_iff hs
  · obtain ⟨hl, -⟩ := h.waiting_away k hw
    refine ⟨hl, fun hm => ?_⟩
    rw [List.map_singleton, List.mem_singleton] at hm
    exact hwait (hm ▸ hw)
  · rw [List.mem_singleton.1 hs, hknown, if_pos rfl]
    exact ⟨rfl, hf, hn⟩

/-- A new gang waits from the start. -/
theorem Agrees.wait {r : Reservation} (h : Agrees c l [] []) (now : Time) (hf : r.Fresh)
    (hg : r.gang = true) (hk : c.known.get? r.id = none) (hn : l.get? r.id = none) :
    Agrees (c.wait now r) l [] [] := by
  obtain ⟨hkn, hsub, hwt⟩ := wait_books now r c
  have hknown : ∀ k, (c.wait now r).known.get? k =
      if r.id = k then some { r with status := .backedOff } else c.known.get? k := by
    intro k
    rw [hkn, Table.get?_insert]
  have hwait := h.not_waiting hk
  have hreset : ({ r with status := .backedOff } : Reservation).reset.Fresh := by
    rw [Reservation.reset_status, hf.reset_eq]
    exact hf
  have hclaim : ∀ t, l.get? r.id = some t → t.claim = r.claim := by simp [hn]
  have hwell := fun {k s} => h.known_insert (k := k) (t := s)
    (r := { r with status := .backedOff }) hg hreset hclaim fun _ _ => rfl
  rw [← hkn] at hwell
  refine ⟨h.sound, fun hs => (hwell hs).1, fun hs => (hwell hs).2.1,
    fun hs ht => (hwell hs).2.2 _ ht, fun k => ?_, fun k => ?_, fun {k s} hs => ?_, ?_,
    fun k hw => ?_, by simp, List.forall_mem_nil _, List.nodup_nil, List.forall_mem_nil _⟩
  · rw [hsub]
    exact h.submitted_iff k
  · rw [hknown, hsub, hwt]
    split
    next he => simp [he]
    next he =>
      rw [h.known_iff, List.mem_cons]
      simp [Ne.symm he]
  · rw [hknown] at hs
    rw [hwt, List.mem_cons]
    split at hs
    next he => rw [← Option.some.inj hs]; simp [he]
    next he =>
      rw [h.backedOff_iff hs]
      simp [Ne.symm he]
  · rw [hwt, List.nodup_cons]
    exact ⟨hwait, h.waiting_nodup⟩
  · rw [hwt, List.mem_cons] at hw
    rcases hw with rfl | hw
    · exact ⟨hn, by simp⟩
    · exact h.waiting_away k hw

/-- A gang that was not placed is not in hand any more. -/
theorem Agrees.putDown {r : Reservation} (h : Agrees c l (r :: hand) [])
    (hc : Struck [r.id] c c') : Agrees c' l hand [] := by
  have hnd := h.hand_nodup
  rw [List.map_cons, List.nodup_cons] at hnd
  obtain ⟨-, -, hn⟩ := h.hand_known r (List.mem_cons_self ..)
  refine h.strike hc h.sound (fun hs => ⟨_, hs, rfl⟩) (fun k hk => ?_) (fun _ _ => rfl)
    (List.sublist_cons_self r hand) fun k => ?_
  · rw [List.mem_singleton.1 hk]
    exact Ledger.openGang_of_none hn
  · rw [List.map_cons, List.mem_cons, List.mem_singleton]
    constructor
    · intro hm
      exact ⟨.inr hm, fun he => hnd.1 (he ▸ hm)⟩
    · rintro ⟨hm, hne⟩
      exact hm.resolve_left hne

/-! ### Releasing -/

/-- Both sides let go of the same reservations, described by what never changes about them. -/
theorem Agrees.release {ids : List ReservationId} {p : Reservation → Bool}
    (h : Agrees c l hand []) (hp : ∀ {r s : Reservation}, r.claim = s.claim → p r = p s)
    (hhand : ∀ r ∈ hand, p r = false) (hc : Struck ids c c')
    (hids : ∀ {k r}, c.known.get? k = some r → (k ∈ ids ↔ p r = true)) (hl : l'.Sound)
    (hg : ∀ k, l'.get? k = if (l.get? k).any p then none else l.get? k) :
    Agrees c' l' hand [] := by
  have hfrom : ∀ {k s}, l'.get? k = some s → l.get? k = some s := by
    intro k s hs
    rw [hg] at hs
    split at hs
    next => simp at hs
    next => exact hs
  -- A gang is known while it is open, so `p` says the same of the copy and of the original.
  have hchosen : ∀ {k s}, l.get? k = some s → s.gang = true → s.isOpen = true →
      ((l.get? k).any p = true ↔ k ∈ ids) := by
    intro k s hs hsg hso
    obtain ⟨r, hr⟩ := Option.isSome_iff_exists.1
      (h.known_of_openGang (Ledger.openGang_iff.2 ⟨s, hs, hsg, hso⟩))
    rw [hids hr, hs, Option.any_some, hp (h.claim_eq hr hs)]
  refine h.strike hc hl (fun hs => ⟨_, hfrom hs, rfl⟩) (fun k hk => ?_) (fun k hk => ?_)
    (.refl _) fun k => ⟨fun hm => ⟨hm, fun hk => ?_⟩, fun hm => hm.1⟩
  · rw [Bool.eq_false_iff]
    intro ho
    obtain ⟨s, hs, hsg, hso⟩ := Ledger.openGang_iff.1 ho
    have hp := (hchosen (hfrom hs) hsg hso).2 hk
    rw [hg, if_pos hp] at hs
    simp at hs
  · rw [Bool.eq_iff_iff, Ledger.openGang_iff, Ledger.openGang_iff]
    constructor
    · rintro ⟨s, hs, hsg, hso⟩
      exact ⟨s, hfrom hs, hsg, hso⟩
    · rintro ⟨s, hs, hsg, hso⟩
      refine ⟨s, ?_, hsg, hso⟩
      rw [hg, if_neg fun hp => hk ((hchosen hs hsg hso).1 hp)]
      exact hs
  · obtain ⟨r, hr, rfl⟩ := List.mem_map.1 hm
    have hpr := (hids (h.hand_known r hr).1).1 hk
    rw [hhand r hr] at hpr
    simp at hpr

/-- The same, where one reservation goes by its id. -/
theorem Agrees.release_id {id : ReservationId} {ids : List ReservationId} (h : Agrees c l hand [])
    (hhand : id ∉ hand.map Reservation.id) (hc : Struck ids c c')
    (hids : ∀ {k r}, c.known.get? k = some r → (k ∈ ids ↔ r.id = id)) (hl : l'.Sound)
    (hg : ∀ k, l'.get? k = if id = k then none else l.get? k) : Agrees c' l' hand [] := by
  refine h.release (p := fun r => r.id = id) (fun he => ?_) (fun r hr => ?_) hc (fun hr => ?_) hl
    fun k => ?_
  · rw [(Reservation.claim_eq_iff.1 he).1]
  · have hne : r.id ≠ id := fun he => hhand (he ▸ List.mem_map_of_mem hr)
    simpa using hne
  · rw [hids hr, decide_eq_true_iff]
  · rw [hg]
    cases hr : l.get? k with
    | none => simp
    | some r =>
      have hid := h.sound.id_eq hr
      simp [hid, eq_comm]

end GangControl

end ClusterBroker
