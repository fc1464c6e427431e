import ClusterBroker.Proofs.GangControl.Drawing

/-!
# What the controller knows is tracked

The controller does not look at the ledger, yet what it counts as submitted is there, still waiting
for allocations. Only what is in hand may not be there yet. Unlike the agreement of the two, this
does not need ids that are asked for to be new. A request of the same id that went past the
controller may be on the ledger while a gang waits, but then the gang is not submitted.
-/
namespace ClusterBroker

namespace Ledger

variable {l l' : Ledger} {ids : List ReservationId} {r s : Reservation}

/-- The reservation is tracked, and it still waits for allocations. -/
def Carries (l : Ledger) (r : Reservation) : Prop :=
  ∃ t, l.get? r.id = some t ∧ t.isOpen = true ∧ t.claim = r.claim

theorem Carries.of_claim (h : l.Carries r) (he : r.claim = s.claim) : l.Carries s := by
  obtain ⟨t, ht, ho, hc⟩ := h
  exact ⟨t, (Reservation.claim_eq_iff.1 he).1 ▸ ht, ho, hc.trans he⟩

theorem Carries.batch (h : l.Carries r) (hl : l.Succeeds ids l') (hn : r.id ∉ ids) :
    l'.Carries r := by
  obtain ⟨t, ht, ho, hc⟩ := h
  have hopen := hl.isOpen_eq hn
  rw [isOpen_of_get? ht, ho] at hopen
  cases hs : l'.get? r.id with
  | none =>
    rw [isOpen_of_none hs] at hopen
    simp at hopen
  | some s =>
    rw [isOpen_of_get? hs] at hopen
    obtain ⟨t', ht', hadv⟩ := hl.origin hs
    rw [ht] at ht'
    cases Option.some.inj ht'
    exact ⟨s, hs, hopen, hadv.claim_eq.trans hc⟩

theorem carries_add (h : r.isOpen = true) : (l.add r).Carries r := ⟨r, by simp, h, rfl⟩

theorem Carries.add (h : l.Carries s) (hc : l.conflict? r = none) : (l.add r).Carries s := by
  obtain ⟨t, ht, hrest⟩ := h
  refine ⟨t, ?_, hrest⟩
  rw [get?_add, if_neg, ht]
  intro he
  rw [← he, (conflict?_eq_none_iff.1 hc).1] at ht
  simp at ht

/-- Only what a removal is about is no longer tracked. -/
theorem Carries.removal (h : l.Carries r) {p : Prop} [Decidable p] (hn : ¬ p)
    (hg : l'.get? r.id = if p then none else l.get? r.id) : l'.Carries r := by
  rw [if_neg hn] at hg
  obtain ⟨t, ht, hrest⟩ := h
  exact ⟨t, hg.trans ht, hrest⟩

end Ledger

namespace GangControl

variable {c c' : GangControl} {l l' : Ledger} {hand : List Reservation}
  {leaving : List ReservationId} {ids : List ReservationId} {r : Reservation} {now : Time}

/-! ### What counts as submitted -/

/-- Whatever counts as submitted satisfies `p`, except for what is in hand. -/
def CountsOnly (p : Reservation → Prop) (hand : List Reservation) (c : GangControl) : Prop :=
  ∀ id r, c.known.get? id = some r → (c.submitted.get? id).isSome = true →
    id ∈ hand.map Reservation.id ∨ p r

section

variable {p q : Reservation → Prop}

theorem CountsOnly.strike (h : c.CountsOnly p hand) (hs : Struck ids c c')
    (hp : ∀ {id r}, c.known.get? id = some r → id ∉ ids → p r → q r) : c'.CountsOnly q hand := by
  intro id r hk hsub
  obtain ⟨hn, hk⟩ := hs.of_known hk
  rw [hs.submitted, if_neg hn] at hsub
  exact (h id r hk hsub).imp_right (hp hk hn)

/-- The first in hand is like the others now, or it was struck out. -/
theorem CountsOnly.putDown (h : c.CountsOnly p (r :: hand))
    (hr : ∀ s, c.known.get? r.id = some s → p s) : c.CountsOnly p hand := by
  intro id s hk hs
  rcases h id s hk hs with hm | hp
  · rcases List.mem_cons.1 hm with rfl | hm
    · exact .inr (hr s hk)
    · exact .inl hm
  · exact .inr hp

/-- What is written down as waiting, or about to, does not count. -/
theorem CountsOnly.file (h : c.CountsOnly p []) {leaving' : List ReservationId}
    (hneat : c'.Neat leaving')
    (hk : c'.known = c.known.insert r.id { r with status := .backedOff })
    (hs : ∀ k, r.id ≠ k → c'.submitted.get? k = c.submitted.get? k)
    (hp : ∀ {id s}, c.known.get? id = some s → r.id ≠ id → p s → q s) : c'.CountsOnly q [] := by
  intro id s ht hsub
  obtain ⟨s', hs', hb⟩ := hneat.submitted_known hsub
  rw [hk, Table.get?_insert] at ht hs'
  split at ht
  next he =>
    rw [if_pos he] at hs'
    rw [← Option.some.inj hs'] at hb
    simp at hb
  next he =>
    rw [hs id he] at hsub
    exact .inr (hp ht he ((h id s ht hsub).resolve_left (by simp)))

theorem CountsOnly.wait (h : c.CountsOnly p []) (hn : c.Neat []) (now : Time)
    (hk : c.known.get? r.id = none) : (c.wait now r).CountsOnly p [] := by
  obtain ⟨hkn, hsub, -⟩ := wait_books now r c
  exact h.file (hn.wait now hk) hkn (fun k _ => by rw [hsub]) fun _ _ hp => hp

theorem CountsOnly.stepBack {id : ReservationId} (h : c.CountsOnly p [])
    (hn : c.Neat (id :: leaving)) (now : Time) : (c.stepBack now id).CountsOnly p [] := by
  obtain ⟨r, hr⟩ := Option.isSome_iff_exists.1
    (hn.away_known id (List.mem_append_right _ (List.mem_cons_self ..)))
  have hneat := hn.stepBack now
  rw [stepBack_eq_wait hr] at hneat ⊢
  obtain ⟨hkn, hsub, -⟩ := wait_books now r.reset c
  exact h.file hneat hkn (fun k _ => by rw [hsub]) fun _ _ hp => hp

theorem CountsOnly.noteRound (h : c.CountsOnly p []) (hn : c.Neat []) :
    (c.pickVictims.2.noteRound c.pickVictims.1).CountsOnly p [] := by
  obtain ⟨hk, hs, -⟩ := noteRound_books c
  have hd := hn.pickVictims_drawn
  intro id r hr hsub
  rw [hs, hd.submitted] at hsub
  split at hsub
  next => simp at hsub
  next hv =>
    rw [hk, hd.known, if_neg hv] at hr
    exact h id r hr hsub

/-- What wakes up is in hand. -/
theorem CountsOnly.wake (h : c.CountsOnly p []) (hn : c.Neat []) (now : Time) :
    (c.wake now).2.CountsOnly p (c.wake now).1 := by
  obtain ⟨-, hknown, hsub⟩ := hn.wake_books now
  intro k s hs ht
  rw [hknown] at hs
  rw [hsub] at ht
  split at hs
  next hk => exact .inl hk
  next hk =>
    rw [if_neg hk] at ht
    exact .inr ((h k s hs ht).resolve_left (by simp))

end

/-! ### What the ledger backs -/

structure Backed (c : GangControl) (l : Ledger) (hand : List Reservation)
    (leaving : List ReservationId) : Prop where
  neat : c.Neat leaving
  submitted : ∀ {id r}, c.known.get? id = some r → r.status ≠ .backedOff →
    (c.submitted.get? id).isSome = true
  backed : ∀ {id r}, c.known.get? id = some r → (c.submitted.get? id).isSome = true →
    id ∈ hand.map Reservation.id ∨ l.Carries r
  /-- What is in hand is what the controller knows, unless that was struck out meanwhile. -/
  hand_known : ∀ r ∈ hand, ∀ s, c.known.get? r.id = some s → s.claim = r.claim
  hand_fresh : ∀ r ∈ hand, r.Fresh

theorem backed_empty (o : DeadlockOptions) (t : Time) :
    Backed { options := o, lastAllocation := t } {} [] [] :=
  ⟨(agrees_empty o t).neat, by simp, by simp, List.forall_mem_nil _, List.forall_mem_nil _⟩

theorem Backed.counts (h : Backed c l hand leaving) : c.CountsOnly l.Carries hand :=
  fun _ _ => h.backed

/-- Chance, tallies and times do not matter. -/
theorem Backed.congr (h : Backed c l hand leaving) (hk : c'.known = c.known)
    (hs : c'.submitted = c.submitted) (hw : c'.waiting = c.waiting) :
    Backed c' l hand leaving := by
  have hneat := h.neat.congr hk hs hw
  obtain ⟨-, hsub, hback, hhand, hfresh⟩ := h
  rw [← hk] at hsub hback hhand
  rw [← hs] at hsub hback
  exact ⟨hneat, hsub, hback, hhand, hfresh⟩

/-- What the controller knows while nothing waits is tracked. -/
theorem Backed.tracked (h : Backed c l [] []) (he : c.backoff.isEmpty = true)
    {id : ReservationId} (hk : c.known.get? id = some r) : ∃ t, l.get? id = some t := by
  have hno : c.waiting = [] := DelayQueue.isEmpty_iff.1 he
  have hs : r.status ≠ .backedOff := by
    intro hb
    have hw := (h.neat.backedOff_iff hk).1 hb
    rw [hno] at hw
    simp at hw
  rcases h.backed hk (h.submitted hk hs) with hm | ⟨t, ht, -⟩
  · simp at hm
  · exact ⟨t, h.neat.known_id hk ▸ ht⟩

/-! ### Changes of the ledger -/

theorem Backed.ledger (h : Backed c l hand leaving) (hl : ∀ {r}, c.known.get? r.id = some r →
    (c.submitted.get? r.id).isSome = true → r.id ∉ hand.map Reservation.id → l.Carries r →
    l'.Carries r) : Backed c l' hand leaving := by
  refine ⟨h.neat, h.submitted, fun {id r} hk hs => ?_, h.hand_known, h.hand_fresh⟩
  obtain rfl := h.neat.known_id hk
  by_cases hm : r.id ∈ hand.map Reservation.id
  · exact .inl hm
  · exact .inr (hl hk hs hm ((h.backed hk hs).resolve_left hm))

/-- Reservations are struck out, and the ledger tracks the others as before. -/
theorem Backed.strike (h : Backed c l hand []) (hs : Struck ids c c')
    (hl : ∀ {r}, c.known.get? r.id = some r → r.id ∉ ids → l.Carries r → l'.Carries r) :
    Backed c' l' hand [] := by
  have hcounts : c'.CountsOnly l'.Carries hand := h.counts.strike hs fun {id r} hk hn hc => by
    obtain rfl := h.neat.known_id hk
    exact hl hk hn hc
  refine ⟨h.neat.strike hs, fun hk hb => ?_, fun {id r} => hcounts id r,
    fun r hr s hk => h.hand_known r hr s (hs.of_known hk).2, h.hand_fresh⟩
  obtain ⟨hn, hk⟩ := hs.of_known hk
  rw [hs.submitted, if_neg hn]
  exact h.submitted hk hb

theorem Backed.batch (h : Backed c l hand []) (hl : l.Succeeds ids l') (hs : Struck ids c c') :
    Backed c' l' hand [] := h.strike hs fun _ hn hc => hc.batch hl hn

theorem Backed.add (h : Backed c l hand leaving) (hc : l.conflict? r = none) :
    Backed c (l.add r) hand leaving := h.ledger fun _ _ _ ht => ht.add hc

/-! ### What is in hand -/

/-- The first in hand is tracked now, or it was struck out. -/
theorem Backed.putDown (h : Backed c l (r :: hand) leaving)
    (hl : (c.known.get? r.id).isSome = true → l.Carries r) : Backed c l hand leaving := by
  have hcounts : c.CountsOnly l.Carries hand := h.counts.putDown fun s hk =>
    (hl (by rw [hk]; rfl)).of_claim (h.hand_known r (List.mem_cons_self ..) s hk).symm
  exact ⟨h.neat, h.submitted, fun {id s} => hcounts id s,
    fun t ht => h.hand_known t (List.mem_cons_of_mem r ht),
    fun t ht => h.hand_fresh t (List.mem_cons_of_mem r ht)⟩

/-- A new gang is about to be placed. -/
theorem Backed.submit (h : Backed c l [] []) (hf : r.Fresh) (hk : c.known.get? r.id = none) :
    Backed (c.submit r) l [r] [] := by
  have hb : r.status ≠ .backedOff := by
    rw [hf.status_eq]
    simp
  have hknown : ∀ k, (c.submit r).known.get? k = if r.id = k then some r else c.known.get? k :=
    fun k => Table.get?_insert c.known r.id k r
  have hsub : ∀ k, (c.submit r).submitted.get? k =
      if r.id = k then some () else c.submitted.get? k :=
    fun k => Table.get?_insert c.submitted r.id k ()
  refine ⟨h.neat.submit hb (h.neat.not_away hk) (fun _ _ => Iff.rfl) (.refl _),
    fun {k s} hs hn => ?_, fun {k s} hs ht => ?_, fun s hs t ht => ?_, fun s hs => ?_⟩
  · rw [hsub]
    rw [hknown] at hs
    split at hs
    next he => rw [if_pos he]; rfl
    next he =>
      rw [if_neg he]
      exact h.submitted hs hn
  · rw [hknown] at hs
    rw [hsub] at ht
    split at hs
    next he => exact .inl (by simp [he])
    next he =>
      rw [if_neg he] at ht
      exact .inr ((h.backed hs ht).resolve_left (by simp))
  · rw [List.mem_singleton.1 hs, hknown, if_pos rfl] at ht
    rw [List.mem_singleton.1 hs, Option.some.inj ht]
  · rw [List.mem_singleton.1 hs]
    exact hf

/-- What wakes up is in hand. -/
theorem Backed.wake (h : Backed c l [] []) (now : Time) (hf : ∀ r ∈ (c.wake now).1, r.Fresh) :
    Backed (c.wake now).2 l (c.wake now).1 [] := by
  obtain ⟨hmem, hknown, hsub⟩ := h.neat.wake_books now
  refine ⟨(h.neat.wake now).1, fun {k s} hs hb => ?_,
    fun {k s} => h.counts.wake h.neat now k s, fun r hr s hs => ?_, hf⟩
  · rw [hsub]
    rw [hknown] at hs
    split at hs
    next hk => rw [if_pos hk]; rfl
    next hk =>
      rw [if_neg hk]
      exact h.submitted hs hb
  · obtain ⟨t, ht, he⟩ := hmem r hr
    rw [hknown, if_pos (List.mem_map_of_mem hr), ht] at hs
    rw [he, ← Option.some.inj hs]

/-! ### Stepping back -/

/-- A reservation is written down as one that waits, or is about to. -/
theorem Backed.file (h : Backed c l [] leaving) {leaving' : List ReservationId}
    (hneat : c'.Neat leaving')
    (hk : c'.known = c.known.insert r.id { r with status := .backedOff })
    (hs : ∀ k, r.id ≠ k → c'.submitted.get? k = c.submitted.get? k)
    (hl : ∀ {s}, s.id ≠ r.id → l.Carries s → l'.Carries s) : Backed c' l' [] leaving' := by
  have hcounts : c'.CountsOnly l'.Carries [] := h.counts.file hneat hk hs fun {id s} ht he => hl (by
    rw [h.neat.known_id ht]
    exact Ne.symm he)
  refine ⟨hneat, fun {k s} ht hb => ?_, fun {k s} => hcounts k s, List.forall_mem_nil _,
    List.forall_mem_nil _⟩
  rw [hk, Table.get?_insert] at ht
  split at ht
  next he =>
    rw [← Option.some.inj ht] at hb
    simp at hb
  next he =>
    rw [hs k he]
    exact h.submitted ht hb

/-- A gang that was not known waits. -/
theorem Backed.wait (h : Backed c l [] []) (now : Time) (hk : c.known.get? r.id = none) :
    Backed (c.wait now r) l [] [] := by
  obtain ⟨hkn, hsub, -⟩ := wait_books now r c
  exact h.file (h.neat.wait now hk) hkn (fun k _ => by rw [hsub]) fun _ hc => hc

/-- The first of those who are about to step back was released, and waits. -/
theorem Backed.stepBack {id : ReservationId} (h : Backed c l [] (id :: leaving)) (now : Time)
    (hl : ∀ {s}, s.id ≠ id → l.Carries s → l'.Carries s) :
    Backed (c.stepBack now id) l' [] leaving := by
  obtain ⟨r, hr⟩ := Option.isSome_iff_exists.1
    (h.neat.away_known id (List.mem_append_right _ (List.mem_cons_self ..)))
  obtain rfl := h.neat.known_id hr
  have hstep := stepBack_eq_wait hr now
  obtain ⟨hkn, hsub, -⟩ := wait_books now r.reset c
  have hneat := h.neat.stepBack now
  rw [hstep] at hneat ⊢
  exact h.file hneat hkn (fun k _ => by rw [hsub]) hl

theorem Backed.noteRound (h : Backed c l [] []) :
    Backed (c.pickVictims.2.noteRound c.pickVictims.1) l [] (c.pickVictims.1.map Prod.fst) := by
  obtain ⟨hk, hs, -⟩ := noteRound_books c
  have hd := h.neat.pickVictims_drawn
  refine ⟨h.neat.noteRound, fun {k r} hr hb => ?_, fun {k r} => h.counts.noteRound h.neat k r,
    List.forall_mem_nil _, List.forall_mem_nil _⟩
  rw [hk, hd.known] at hr
  rw [hs, hd.submitted]
  split at hr
  next =>
    obtain ⟨t, -, rfl⟩ := Option.map_eq_some_iff.1 hr
    simp at hb
  next hv =>
    rw [if_neg hv]
    exact h.submitted hr hb

end GangControl

end ClusterBroker
