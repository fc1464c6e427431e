import ClusterBroker.Proofs.GangControl.Rounds

/-!
# Books that are neat by themselves

The books of the controller are in order whether or not anything agrees with them: what is
submitted is known and does not wait, and what is marked as waiting waits, once. In the middle of
an operation some reservations are marked and not in the queue: they are about to step back, or
were just taken out of the queue.
-/
namespace ClusterBroker.GangControl

variable {c c' : GangControl} {l : Ledger} {leaving leaving' : List ReservationId}

structure Neat (c : GangControl) (leaving : List ReservationId) : Prop where
  known_id : ∀ {id r}, c.known.get? id = some r → r.id = id
  submitted_known : ∀ {id}, (c.submitted.get? id).isSome = true →
    ∃ r, c.known.get? id = some r ∧ r.status ≠ .backedOff
  backedOff_iff : ∀ {id r}, c.known.get? id = some r →
    (r.status = .backedOff ↔ id ∈ c.waiting ++ leaving)
  away_known : ∀ id ∈ c.waiting ++ leaving, (c.known.get? id).isSome = true
  away_nodup : (c.waiting ++ leaving).Nodup

theorem Neat.congr (h : Neat c leaving) (hk : c'.known = c.known)
    (hs : c'.submitted = c.submitted) (hw : c'.waiting = c.waiting) : Neat c' leaving := by
  obtain ⟨h₁, h₂, h₃, h₄, h₅⟩ := h
  rw [← hk] at h₁ h₂ h₃ h₄
  rw [← hs] at h₂
  rw [← hw] at h₃ h₄ h₅
  exact ⟨h₁, h₂, h₃, h₄, h₅⟩

theorem Neat.tidy (h : Neat c leaving) : c.Tidy := by
  intro id hid
  obtain ⟨r, hr⟩ := Option.isSome_iff_exists.1 (h.away_known id (List.mem_append_left _ hid))
  exact ⟨r, hr, (h.backedOff_iff hr).2 (List.mem_append_left _ hid)⟩

theorem Neat.not_away (h : Neat c leaving) {id : ReservationId} (hk : c.known.get? id = none) :
    id ∉ c.waiting ++ leaving := by
  intro hm
  have hs := h.away_known id hm
  rw [hk] at hs
  simp at hs

theorem Neat.not_submitted (h : Neat c leaving) {id : ReservationId}
    (hk : c.known.get? id = none) : c.submitted.get? id = none := by
  cases hs : c.submitted.get? id with
  | none => rfl
  | some _ =>
    have hsub : (c.submitted.get? id).isSome = true := by rw [hs]; rfl
    obtain ⟨r, hr, -⟩ := h.submitted_known hsub
    rw [hk] at hr
    simp at hr

/-- What a controller needs to agree with a ledger includes that its books are neat. -/
theorem Agrees.neat {hand : List Reservation} (h : Agrees c l hand []) : Neat c [] := by
  refine ⟨h.known_id, fun {id} hs => ?_, fun {id r} hr => ?_, fun id hid => ?_, ?_⟩
  · rcases (h.submitted_iff id).1 hs with hh | ⟨ho, -⟩
    · obtain ⟨r, hr, rfl⟩ := List.mem_map.1 hh
      obtain ⟨hk, hf, -⟩ := h.hand_known r hr
      refine ⟨r, hk, ?_⟩
      rw [hf.status_eq]
      simp
    · obtain ⟨r, hr⟩ := Option.isSome_iff_exists.1 (h.known_of_openGang ho)
      refine ⟨r, hr, fun hb => ?_⟩
      rcases (h.backedOff_iff hr).1 hb with hw | hl
      · rw [Ledger.openGang_of_none (h.waiting_away id hw).1] at ho
        simp at ho
      · simp at hl
  · rw [h.backedOff_iff hr, List.mem_append]
    rfl
  · rw [List.append_nil] at hid
    exact (h.known_iff id).2 (.inr (.inl hid))
  · rw [List.append_nil]
    exact h.waiting_nodup

/-- Reservations are struck out. -/
theorem Neat.strike {ids : List ReservationId} (h : Neat c []) (hs : Struck ids c c') :
    Neat c' [] := by
  have hw : ∀ {k}, k ∈ c'.waiting ++ [] ↔ k ∈ c.waiting ++ [] ∧ k ∉ ids := by
    intro k
    rw [hs.waiting, List.append_nil, List.append_nil, List.mem_filter, decide_eq_true_iff]
  refine ⟨fun hr => h.known_id (hs.of_known hr).2, fun {id} hsub => ?_, fun hr => ?_,
    fun id hid => ?_, ?_⟩
  · rw [hs.submitted] at hsub
    split at hsub
    next => simp at hsub
    next hn =>
      rw [hs.known, if_neg hn]
      exact h.submitted_known hsub
  · obtain ⟨hn, hr⟩ := hs.of_known hr
    rw [h.backedOff_iff hr, hw]
    simp [hn]
  · obtain ⟨hid, hn⟩ := hw.1 hid
    rw [hs.known, if_neg hn]
    exact h.away_known id hid
  · rw [hs.waiting, List.append_nil]
    have hn := h.away_nodup
    rw [List.append_nil] at hn
    exact hn.filter _

/-- Only who is away matters, not the order. -/
theorem Neat.leaving_perm (h : Neat c leaving) (hp : leaving'.Perm leaving) : Neat c leaving' := by
  have hp : (c.waiting ++ leaving').Perm (c.waiting ++ leaving) := hp.append_left _
  exact ⟨h.known_id, h.submitted_known, fun hr => (h.backedOff_iff hr).trans hp.mem_iff.symm,
    fun id hid => h.away_known id (hp.mem_iff.1 hid), hp.nodup_iff.2 h.away_nodup⟩

/-! ### Writing -/

/-- A reservation that is not away becomes a submitted one. -/
theorem Neat.submit {r : Reservation} (h : Neat c leaving) (hr : r.status ≠ .backedOff)
    (hn : r.id ∉ c.waiting ++ leaving')
    (hm : ∀ k, k ≠ r.id → (k ∈ leaving' ↔ k ∈ leaving)) (hd : leaving'.Sublist leaving) :
    Neat (c.submit r) leaving' := by
  have hknown : ∀ k, (c.submit r).known.get? k = if r.id = k then some r else c.known.get? k :=
    fun k => Table.get?_insert c.known r.id k r
  have hsub : ∀ k, (c.submit r).submitted.get? k =
      if r.id = k then some () else c.submitted.get? k :=
    fun k => Table.get?_insert c.submitted r.id k ()
  have haway : ∀ k, k ≠ r.id →
      (k ∈ (c.submit r).waiting ++ leaving' ↔ k ∈ c.waiting ++ leaving) := by
    intro k hk
    rw [List.mem_append, List.mem_append, hm k hk]
    rfl
  refine ⟨fun {k s} hs => ?_, fun {k} hs => ?_, fun {k s} hs => ?_, fun k hk => ?_,
    h.away_nodup.sublist (.append (.refl c.waiting) hd)⟩
  · rw [hknown] at hs
    split at hs
    next he => rw [← Option.some.inj hs, he]
    next => exact h.known_id hs
  · rw [hknown]
    rw [hsub] at hs
    split at hs
    next he => exact ⟨r, by rw [if_pos he], hr⟩
    next he =>
      rw [if_neg he]
      exact h.submitted_known hs
  · rw [hknown] at hs
    split at hs
    next he =>
      rw [← Option.some.inj hs, ← he]
      exact ⟨fun hb => absurd hb hr, fun hk => absurd hk hn⟩
    next he => rw [haway k (Ne.symm he), h.backedOff_iff hs]
  · rw [hknown]
    split
    next => rfl
    next he => exact h.away_known k ((haway k (Ne.symm he)).1 hk)

/-- A reservation is written down as one that waits, or is about to. -/
theorem Neat.file {r : Reservation} (h : Neat c leaving)
    (hk : c'.known = c.known.insert r.id { r with status := .backedOff })
    (hs : ∀ k, c'.submitted.get? k = if r.id = k then none else c.submitted.get? k)
    (hm : ∀ k, k ∈ c'.waiting ++ leaving' ↔ k = r.id ∨ k ∈ c.waiting ++ leaving)
    (hn : (c'.waiting ++ leaving').Nodup) : Neat c' leaving' := by
  have hknown : ∀ k, c'.known.get? k =
      if r.id = k then some { r with status := .backedOff } else c.known.get? k := by
    intro k
    rw [hk, Table.get?_insert]
  refine ⟨fun {k s} ht => ?_, fun {k} ht => ?_, fun {k s} ht => ?_, fun k ht => ?_, hn⟩
  · rw [hknown] at ht
    split at ht
    next he => rw [← Option.some.inj ht, he]
    next => exact h.known_id ht
  · rw [hs] at ht
    split at ht
    next => simp at ht
    next he =>
      rw [hknown, if_neg he]
      exact h.submitted_known ht
  · rw [hm]
    rw [hknown] at ht
    split at ht
    next he =>
      rw [← Option.some.inj ht]
      simp [he]
    next he =>
      rw [h.backedOff_iff ht]
      simp [Ne.symm he]
  · rw [hknown]
    split
    next => rfl
    next he => exact h.away_known k (((hm k).1 ht).resolve_left (Ne.symm he))

/-- A reservation that was not known waits. -/
theorem Neat.wait {r : Reservation} (h : Neat c []) (now : Time)
    (hk : c.known.get? r.id = none) : Neat (c.wait now r) [] := by
  obtain ⟨hkn, hsub, hwt⟩ := wait_books now r c
  have hn := h.not_away hk
  refine h.file hkn (fun k => ?_) (fun k => ?_) ?_
  · rw [hsub]
    split
    next he => rw [← he, h.not_submitted hk]
    next => rfl
  · rw [hwt, List.cons_append, List.mem_cons]
  · rw [hwt, List.cons_append, List.nodup_cons]
    exact ⟨hn, h.away_nodup⟩

/-- The first of those who are about to step back does so. -/
theorem Neat.stepBack {id : ReservationId} (h : Neat c (id :: leaving)) (now : Time) :
    Neat (c.stepBack now id) leaving := by
  obtain ⟨r, hr⟩ := Option.isSome_iff_exists.1
    (h.away_known id (List.mem_append_right _ (List.mem_cons_self ..)))
  have hstep := stepBack_eq_wait hr now
  obtain ⟨hkn, hsub, hwt⟩ := wait_books now r.reset c
  have hid : r.reset.id = id := (h.known_id hr :)
  have hp : (c.waiting ++ id :: leaving).Perm (id :: (c.waiting ++ leaving)) := List.perm_middle
  rw [hstep]
  refine h.file hkn (fun k => ?_) (fun k => ?_) ?_
  · rw [hsub, hid]
    split
    next he =>
      subst he
      cases hs : c.submitted.get? id with
      | none => rfl
      | some _ =>
        have hsub : (c.submitted.get? id).isSome = true := by rw [hs]; rfl
        obtain ⟨s, hs, hne⟩ := h.submitted_known hsub
        exact absurd ((h.backedOff_iff hs).2 (hp.mem_iff.2 (List.mem_cons_self ..))) hne
    next => rfl
  · rw [hwt, hid, hp.mem_iff, List.cons_append, List.mem_cons]
    simp
  · rw [hwt, hid, List.cons_append]
    exact hp.nodup_iff.1 h.away_nodup

theorem Neat.draw {id : ReservationId} {r : Reservation} (h : Neat c leaving)
    (hs : (c.submitted.get? id).isSome = true) (hr : c.known.get? id = some r) (d : Dice) :
    Neat { c with dice := d, submitted := c.submitted.remove id,
                  known := c.known.insert id { r with status := .backedOff } } (id :: leaving) := by
  obtain rfl := h.known_id hr
  have hn : r.id ∉ c.waiting ++ leaving := by
    intro hm
    obtain ⟨s, hs', hne⟩ := h.submitted_known hs
    rw [hr] at hs'
    exact hne (Option.some.inj hs' ▸ (h.backedOff_iff hr).2 hm)
  refine h.file rfl (fun k => Table.get?_erase c.submitted r.id k) (fun k => ?_) ?_
  · change k ∈ c.waiting ++ r.id :: leaving ↔ _
    rw [List.perm_middle.mem_iff, List.mem_cons]
  · change (c.waiting ++ r.id :: leaving).Nodup
    rw [List.perm_middle.nodup_iff, List.nodup_cons]
    exact ⟨hn, h.away_nodup⟩

theorem Neat.pick (h : Neat c leaving) (wanted n : Nat) :
    Neat (c.pick wanted n).2 ((c.pick wanted n).1.map Prod.fst ++ leaving) := by
  induction n generalizing c wanted leaving with
  | zero => exact h
  | succ n ih =>
    unfold GangControl.pick
    split
    next => exact h
    next =>
      dsimp only
      split
      next => exact h
      next id hid =>
        have hs := Table.mem_keys.1 (List.mem_of_getElem? hid)
        obtain ⟨r, hr, -⟩ := h.submitted_known hs
        simp only [hr]
        have hrest :=
          ih (h.draw hs hr (c.dice.draw c.submitted.size).2) (wanted - r.resources.length)
        exact hrest.leaving_perm List.perm_middle.symm

theorem Neat.noteRound (h : Neat c []) :
    Neat (c.pickVictims.2.noteRound c.pickVictims.1) (c.pickVictims.1.map Prod.fst) := by
  obtain ⟨hk, hs, hb⟩ := noteRound_books c
  have hp := h.pick c.target c.submitted.size
  rw [List.append_nil] at hp
  exact hp.congr hk hs (congrArg DelayQueue.payloads hb)

/-! ### Taking out of the queue -/

theorem Neat.drain (h : Neat c []) (now : Time) :
    Neat { c with backoff := (c.backoff.drain now).2 }.noteWaiting (c.backoff.drain now).1 := by
  have hp : ((c.backoff.drain now).2.payloads ++ (c.backoff.drain now).1).Perm
      (c.waiting ++ []) := by
    rw [List.append_nil]
    exact List.perm_append_comm.trans (c.backoff.drain_perm now)
  exact ⟨h.known_id, h.submitted_known, fun hr => (h.backedOff_iff hr).trans hp.mem_iff.symm,
    fun id hid => h.away_known id (hp.mem_iff.1 hid), hp.nodup_iff.2 h.away_nodup⟩

theorem Neat.go {ids : List ReservationId} (h : Neat c ids) :
    Neat (wake.go ids c).2 [] ∧ (wake.go ids c).1.map Reservation.id = ids ∧
      (wake.go ids c).2.backoff = c.backoff := by
  induction ids generalizing c with
  | nil => exact ⟨h, rfl, rfl⟩
  | cons id ids ih =>
    obtain ⟨r, hr⟩ := Option.isSome_iff_exists.1
      (h.away_known id (List.mem_append_right _ (List.mem_cons_self ..)))
    have hid : r.reset.id = id := (h.known_id hr :)
    have hn := h.away_nodup
    rw [List.perm_middle.nodup_iff, List.nodup_cons, ← hid] at hn
    have hnext : Neat (c.submit r.reset) ids := by
      refine h.submit (by simp [Reservation.reset]) hn.1 (fun k hk => ?_)
        (List.sublist_cons_self ..)
      rw [hid] at hk
      simp [hk]
    obtain ⟨hneat, hids, hback⟩ := ih hnext
    unfold wake.go
    simp only [hr]
    exact ⟨hneat, by rw [List.map_cons, hids, hid], hback⟩

/-- What wakes up is known and not waiting any more. -/
theorem Neat.wake (h : Neat c []) (now : Time) :
    Neat (c.wake now).2 [] ∧ (c.wake now).1.map Reservation.id = (c.backoff.drain now).1 ∧
      (c.wake now).2.waiting = (c.backoff.drain now).2.payloads := by
  obtain ⟨hneat, hids, hback⟩ := (h.drain now).go
  exact ⟨hneat, hids, congrArg DelayQueue.payloads hback⟩

/-- Those that wake up count as submitted again, each as a copy of what is known, with nothing left
of its allocations. -/
theorem Neat.wake_books (h : Neat c []) (now : Time) :
    (∀ r ∈ (c.wake now).1, ∃ t, c.known.get? r.id = some t ∧ r = t.reset) ∧
      (∀ k, (c.wake now).2.known.get? k = if k ∈ (c.wake now).1.map Reservation.id
        then (c.known.get? k).map Reservation.reset else c.known.get? k) ∧
      ∀ k, (c.wake now).2.submitted.get? k =
        if k ∈ (c.wake now).1.map Reservation.id then some () else c.submitted.get? k := by
  have hdue : ∀ id ∈ (c.backoff.drain now).1, ∃ r, c.known.get? id = some r ∧ r.id = id := by
    intro id hid
    obtain ⟨r, hr⟩ := Option.isSome_iff_exists.1
      ((h.drain now).away_known id (List.mem_append_right _ hid))
    exact ⟨r, hr, h.known_id hr⟩
  obtain ⟨-, hmem, hknown, hsub, -⟩ :=
    go_eq (c := { c with backoff := (c.backoff.drain now).2 }.noteWaiting)
      (List.nodup_append.1 (h.drain now).away_nodup).2.1 hdue
  rw [(h.wake now).2.1]
  exact ⟨hmem, hknown, hsub⟩

theorem Neat.wake_away (h : Neat c []) (now : Time) :
    ∀ r ∈ (c.wake now).1, r.id ∉ (c.wake now).2.waiting := by
  obtain ⟨-, hids, hwait⟩ := h.wake now
  intro r hr hw
  rw [hwait] at hw
  exact (List.nodup_append.1 (h.drain now).away_nodup).2.2 r.id hw r.id
    (hids ▸ List.mem_map_of_mem hr) rfl

end ClusterBroker.GangControl
