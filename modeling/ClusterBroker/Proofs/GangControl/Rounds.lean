import ClusterBroker.Proofs.GangControl.Agreement
import ClusterBroker.Proofs.Ledger.Removal
import ClusterBroker.Proofs.Table

/-!
# Rounds and second chances

A round draws gangs from the submitted ones, and one after the other is released and waits. Gangs
whose time has come leave the queue together and are placed one after the other. Each step keeps
the agreement, with the gangs that are on the move in its lists.
-/
namespace ClusterBroker

namespace GangControl

variable {c : GangControl} {l l' : Ledger} {leaving : List (ReservationId × HandleId)}

/-! ### Stepping back -/

/-- Only who is on the list matters, not the order. -/
theorem Agrees.leaving_perm {leaving' : List (ReservationId × HandleId)}
    (h : Agrees c l [] leaving) (hp : leaving'.Perm leaving) : Agrees c l [] leaving' := by
  have hm : ∀ k, k ∈ leaving'.map Prod.fst ↔ k ∈ leaving.map Prod.fst := fun k =>
    (hp.map Prod.fst).mem_iff
  refine ⟨h.sound, h.known_id, h.known_gang, h.claim_eq, fun k => ?_, fun k => ?_,
    fun {k r} hr => ?_, h.waiting_nodup, h.waiting_away, h.hand_nodup, h.hand_known,
    (hp.map Prod.fst).nodup_iff.2 h.leaving_nodup, fun v hv => h.leaving_open v (hp.mem_iff.1 hv)⟩
  · rw [hm]
    exact h.submitted_iff k
  · rw [hm]
    exact h.known_iff k
  · rw [hm]
    exact h.backedOff_iff hr

theorem Agrees.of_submitted (h : Agrees c l [] leaving) {id : ReservationId}
    (hs : (c.submitted.get? id).isSome = true) :
    l.openGang id = true ∧ id ∉ leaving.map Prod.fst ∧ ∃ r, c.known.get? id = some r := by
  rcases (h.submitted_iff id).1 hs with hn | ⟨ho, hl⟩
  · simp at hn
  · exact ⟨ho, hl, Option.isSome_iff_exists.1 ((h.known_iff id).2 (.inl hs))⟩

/-- A submitted gang is drawn: it is marked, and on its way out. -/
theorem Agrees.draw (h : Agrees c l [] leaving) {id : ReservationId} {r : Reservation}
    (hs : (c.submitted.get? id).isSome = true) (hr : c.known.get? id = some r) (d : Dice) :
    Agrees { c with dice := d, submitted := c.submitted.remove id,
                    known := c.known.insert id { r with status := .backedOff } }
      l [] ((id, r.handle) :: leaving) := by
  obtain ⟨hopen, hnot, -⟩ := h.of_submitted hs
  obtain rfl := h.known_id hr
  have hclaim : ∀ t, l.get? r.id = some t → t.claim = r.claim := fun _ ht => h.claim_eq hr ht
  have hwell := fun {k s} => h.known_insert (k := k) (t := s)
    (r := { r with status := .backedOff }) (h.known_gang hr).1 (h.known_gang hr).2 hclaim
    fun _ _ => rfl
  have hknown : ∀ k, (c.known.insert r.id { r with status := .backedOff }).get? k =
      if r.id = k then some { r with status := .backedOff } else c.known.get? k :=
    fun k => Table.get?_insert ..
  have hsub : ∀ k, (c.submitted.remove r.id).get? k =
      if r.id = k then none else c.submitted.get? k := fun k => Table.get?_erase ..
  have hmem : ∀ k, k ∈ ((r.id, r.handle) :: leaving).map Prod.fst ↔
      k = r.id ∨ k ∈ leaving.map Prod.fst := fun k => by rw [List.map_cons, List.mem_cons]
  refine ⟨h.sound, fun hk => (hwell hk).1, fun hk => (hwell hk).2.1,
    fun hk ht => (hwell hk).2.2 _ ht, fun k => ?_, fun k => ?_, fun {k s} hk => ?_,
    h.waiting_nodup, h.waiting_away, h.hand_nodup, List.forall_mem_nil _, ?_, fun v hv => ?_⟩
  · rw [hsub, hmem]
    split
    next he => simp [he]
    next he =>
      rw [h.submitted_iff]
      simp [Ne.symm he]
  · rw [hknown, hsub, hmem]
    split
    next he => simp [he]
    next he =>
      rw [h.known_iff]
      simp only [Ne.symm he, false_or]
      rfl
  · rw [hknown] at hk
    rw [hmem]
    split at hk
    next he => rw [← Option.some.inj hk]; simp [he]
    next he =>
      rw [h.backedOff_iff hk]
      simp only [Ne.symm he, false_or]
      rfl
  · rw [List.map_cons, List.nodup_cons]
    exact ⟨hnot, h.leaving_nodup⟩
  · rcases List.mem_cons.1 hv with rfl | hv
    · exact ⟨hopen, { r with status := .backedOff }, by rw [hknown, if_pos rfl], rfl⟩
    · obtain ⟨ho, s, hs', hh⟩ := h.leaving_open v hv
      refine ⟨ho, s, ?_, hh⟩
      rw [hknown, if_neg]
      · exact hs'
      · intro he
        exact hnot (he ▸ List.mem_map_of_mem hv)

/-- A round's draws. None is wasted on a gang that is not known. -/
theorem Agrees.pick (h : Agrees c l [] leaving) (wanted n : Nat) :
    Agrees (c.pick wanted n).2 l [] ((c.pick wanted n).1 ++ leaving) ∧
      (c.pick wanted n).2.submitted.size + (c.pick wanted n).1.length = c.submitted.size := by
  induction n generalizing c wanted leaving with
  | zero => exact ⟨h, rfl⟩
  | succ n ih =>
    unfold GangControl.pick
    split
    next => exact ⟨h, rfl⟩
    next =>
      dsimp only
      split
      next => exact ⟨h, rfl⟩
      next id hid =>
        have hs := Table.mem_keys.1 (List.mem_of_getElem? hid)
        obtain ⟨-, -, r, hr⟩ := h.of_submitted hs
        have hsize : (c.submitted.remove id).size + 1 = c.submitted.size := Table.size_erase hs
        have hdraw := h.draw hs hr (c.dice.draw c.submitted.size).2
        simp only [hr]
        obtain ⟨hrest, hlen⟩ := ih hdraw (wanted - r.resources.length)
        refine ⟨hrest.leaving_perm List.perm_middle.symm, ?_⟩
        rw [List.length_cons]
        dsimp only at hlen ⊢
        omega

/-- A released gang waits from now on. -/
theorem Agrees.stepBack {v : ReservationId × HandleId} (h : Agrees c l [] (v :: leaving))
    (now : Time) (hl : l'.Sound) (hg : ∀ k, l'.get? k = if v.1 = k then none else l.get? k) :
    Agrees (c.stepBack now v.1) l' [] leaving := by
  obtain ⟨hopen, r, hr, -⟩ := h.leaving_open v (List.mem_cons_self ..)
  obtain ⟨hgang, hf⟩ := h.known_gang hr
  have hnd := h.leaving_nodup
  rw [List.map_cons, List.nodup_cons] at hnd
  have hstep := stepBack_eq_wait hr now
  obtain ⟨hkn, hsub, hwt⟩ := wait_books now r.reset c
  have hid := h.known_id hr
  have hrid : r.reset.id = v.1 := hid
  have hknown : ∀ k, (c.wait now r.reset).known.get? k =
      if v.1 = k then some { r.reset with status := .backedOff } else c.known.get? k := by
    intro k
    rw [hkn, Table.get?_insert, ← hrid]
  have hmem : ∀ k, k ∈ (v :: leaving).map Prod.fst ↔ k = v.1 ∨ k ∈ leaving.map Prod.fst :=
    fun k => by rw [List.map_cons, List.mem_cons]
  have hfresh : v.1 ∉ c.waiting := by
    intro hw
    rw [Ledger.openGang_of_none (h.waiting_away v.1 hw).1] at hopen
    simp at hopen
  have hreset : ({ r.reset with status := .backedOff } : Reservation).reset.Fresh := by
    rw [Reservation.reset_status, hf.reset_eq]
    exact hf
  have hclaim : ∀ t, l'.get? r.reset.id = some t → t.claim = r.reset.claim := by
    intro t ht
    rw [hg, if_pos hrid.symm] at ht
    simp at ht
  have hwell := fun {k s} => h.known_insert (k := k) (t := s)
    (r := { r.reset with status := .backedOff }) hgang hreset hclaim
    fun k hk => by rw [hg, if_neg (hrid ▸ hk)]
  rw [← hkn] at hwell
  rw [hrid] at hwt
  rw [hstep]
  refine ⟨hl, fun hk => (hwell hk).1, fun hk => (hwell hk).2.1, fun hk ht => (hwell hk).2.2 _ ht,
    fun k => ?_, fun k => ?_, fun {k s} hk => ?_, ?_, fun k hw => ?_, by simp,
    List.forall_mem_nil _, hnd.2, fun w hw => ?_⟩
  · rw [hsub, h.submitted_iff, hmem]
    unfold Ledger.openGang
    rw [hg]
    by_cases he : v.1 = k
    · simp [he]
    · simp [he, Ne.symm he]
  · rw [hknown, hsub, hwt, List.mem_cons]
    split
    next he => simp [he]
    next he =>
      rw [h.known_iff, hmem]
      simp [Ne.symm he]
  · rw [hknown] at hk
    rw [hwt, List.mem_cons]
    split at hk
    next he => rw [← Option.some.inj hk]; simp [he]
    next he =>
      rw [h.backedOff_iff hk, hmem]
      simp [Ne.symm he]
  · rw [hwt, List.nodup_cons]
    exact ⟨hfresh, h.waiting_nodup⟩
  · rw [hwt, List.mem_cons] at hw
    rw [hg]
    rcases hw with rfl | hw
    · simp
    · refine ⟨?_, by simp⟩
      rw [(h.waiting_away k hw).1]
      simp
  · have hne : v.1 ≠ w.1 := by
      intro he
      exact hnd.1 (he ▸ List.mem_map_of_mem hw)
    obtain ⟨ho, s, hs, hh⟩ := h.leaving_open w (List.mem_cons_of_mem v hw)
    refine ⟨?_, s, ?_, hh⟩
    · unfold Ledger.openGang
      rw [hg, if_neg hne]
      exact ho
    · rw [hknown, if_neg hne]
      exact hs

theorem noteRound_books (c : GangControl) :
    (c.pickVictims.2.noteRound c.pickVictims.1).known = c.pickVictims.2.known ∧
      (c.pickVictims.2.noteRound c.pickVictims.1).submitted = c.pickVictims.2.submitted ∧
      (c.pickVictims.2.noteRound c.pickVictims.1).backoff = c.pickVictims.2.backoff := by
  unfold GangControl.noteRound
  split
  · exact ⟨rfl, rfl, rfl⟩
  · exact ⟨rfl, rfl, rfl⟩

theorem Agrees.noteRound (h : Agrees c l [] []) :
    Agrees (c.pickVictims.2.noteRound c.pickVictims.1) l [] c.pickVictims.1 := by
  obtain ⟨hk, hs, hb⟩ := noteRound_books c
  have hp := (h.pick c.target c.submitted.size).1
  rw [List.append_nil] at hp
  exact hp.congr hk hs hb

/-- After the first gangs have stepped back, the others are still on their way out. -/
theorem Agrees.stepBacks {first : List (ReservationId × HandleId)}
    (h : Agrees c l [] (first ++ leaving)) (now : Time) :
    ∃ l', Agrees (first.foldl (fun c v => c.stepBack now v.1) c) l' [] leaving := by
  induction first generalizing c l with
  | nil => exact ⟨l, h⟩
  | cons v first ih =>
    obtain ⟨hl, hg⟩ := Ledger.remove_ledger h.sound v.1
    exact ih (h.stepBack now hl hg)

/-! ### Second chances -/

theorem Agrees.drain_splits (h : Agrees c l [] []) (now : Time) :
    (c.backoff.drain now).1.Nodup ∧ (c.backoff.drain now).2.payloads.Nodup ∧
      (∀ k ∈ (c.backoff.drain now).1, k ∈ c.waiting ∧ k ∉ (c.backoff.drain now).2.payloads) ∧
      ∀ k, k ∉ (c.backoff.drain now).1 →
        (k ∈ c.waiting ↔ k ∈ (c.backoff.drain now).2.payloads) := by
  have hp := c.backoff.drain_perm now
  obtain ⟨h₁, h₂, h₃⟩ := List.nodup_append.1 (hp.nodup_iff.2 h.waiting_nodup)
  have hm : ∀ k, k ∈ c.waiting ↔
      k ∈ (c.backoff.drain now).1 ∨ k ∈ (c.backoff.drain now).2.payloads := by
    intro k
    rw [← List.mem_append]
    exact hp.mem_iff.symm
  refine ⟨h₁, h₂, fun k hk => ⟨(hm k).2 (.inl hk), fun hk' => h₃ k hk k hk' rfl⟩,
    fun k hk => ?_⟩
  rw [hm]
  simp [hk]

theorem Agrees.due_known (h : Agrees c l [] []) (now : Time) :
    ∀ id ∈ (c.backoff.drain now).1, ∃ r, c.known.get? id = some r ∧ r.id = id := by
  intro id hid
  obtain ⟨-, -, hdue, -⟩ := h.drain_splits now
  obtain ⟨r, hr, -⟩ := h.tidy id (hdue id hid).1
  exact ⟨r, hr, h.known_id hr⟩

/-- What is due is in hand, and no drained id is passed over. -/
theorem Agrees.wake (h : Agrees c l [] []) (now : Time) :
    Agrees (c.wake now).2 l (c.wake now).1 [] ∧
      (c.wake now).1.map Reservation.id = (c.backoff.drain now).1 := by
  obtain ⟨hn, hn', hdue, hlater⟩ := h.drain_splits now
  obtain ⟨hids, hmem, hknown, hsub, hback⟩ := go_eq hn
    (c := { c with backoff := (c.backoff.drain now).2 }.noteWaiting) (h.due_known now)
  have hwait : (c.wake now).2.waiting = (c.backoff.drain now).2.payloads :=
    congrArg DelayQueue.payloads hback
  have hout : wake.go (c.backoff.drain now).1
      { c with backoff := (c.backoff.drain now).2 }.noteWaiting = c.wake now := rfl
  rw [hout] at hids hmem hknown hsub
  generalize (c.backoff.drain now).1 = ids at *
  generalize (c.backoff.drain now).2.payloads = later at *
  have hknown : ∀ k, (c.wake now).2.known.get? k =
      if k ∈ ids then (c.known.get? k).map Reservation.reset else c.known.get? k := hknown
  have hsub : ∀ k, (c.wake now).2.submitted.get? k =
      if k ∈ ids then some () else c.submitted.get? k := hsub
  have hmem : ∀ r ∈ (c.wake now).1, ∃ s, c.known.get? r.id = some s ∧ r = s.reset := hmem
  -- Each copy is either due, and reset, or as it was.
  have hfrom : ∀ {k s}, (c.wake now).2.known.get? k = some s →
      k ∈ ids ∧ (∃ r, c.known.get? k = some r ∧ s = r.reset) ∨
        k ∉ ids ∧ c.known.get? k = some s := by
    intro k s hs
    rw [hknown] at hs
    split at hs
    next hk =>
      obtain ⟨r, hr, rfl⟩ := Option.map_eq_some_iff.1 hs
      exact .inl ⟨hk, r, hr, rfl⟩
    next hk => exact .inr ⟨hk, hs⟩
  have haway : ∀ k ∈ ids, l.get? k = none := fun k hk => (h.waiting_away k (hdue k hk).1).1
  refine ⟨⟨h.sound, fun {k s} hs => ?_, fun {k s} hs => ?_, fun {k s t} hs ht => ?_, fun k => ?_,
    fun k => ?_, fun {k s} hs => ?_, ?_, fun k hk => ?_, ?_, fun r hr => ?_,
    List.nodup_nil, List.forall_mem_nil _⟩, hids⟩
  · rcases hfrom hs with ⟨-, r, hr, rfl⟩ | ⟨-, hr⟩
    · exact (h.known_id hr :)
    · exact h.known_id hr
  · rcases hfrom hs with ⟨-, r, hr, rfl⟩ | ⟨-, hr⟩
    · obtain ⟨hg, hf⟩ := h.known_gang hr
      rw [hf.reset_eq]
      exact ⟨hg, hf⟩
    · exact h.known_gang hr
  · rcases hfrom hs with ⟨hk, -⟩ | ⟨-, hr⟩
    · rw [haway k hk] at ht
      simp at ht
    · exact h.claim_eq hr ht
  · rw [hsub, hids]
    by_cases hk : k ∈ ids
    · simp [hk]
    · simpa [hk] using h.submitted_iff k
  · rw [hknown, hsub, hwait]
    by_cases hk : k ∈ ids
    · have hs := (h.known_iff k).2 (.inr (.inl (hdue k hk).1))
      simp [hk, hs]
    · rw [if_neg hk, if_neg hk, h.known_iff, hlater k hk]
  · rw [hwait]
    rcases hfrom hs with ⟨hk, r, hr, rfl⟩ | ⟨hk, hr⟩
    · simp [Reservation.reset, (hdue k hk).2]
    · rw [h.backedOff_iff hr, hlater k hk]
  · rw [hwait]
    exact hn'
  · rw [hwait] at hk
    have hnot : k ∉ ids := fun hin => (hdue k hin).2 hk
    rw [hids]
    exact ⟨(h.waiting_away k ((hlater k hnot).2 hk)).1, hnot⟩
  · rw [hids]
    exact hn
  · obtain ⟨s, hs, he⟩ := hmem r hr
    have hin : r.id ∈ ids := hids ▸ List.mem_map_of_mem hr
    refine ⟨?_, he ▸ (h.known_gang hs).2, haway r.id hin⟩
    rw [hknown, if_pos hin, hs, Option.map_some, ← he]

end GangControl

end ClusterBroker
