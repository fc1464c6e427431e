import ClusterBroker.Proofs.CachedConnector
import ClusterBroker.Proofs.Custody.Loss

/-!
# What a round frees

Gangs that step back are released without a word that no cache may keep what they held. So what
was allocated stays in the cache as far as the manager agrees to a new name for it, and only the
rest is given back: for those who wait at the manager a round may free nothing.
-/
namespace ClusterBroker

/-- The resource was named in a release. -/
def Traffic.Returned (log : List Traffic) (x : Resource) : Prop :=
  ∃ rs, Traffic.released rs ∈ log ∧ x ∈ rs

namespace CachedConnector

open Traffic (Returned)

variable {σ : Type} {C : Connector σ} {u : Supply} {clock : Time}
  {s s' s'' : CachedConnector (Traced σ)} {new new' : List Traffic} {x : Resource}

/-- The log gets longer, and the cache changes only under the ids that were drawn. -/
structure Extends (u : Supply) (new : List Traffic) (s s' : CachedConnector (Traced σ)) :
    Prop where
  log_eq : s'.inner.log = s.inner.log ++ new
  drawn_le : s.drawn ≤ s'.drawn
  entries_eq : ∀ id, (∀ n, s.drawn ≤ n → n < s'.drawn → u.mint n ≠ id) →
    s'.cache.entries.get? id = s.cache.entries.get? id

/-- The cache has what the resource was allocated, under an id drawn meanwhile to which the
manager agreed. -/
def Stowed (C : Connector σ) (u : Supply) (clock : Time) (s s' : CachedConnector (Traced σ))
    (x : Resource) : Prop :=
  ∃ a n t, x.allocation = some a ∧ s.drawn ≤ n ∧ n < s'.drawn ∧
    (C.reassign a.managerId (u.mint n) t).1 = .ok true ∧
    s'.cache.entries.get? (u.mint n) = some ⟨u.mint n, x, a, clock⟩

theorem Extends.refl (u : Supply) (s : CachedConnector (Traced σ)) : Extends u [] s s :=
  ⟨(List.append_nil _).symm, Nat.le_refl _, fun _ _ => rfl⟩

theorem Extends.trans (h : Extends u new s s') (h' : Extends u new' s' s'') :
    Extends u (new ++ new') s s'' := by
  refine ⟨?_, Nat.le_trans h.drawn_le h'.drawn_le, fun id hid => ?_⟩
  · rw [h'.log_eq, h.log_eq, List.append_assoc]
  · rw [h'.entries_eq id fun n hn hn' => hid n (Nat.le_trans h.drawn_le hn) hn',
      h.entries_eq id fun n hn hn' => hid n hn (Nat.lt_of_lt_of_le hn' h'.drawn_le)]

theorem Stowed.earlier (he : Extends u new s s') (h : Stowed C u clock s' s'' x) :
    Stowed C u clock s s'' x := by
  obtain ⟨a, n, t, ha, hn, hn', hr, hg⟩ := h
  exact ⟨a, n, t, ha, Nat.le_trans he.drawn_le hn, hn', hr, hg⟩

/-- The ids that are drawn later are others, as long as the supply lasts. -/
theorem Stowed.later (h : Stowed C u clock s s' x) (he : Extends u new s' s'')
    (hw : s''.drawn ≤ u.size) : Stowed C u clock s s'' x := by
  obtain ⟨a, n, t, ha, hn, hn', hr, hg⟩ := h
  have hlt := Nat.lt_of_lt_of_le hn' he.drawn_le
  refine ⟨a, n, t, ha, hn, hlt, hr, ?_⟩
  rw [he.entries_eq, hg]
  intro m hm hm' hmint
  have hmn := u.distinct m n (Nat.lt_of_lt_of_le hm' hw) (Nat.lt_of_lt_of_le hlt hw) hmint
  omega

/-! ### Releasing -/

theorem keep_stows (u : Supply) (clock : Time) (r : Resource) (s : CachedConnector (Traced σ)) :
    ∃ new, Extends u new s (s.keep C.traced u.mint clock r).2 ∧
      ((s.keep C.traced u.mint clock r).1 = true →
        Stowed C u clock s (s.keep C.traced u.mint clock r).2 r) := by
  unfold keep
  cases ha : r.allocation with
  | none => exact ⟨[], .refl u s, fun h => absurd h Bool.false_ne_true⟩
  | some a =>
    dsimp only
    have hlog : ∃ new, (C.traced.reassign a.managerId (u.mint s.drawn) s.inner).2.log =
        s.inner.log ++ new := by
      rcases traced_reassign (C := C) a.managerId (u.mint s.drawn) s.inner with ⟨-, hl⟩ | ⟨-, hl⟩
      · exact ⟨_, hl⟩
      · exact ⟨[], hl.trans (List.append_nil _).symm⟩
    obtain ⟨new, hlog⟩ := hlog
    split
    next hok =>
      have hagreed : (C.reassign a.managerId (u.mint s.drawn) s.inner.state).1 = .ok true := by
        unfold Connector.traced at hok
        dsimp only at hok
        split at hok <;> exact hok
      have hstore : ∀ id, (s.cache.store clock (u.mint s.drawn) r).2.entries.get? id =
          if u.mint s.drawn = id then some ⟨u.mint s.drawn, r, a, clock⟩
          else s.cache.entries.get? id := by
        intro id
        rw [(Cache.store_entries clock (u.mint s.drawn) s.cache ha).2, Table.get?_insert]
      refine ⟨new, ⟨hlog, Nat.le_succ _, fun id hid => ?_⟩, fun _ =>
        ⟨a, s.drawn, s.inner.state, ha, Nat.le_refl _, Nat.lt_succ_self _, hagreed, ?_⟩⟩
      · exact (hstore id).trans (if_neg (hid s.drawn (Nat.le_refl _) (Nat.lt_succ_self _)))
      · exact (hstore _).trans (if_pos rfl)
    next => exact ⟨new, ⟨hlog, Nat.le_succ _, fun _ _ => rfl⟩, fun h => absurd h Bool.false_ne_true⟩

/-- What is not returned is kept. -/
theorem keepAll_stows (u : Supply) (clock : Time) (rs : List Resource)
    (s : CachedConnector (Traced σ)) :
    ∃ new, Extends u new s (s.keepAll C.traced u.mint clock rs).2 ∧
      ((s.keepAll C.traced u.mint clock rs).2.drawn ≤ u.size →
        ∀ x ∈ rs, x ∈ (s.keepAll C.traced u.mint clock rs).1 ∨
          Stowed C u clock s (s.keepAll C.traced u.mint clock rs).2 x) := by
  induction rs generalizing s with
  | nil => exact ⟨[], .refl u s, fun _ => List.forall_mem_nil _⟩
  | cons r rs ih =>
    obtain ⟨new, he, hr⟩ := keep_stows (C := C) u clock r s
    obtain ⟨new', he', hrest⟩ := ih (s.keep C.traced u.mint clock r).2
    unfold keepAll
    dsimp only
    refine ⟨new ++ new', he.trans he', fun hw => List.forall_mem_cons.2 ⟨?_, fun x hx => ?_⟩⟩
    · split
      next hk => exact .inr ((hr hk).later he' hw)
      next => exact .inl (List.mem_cons_self ..)
    · rcases hrest hw x hx with hleft | hst
      · split
        · exact .inl hleft
        · exact .inl (List.mem_cons_of_mem r hleft)
      · exact .inr (hst.earlier he)

theorem release_stows (u : Supply) (clock : Time) (rs : List Resource)
    (s : CachedConnector (Traced σ)) :
    ∃ new, Extends u new s (s.release C.traced u.mint clock rs false).2 ∧
      ((s.release C.traced u.mint clock rs false).2.drawn ≤ u.size →
        ∀ x ∈ rs, Returned new x ∨
          Stowed C u clock s (s.release C.traced u.mint clock rs false).2 x) := by
  obtain ⟨new, he, hk⟩ := keepAll_stows (C := C) u clock rs s
  unfold release
  rw [if_neg (by simp)]
  dsimp only
  split
  next hnil =>
    rw [List.isEmpty_iff.1 hnil] at hk
    refine ⟨new, he, fun hw x hx => ?_⟩
    rcases hk hw x hx with hleft | hst
    · simp at hleft
    · exact .inr hst
  next =>
    have hback : Extends u [.released (s.keepAll C.traced u.mint clock rs).1]
        (s.keepAll C.traced u.mint clock rs).2 { (s.keepAll C.traced u.mint clock rs).2 with
          inner := (C.traced.release clock (s.keepAll C.traced u.mint clock rs).1 false
            (s.keepAll C.traced u.mint clock rs).2.inner).2 } :=
      ⟨rfl, Nat.le_refl _, fun _ _ => rfl⟩
    refine ⟨new ++ _, he.trans hback, fun hw x hx => ?_⟩
    rcases hk hw x hx with hleft | hst
    · exact .inl ⟨_, List.mem_append_right _ (List.mem_singleton.2 rfl), hleft⟩
    · exact .inr (hst.later hback hw)

end CachedConnector

namespace Desk

open CachedConnector (Extends Stowed)
open Traffic (Returned)

variable {σ : Type} {C : Connector σ} {s : CachedConnector (Traced σ)}
  {d : Desk (Tier (Traced σ))}

/-- A reservation is released, and the cache may keep what it held. -/
theorem release_stows (u : Supply) (clock : Time) (hc : d.connector = .cached s) (h : HandleId)
    (id : ReservationId) : ∃ s' new,
      (d.release (Tier.connector C.traced u.mint) clock h id false).2.connector = .cached s' ∧
      Extends u new s s' ∧ (s'.drawn ≤ u.size → ∀ r, d.ledger.get? id = some r → r.handle = h →
        ∀ x ∈ r.resources, Returned new x ∨ Stowed C u clock s s' x) := by
  unfold release
  have hget : d.registry.get? id = d.ledger.get? id := rfl
  rw [hget]
  cases hr : d.ledger.get? id with
  | none => exact ⟨s, [], hc, .refl u s, nofun⟩
  | some r =>
    dsimp only
    split
    next =>
      obtain ⟨new, he, hst⟩ := CachedConnector.release_stows (C := C) u clock r.resources s
      unfold giveBack
      simp only [List.flatMap_cons, List.flatMap_nil, List.append_nil, Reservation.ended_resources]
      split
      next hnil =>
        refine ⟨s, [], hc, .refl u s, fun _ t ht _ x hx => ?_⟩
        rw [← Option.some.inj ht, List.isEmpty_iff.1 hnil] at hx
        simp at hx
      next =>
        refine ⟨_, new, ?_, he, fun hw t ht _ x hx => hst hw x (Option.some.inj ht ▸ hx)⟩
        change ((Tier.connector C.traced u.mint).release clock r.resources false d.connector).2 = _
        rw [hc]
        rfl
    next hne =>
      refine ⟨s, [], hc, .refl u s, fun _ t ht hh => ?_⟩
      exact absurd (Option.some.inj ht ▸ hh) hne

end Desk

namespace Broker

open CachedConnector (Extends Stowed)
open Traffic (Returned)

variable {σ : Type} {C : Connector σ} {u : Supply} (clock now : Time)
  {b : Broker (Tier (Traced σ))}

/-- One after the other steps back; what the registry tracks for one is not touched before it is
that one's turn. -/
theorem stepBacks_stow (hs : b.desk.ledger.Sound) {s : CachedConnector (Traced σ)}
    (hc : b.desk.connector = .cached s) (vs : List (ReservationId × HandleId)) : ∃ s' new,
      (vs.foldl (stepBack (Tier.connector C.traced u.mint) clock now) b).desk.connector =
        .cached s' ∧
      Extends u new s s' ∧ (s'.drawn ≤ u.size → ∀ v ∈ vs, ∀ r, b.desk.ledger.get? v.1 = some r →
        r.handle = v.2 → ∀ x ∈ r.resources, Returned new x ∨ Stowed C u clock s s' x) := by
  induction vs generalizing b s with
  | nil => exact ⟨s, [], hc, .refl u s, fun _ => List.forall_mem_nil _⟩
  | cons v vs ih =>
    obtain ⟨hs₁, hg⟩ := Desk.release_ledger (Tier.connector C.traced u.mint) clock hs v.2 v.1 false
    obtain ⟨s₁, new₁, hc₁, he₁, hone⟩ := Desk.release_stows (C := C) u clock hc v.2 v.1
    obtain ⟨s₂, new₂, hc₂, he₂, hrest⟩ :=
      ih (b := b.stepBack (Tier.connector C.traced u.mint) clock now v) hs₁ hc₁
    refine ⟨s₂, new₁ ++ new₂, hc₂, he₁.trans he₂, fun hw w hm r hr hh x hx => ?_⟩
    have hfirst : w.1 = v.1 → w.2 = v.2 →
        Returned (new₁ ++ new₂) x ∨ Stowed C u clock s s₂ x := by
      intro hid hhd
      rcases hone (Nat.le_trans he₂.drawn_le hw) r (hid ▸ hr) (hh.trans hhd) x hx with hret | hst
      · obtain ⟨rs, hrs, hmem⟩ := hret
        exact .inl ⟨rs, List.mem_append_left _ hrs, hmem⟩
      · exact .inr (hst.later he₂ hw)
    by_cases hv : w.1 = v.1 ∧ w.2 = v.2
    · exact hfirst hv.1 hv.2
    · have hw' : w ∈ vs := by
        rcases List.mem_cons.1 hm with rfl | hm
        · exact absurd ⟨rfl, rfl⟩ hv
        · exact hm
      have hr' : (b.stepBack (Tier.connector C.traced u.mint) clock now v).desk.ledger.get? w.1 =
          some r := by
        refine (hg w.1).trans ?_
        rw [if_neg, hr]
        rintro ⟨hid, hany⟩
        rw [hid, hr] at hany
        have hrh : r.handle = v.2 := by simpa using hany
        exact hv ⟨hid.symm, hh.symm.trans hrh⟩
      rcases hrest hw w hw' r hr' hh x hx with hret | hst
      · obtain ⟨rs, hrs, hmem⟩ := hret
        exact .inl ⟨rs, List.mem_append_right _ hrs, hmem⟩
      · exact .inr (hst.earlier he₁)

/-! ### Reachable states -/

/-- By itself the connector changes by upkeep only. -/
def Op.Tended (C : Connector σ) (clock : Time) (op : Op (Tier (Traced σ))) : Prop :=
  ∀ f, op = .tend f → Desk.Upkeep C clock f

theorem Op.run_cached {op : Op (Tier (Traced σ))} (hop : op.Tended C clock)
    (h : Tier.Has (fun _ _ => True) b.desk.connector) :
    Tier.Has (fun _ _ => True)
      (op.run (Tier.connector C.traced u.mint) clock b).desk.connector := by
  have hkeeps : (Tier.connector C.traced u.mint).Keeps (Tier.Has fun _ _ => True) :=
    Tier.connector_keeps ⟨fun _ _ => trivial, fun _ _ => trivial, fun _ => trivial,
      fun _ _ _ => trivial⟩
  cases op with
  | halt order =>
    obtain ⟨s, hs, -⟩ := h
    refine ⟨s.halted C.traced, ?_, trivial⟩
    change (Tier.connector C.traced u.mint).halted b.desk.connector = _
    rw [hs]
    rfl
  | stop =>
    change Tier.Has _ (b.desk.stop (Tier.connector C.traced u.mint) clock).2.connector
    unfold Desk.stop
    split
    · exact h
    · obtain ⟨s, hs, -⟩ := Desk.releaseWhere_connector hkeeps clock
        (d := { b.desk with registry := { b.desk.registry with stopped := true } }) h
        (fun _ => true) true
      refine ⟨(s.unregister C.traced clock).2, ?_, trivial⟩
      change ((Tier.connector C.traced u.mint).unregister clock (Desk.connector _)).2 = _
      rw [hs]
      rfl
  | tend f =>
    obtain ⟨s, hs, -⟩ := h
    change Tier.Has _ (f b.desk.connector)
    rw [hs]
    cases hop f rfl with
    | sweep => exact ⟨_, rfl, trivial⟩
    | drain => exact ⟨_, rfl, trivial⟩
    | inner g => exact ⟨_, rfl, trivial⟩
  | reserve | release | releaseHandle | releaseQueue | start | nodes | deliver | avoidDeadlock
  | retry | turn | roll | addClient | removeClient => exact Op.run_connector clock hkeeps h rfl

theorem after_cached {run : List (Time × Op (Tier (Traced σ)))}
    (hrun : ∀ e ∈ run, e.2.Tended C e.1) (h : Tier.Has (fun _ _ => True) b.desk.connector) :
    Tier.Has (fun _ _ => True)
      (after (Tier.connector C.traced u.mint) run b).desk.connector := by
  induction run generalizing b with
  | nil => exact h
  | cons e run ih =>
    obtain ⟨hop, hrest⟩ := List.forall_mem_cons.1 hrun
    exact ih hrest (Op.run_cached e.1 hop h)

/-- After any run over a cached connector, whatever the manager answers, and whoever a round draws:
each resource of a reservation that steps back is named in a release of the round, or the manager
agreed to a new name for it and the cache has it at the end. So it is given back for certain only if
it was not allocated, or if the manager never agrees. -/
theorem round_returns_or_keeps (o : DeadlockOptions) (policy : EvictionPolicy) (queue : QueueName)
    (s : σ) (opened : Time) {run : List (Time × Op (Tier (Traced σ)))}
    (hrun : ∀ e ∈ run, e.2.Tended C e.1) (c : GangControl)
    (hdrawn : ((after (Tier.connector C.traced u.mint) run (stacked opened (some o) policy queue
      s)).backOffRound (Tier.connector C.traced u.mint) clock now c).desk.drawn ≤ u.size) :
    let b := after (Tier.connector C.traced u.mint) run (stacked opened (some o) policy queue s)
    let b' := b.backOffRound (Tier.connector C.traced u.mint) clock now c
    ∃ t t' new, b.desk.connector = .cached t ∧ b'.desk.connector = .cached t' ∧
      b'.desk.traffic = b.desk.traffic ++ new ∧
      ∀ v ∈ c.pickVictims.1, ∀ r, b.registry.get? v.1 = some r → r.handle = v.2 →
        ∀ x ∈ r.resources, (Returned new x ∨ Stowed C u clock t t' x) ∧
          (x.allocation = none ∨ (∀ m id t, (C.reassign m id t).1 ≠ .ok true) →
            Returned new x) := by
  intro b b'
  have hsound : b.desk.ledger.Sound := after_sound opened _ o queue _ run
  obtain ⟨t, ht, -⟩ : Tier.Has (fun _ _ => True) b.desk.connector :=
    after_cached hrun ⟨_, rfl, trivial⟩
  obtain ⟨t', new, ht', he, hall⟩ := stepBacks_stow (C := C) (u := u) clock now
    (b := b.modifyControl fun _ => c.pickVictims.2.noteRound c.pickVictims.1) hsound ht
    c.pickVictims.1
  have ht' : b'.desk.connector = .cached t' := ht'
  have hw : t'.drawn ≤ u.size := by
    unfold Desk.drawn at hdrawn
    rw [ht'] at hdrawn
    exact hdrawn
  refine ⟨t, t', new, ht, ht', ?_, fun v hv r hr hh x hx => ?_⟩
  · unfold Desk.traffic
    rw [ht, ht']
    exact he.log_eq
  · have hfate := hall hw v hv r hr hh x hx
    refine ⟨hfate, fun hno => hfate.resolve_right ?_⟩
    rintro ⟨a, n, t, ha, -, -, hok, -⟩
    rcases hno with hno | hno
    · rw [hno] at ha
      simp at ha
    · exact hno a.managerId (u.mint n) t hok

/-- The gang 7 of the handle 3 asks for two resources and is given the first, which the manager
calls `m`. -/
def halfGiven : List (Time × Op (Tier (Traced ScriptedManager))) := [
  (.ofMillis 0, .start),
  (.ofMillis 1, .reserve (.ofNat 7) ⟨.ofNat 3, ⟨"queue"⟩, true,
    [⟨.ofNat 1, ⟨"node"⟩, .dontCare, 1, 512⟩, ⟨.ofNat 2, ⟨"node"⟩, .dontCare, 1, 512⟩]⟩),
  (.ofMillis 2, .deliver [.allocated (.ofNat 1) ⟨1, 512, ⟨"node"⟩, ⟨"m"⟩⟩])]

/-- What it was not given is returned. -/
theorem round_returns_or_keeps_pending :
    let T := Tier.connector ScriptedManager.connector.traced Desk.hundreds.mint
    let b := after T halfGiven
      (stacked (.ofMillis 0) (some { backoffPercent := 100 }) .never ⟨"queue"⟩ {})
    let x : Resource := {
      ask := ⟨⟨2, by decide⟩, ⟨"node"⟩, .dontCare, 1, 512⟩
      reservation := ⟨7, by decide⟩, handle := ⟨3, by decide⟩, queue := ⟨"queue"⟩ }
    ∃ c, b.control? = some c ∧
      Returned (b.backOffRound T (.ofMillis 40000) (.ofMillis 40000) c).desk.traffic x := by
  intro T b x
  have hrun : ∀ e ∈ halfGiven, e.2.Tended ScriptedManager.connector e.1 := by
    intro e he f hf
    simp only [halfGiven, List.mem_cons, List.not_mem_nil, or_false] at he
    rcases he with rfl | rfl | rfl <;> simp at hf
  have hround : (b.control?.any fun c =>
      decide ((b.backOffRound T (.ofMillis 40000) (.ofMillis 40000) c).desk.drawn ≤
        Desk.hundreds.size) &&
        decide (((⟨7, by decide⟩, ⟨3, by decide⟩) : ReservationId × HandleId) ∈ c.pickVictims.1)) =
      true := by
    decide +kernel
  have htracked : ((b.registry.get? ⟨7, by decide⟩).any fun r =>
      decide (r.handle = ⟨3, by decide⟩) && decide (x ∈ r.resources)) = true := by
    decide +kernel
  obtain ⟨c, hc, hround⟩ := (Option.any_eq_true _ _).1 hround
  obtain ⟨r, hr, htracked⟩ := (Option.any_eq_true _ _).1 htracked
  simp only [Bool.and_eq_true, decide_eq_true_eq] at hround htracked
  have hdrawn : (b.backOffRound T (.ofMillis 40000) (.ofMillis 40000) c).desk.drawn ≤
      Desk.hundreds.size := hround.1
  have hall := round_returns_or_keeps (C := ScriptedManager.connector) (u := Desk.hundreds)
    (.ofMillis 40000) (.ofMillis 40000) { backoffPercent := 100 } .never ⟨"queue"⟩ {} (.ofMillis 0)
    hrun c hdrawn
  obtain ⟨t, t', new, -, -, hlog, hall⟩ := hall
  obtain ⟨rs, hrs, hx⟩ := (hall _ hround.2 r hr htracked.1 x htracked.2).2 (.inl rfl)
  refine ⟨c, hc, rs, ?_, hx⟩
  rw [hlog]
  exact List.mem_append_right _ hrs

/-- What it was given is not returned, though no release fails: the manager is asked for a new name,
and the cache keeps it. -/
theorem round_keeps_allocated :
    let T := Tier.connector ScriptedManager.connector.traced Desk.hundreds.mint
    let b := after T halfGiven
      (stacked (.ofMillis 0) (some { backoffPercent := 100 }) .never ⟨"queue"⟩ {})
    let b' := (b.avoidDeadlock T (.ofMillis 40000) (.ofMillis 40000)).2
    (b.control?.map fun c => c.pickVictims.1) = some [(⟨7, by decide⟩, ⟨3, by decide⟩)] ∧
      ((b.registry.get? ⟨7, by decide⟩).map fun r => r.resources.map Resource.holding) =
        some [some (⟨"m"⟩, ⟨1, by decide⟩), none] ∧
      b'.desk.connector.inner.state.calls = b.desk.connector.inner.state.calls ++
        [.reassign ⟨"m"⟩ (Desk.hundreds.mint 0), .release [⟨2, by decide⟩] false] ∧
      b'.desk.holdings = [(⟨"m"⟩, Desk.hundreds.mint 0)] := by
  decide +kernel

end Broker

end ClusterBroker
