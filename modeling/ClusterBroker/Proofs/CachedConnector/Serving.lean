import ClusterBroker.Proofs.Cache.BestFit
import ClusterBroker.Proofs.Recorded
import ClusterBroker.Proofs.CachedConnector

/-!
# What becomes of every resource that is asked for

A cached connector goes through a batch one resource at a time. Of each one it is written down what
became of it, from which everything else follows: what is reported, what the inner connector is
asked for, what it is given back, and what is left in the cache. So every resource is handled once
and every entry has one place, however the inner connector answers.
-/
namespace ClusterBroker.CachedConnector

variable {σ : Type} {C : Connector σ} (clock : Time) {s s' s'' : CachedConnector (Recorded σ)}

/-! ### One resource -/

/-- Large enough for a resource, and where it must be. -/
def Suits (r : Resource) (e : CacheEntry) : Prop :=
  Cache.Fits r.ask e ∧ (r.ask.locality = .must → e.allocation.location = r.ask.location)

/-- What became of a resource that was asked for: there was no entry for it, the entry would not
move to it and was given back, or the entry serves it. -/
inductive Fate where
  | missed
  | refused (e : CacheEntry) (answer : Except ConnectorFault Bool)
      (back : Except ConnectorFault Unit)
  | served (e : CacheEntry)

namespace Fate

def taken : Fate → List CacheEntry
  | .missed => []
  | .refused e _ _ => [e]
  | .served e => [e]

/-- The calls on the inner connector that this took. -/
def calls (r : Resource) : Fate → List Call
  | .missed => []
  | .refused e answer back =>
    [.reassign e.allocation.managerId r.id answer, .release [e.toReleased] true back]
  | .served e => [.reassign e.allocation.managerId r.id (.ok true)]

/-- An entry that is taken will do, and it is given back only if it would not move. -/
def Sound (r : Resource) : Fate → Prop
  | .missed => True
  | .refused e answer _ => Suits r e ∧ answer ≠ .ok true
  | .served e => Suits r e

end Fate

/-! ### A batch -/

/-- The resources of a batch, in order, with what became of them. -/
abbrev Account := List (Resource × Fate)

namespace Account

def hits (acc : Account) : List (Resource × CacheEntry) := acc.flatMap fun
  | (r, .served e) => [(r, e)]
  | _ => []

def refused (acc : Account) : List CacheEntry := acc.flatMap fun
  | (_, .refused e _ _) => [e]
  | _ => []

def misses (acc : Account) : List Resource := acc.flatMap fun
  | (_, .served _) => []
  | (r, _) => [r]

def taken (acc : Account) : List CacheEntry := acc.flatMap fun x => x.2.taken

def calls (acc : Account) : List Call := acc.flatMap fun x => x.2.calls x.1

end Account

namespace Account

variable (acc : Account)

theorem hits_misses_perm : (acc.hits.map Prod.fst ++ acc.misses).Perm (acc.map Prod.fst) := by
  induction acc with
  | nil => exact .refl _
  | cons x acc ih =>
    obtain ⟨r, f⟩ := x
    cases f with
    | missed | refused => exact List.perm_middle.trans (ih.cons r)
    | served e => exact ih.cons r

theorem misses_sublist : acc.misses.Sublist (acc.map Prod.fst) := by
  induction acc with
  | nil => exact .refl _
  | cons x acc ih =>
    obtain ⟨r, f⟩ := x
    cases f with
    | missed | refused => exact ih.cons_cons r
    | served e => exact ih.cons r

theorem taken_perm : acc.taken.Perm (acc.hits.map Prod.snd ++ acc.refused) := by
  induction acc with
  | nil => exact .refl _
  | cons x acc ih =>
    obtain ⟨r, f⟩ := x
    cases f with
    | missed => exact ih
    | refused e => exact (ih.cons e).trans List.perm_middle.symm
    | served e => exact ih.cons e

theorem givenBack_calls :
    acc.calls.flatMap Call.givenBack = acc.refused.map fun e => (e.toReleased, true) := by
  induction acc with
  | nil => rfl
  | cons x acc ih =>
    obtain ⟨r, f⟩ := x
    cases f with
    | missed => exact ih
    | refused e => exact congrArg _ ih
    | served e => exact ih

theorem submitted_calls : acc.calls.flatMap Call.submitted = [] := by
  induction acc with
  | nil => rfl
  | cons x acc ih =>
    obtain ⟨r, f⟩ := x
    cases f <;> exact ih

end Account

/-- A batch was gone through: what is said of it, and what is left in the cache. -/
structure Gathers (acc : Account) (s s' : CachedConnector (Recorded σ)) : Prop where
  sound : ∀ x ∈ acc, x.2.Sound x.1
  calls : s'.inner.calls = s.inner.calls ++ acc.calls
  perm : s.cache.entries.values.Perm (acc.taken ++ s'.cache.entries.values)
  indexed : s'.cache.Indexed

theorem Gathers.refl (h : s.cache.Indexed) : Gathers [] s s :=
  ⟨by simp, (List.append_nil _).symm, .refl _, h⟩

theorem Gathers.trans {acc acc' : Account} (h : Gathers acc s s') (h' : Gathers acc' s' s'') :
    Gathers (acc ++ acc') s s'' := by
  refine ⟨fun x hx => ?_, ?_, ?_, h'.indexed⟩
  · rcases List.mem_append.1 hx with hx | hx
    · exact h.sound x hx
    · exact h'.sound x hx
  · rw [h'.calls, h.calls, List.append_assoc]
    exact congrArg _ List.flatMap_append.symm
  · have htaken : Account.taken (acc ++ acc') = acc.taken ++ Account.taken acc' :=
      List.flatMap_append
    rw [htaken, List.append_assoc]
    exact h.perm.trans (h'.perm.append_left _)

theorem Gathers.one {r : Resource} {f : Fate} (hsound : f.Sound r)
    (hcalls : s'.inner.calls = s.inner.calls ++ f.calls r)
    (hperm : s.cache.entries.values.Perm (f.taken ++ s'.cache.entries.values))
    (hindexed : s'.cache.Indexed) : Gathers [(r, f)] s s' := by
  refine ⟨fun x hx => ?_, ?_, ?_, hindexed⟩
  · rw [List.mem_singleton.1 hx]
    exact hsound
  · rw [hcalls]
    exact congrArg _ (List.flatMap_singleton ..).symm
  · rw [show Account.taken [(r, f)] = f.taken from List.flatMap_singleton ..]
    exact hperm

/-- An entry moves to the resource, or it is given back. -/
theorem claim_calls (r : Resource) (e : CacheEntry) (s : CachedConnector (Recorded σ)) :
    (s.claim C.recorded clock r e).1 = true ∧
        (s.claim C.recorded clock r e).2.inner.calls =
          s.inner.calls ++ (Fate.served e).calls r ∨
      (s.claim C.recorded clock r e).1 = false ∧ ∃ answer back, answer ≠ .ok true ∧
        (s.claim C.recorded clock r e).2.inner.calls =
          s.inner.calls ++ (Fate.refused e answer back).calls r := by
  have hcalls : (C.recorded.reassign e.allocation.managerId r.id s.inner).2.calls = s.inner.calls ++
      [.reassign e.allocation.managerId r.id
        (C.recorded.reassign e.allocation.managerId r.id s.inner).1] := rfl
  unfold claim
  dsimp only
  split
  next hok =>
    rw [hok] at hcalls
    exact .inl ⟨rfl, hcalls⟩
  next hno =>
    refine .inr ⟨rfl, _, (C.recorded.release clock [e.toReleased] true
      (C.recorded.reassign e.allocation.managerId r.id s.inner).2).1, hno, ?_⟩
    change (C.recorded.reassign e.allocation.managerId r.id s.inner).2.calls ++ [_] = _
    rw [hcalls, List.append_assoc]
    rfl

theorem gatherOne_account (h : s.cache.Indexed) (r : Resource) :
    ∃ f : Fate, Gathers [(r, f)] s (s.gatherOne C.recorded clock r).2 ∧
      (s.gatherOne C.recorded clock r).1 = ⟨Account.hits [(r, f)], Account.misses [(r, f)]⟩ := by
  have hs := (s.cache.take_sheds r.ask).perm
  have hi := h.take r.ask
  unfold gatherOne
  dsimp only
  rcases h.take_cases r.ask with ⟨kind, e, hserves, htake, -⟩ | ⟨-, htake⟩
  · rw [htake] at hs ⊢
    dsimp only
    have hsuits : Suits r e := hserves.fits
    have hcache := (claim_cache (C := C.recorded) clock r e
      { s with cache := (s.cache.take r.ask).2 }).1
    have hclaim := claim_calls (C := C) clock r e { s with cache := (s.cache.take r.ask).2 }
    generalize claim C.recorded clock r e { s with cache := (s.cache.take r.ask).2 } = c
      at hcache hclaim ⊢
    change c.2.cache = (s.cache.take r.ask).2 at hcache
    rw [← hcache] at hs hi
    rcases hclaim with ⟨hok, hcalls⟩ | ⟨hno, answer, back, hanswer, hcalls⟩
    · refine ⟨.served e, .one hsuits hcalls hs hi, ?_⟩
      rw [if_pos hok]
      rfl
    · refine ⟨.refused e answer back, .one ⟨hsuits, hanswer⟩ hcalls hs hi, ?_⟩
      rw [if_neg (ne_true_of_eq_false hno)]
      rfl
  · have hnone : (s.cache.take r.ask).1 = none := by rw [htake]
    rw [hnone] at hs ⊢
    dsimp only
    exact ⟨.missed, .one trivial (List.append_nil _).symm hs hi, rfl⟩

theorem gather_account (h : s.cache.Indexed) (rs : List Resource) :
    ∃ acc : Account, acc.map Prod.fst = rs ∧ Gathers acc s (s.gather C.recorded clock rs).2 ∧
      (s.gather C.recorded clock rs).1 = ⟨acc.hits, acc.misses⟩ := by
  induction rs generalizing s with
  | nil => exact ⟨[], rfl, .refl h, rfl⟩
  | cons r rs ih =>
    obtain ⟨f, hg, hone⟩ := gatherOne_account (C := C) clock h r
    obtain ⟨acc, hrs, hgs, hrest⟩ := ih hg.indexed
    refine ⟨(r, f) :: acc, congrArg (r :: ·) hrs, hg.trans hgs, ?_⟩
    unfold gather
    dsimp only
    rw [hone, hrest]
    simp [Account.hits, Account.misses]

/-! ### A submission -/

/-- What is given back of a hit when the submission fails: it has moved to the resource's id. -/
def claimed (x : Resource × CacheEntry) : Resource := x.1.allocate x.2.allocation

theorem undo_calls {hits : List (Resource × CacheEntry)} (hs' : s' =
    if (hits.map fun h => h.1.allocate h.2.allocation).isEmpty then s
    else { s with inner := (C.recorded.release clock
      (hits.map fun h => h.1.allocate h.2.allocation) true s.inner).2 }) :
    s'.cache = s.cache ∧ ∃ back, s'.inner.calls = s.inner.calls ++
      if hits = [] then [] else [.release (hits.map claimed) true back] := by
  subst hs'
  cases hits with
  | nil => exact ⟨rfl, .ok (), (List.append_nil _).symm⟩
  | cons x hits => exact ⟨rfl, _, rfl⟩

/-- What a submission to a registered connector comes to: the calls that it takes, and what is
reported meanwhile. Hits are reported last if it goes through, and are given back if it fails. -/
theorem reserve_account (h : s.cache.Indexed) (hreg : s.registered = true) (rs : List Resource) :
    let out := s.reserve C.recorded clock rs
    ∃ acc : Account, ∃ told back, acc.map Prod.fst = rs ∧ (∀ x ∈ acc, x.2.Sound x.1) ∧
      s.cache.entries.values.Perm (acc.taken ++ out.2.2.cache.entries.values) ∧
      out.2.2.cache.Indexed ∧
      out.2.2.inner.calls = s.inner.calls ++ (acc.calls ++
        (if acc.misses = [] then [] else [.reserve acc.misses out.1]) ++
        if out.1.isOk ∨ acc.hits = [] then [] else [.release (acc.hits.map claimed) true back]) ∧
      out.2.1 = told.map lift ++ (if out.1.isOk then hitDelivery acc.hits else []) ∧
      (acc.misses = [] → out.1 = .ok () ∧ told = []) ∧
      (acc.misses ≠ [] → ∃ m, out.1 = (C.recorded.reserve clock acc.misses m).1 ∧
        told = (C.recorded.reserve clock acc.misses m).2.1) := by
  intro out
  obtain ⟨acc, hrs, hg, hone⟩ := gather_account (C := C) clock h rs
  have hout : out = s.reserve C.recorded clock rs := rfl
  unfold reserve at hout
  rw [if_pos hreg] at hout
  dsimp only at hout
  generalize s.gather C.recorded clock rs = q at hg hone hout
  obtain ⟨g, mid⟩ := q
  dsimp only at hg hone hout
  rw [hone] at hout
  dsimp only at hout
  by_cases hmiss : acc.misses = []
  · rw [if_pos (List.isEmpty_iff.2 hmiss)] at hout
    refine ⟨acc, [], .ok (), hrs, hg.sound, ?_⟩
    rw [hout, if_pos hmiss, if_pos (.inl rfl), List.append_nil, List.append_nil]
    exact ⟨hg.perm, hg.indexed, hg.calls, rfl, fun _ => ⟨rfl, rfl⟩, fun hne => absurd hmiss hne⟩
  rw [if_neg fun he => hmiss (List.isEmpty_iff.1 he)] at hout
  have hcalls : (C.recorded.reserve clock acc.misses mid.inner).2.2.calls =
      mid.inner.calls ++
        [.reserve acc.misses (C.recorded.reserve clock acc.misses mid.inner).1] := rfl
  generalize hasked : C.recorded.reserve clock acc.misses mid.inner = a at hcalls hout
  obtain ⟨answer, told, below⟩ := a
  dsimp only at hcalls hout
  have hlast : out.1 = answer ∧
      out.2.1 = told.map lift ++ (if answer.isOk then hitDelivery acc.hits else []) ∧
      out.2.2.cache = mid.cache ∧ ∃ back, out.2.2.inner.calls = below.calls ++
        if answer.isOk ∨ acc.hits = [] then []
        else [.release (acc.hits.map claimed) true back] := by
    cases answer with
    | ok =>
      rw [hout]
      exact ⟨rfl, rfl, rfl, .ok (), (List.append_nil _).symm⟩
    | error f =>
      have hleft := congrArg (fun o => o.2.2) hout
      dsimp only at hleft
      obtain ⟨hcache, back, hback⟩ := undo_calls clock hleft
      refine ⟨congrArg Prod.fst hout, ?_, hcache, back, ?_⟩
      · rw [hout]
        exact (List.append_nil _).symm
      · rw [hback]
        simp [Except.isOk, Except.toBool]
  obtain ⟨hanswer, htold, hcache, back, hback⟩ := hlast
  refine ⟨acc, told, back, hrs, hg.sound, ?_⟩
  rw [hanswer, htold, hcache, hback, hcalls, hg.calls, if_neg hmiss]
  refine ⟨hg.perm, hg.indexed, ?_, rfl, fun hno => absurd hno hmiss, fun _ => ⟨mid.inner, ?_, ?_⟩⟩
  · simp only [List.append_assoc]
  · rw [hasked]
  · rw [hasked]

/-- A submission of resources, what it came to, and the account of it. -/
structure Submission (C : Connector σ) (clock : Time) (rs : List Resource)
    (s : CachedConnector (Recorded σ))
    (out : Answer (List (Delivery (CachedConnector (Recorded σ))) ×
      CachedConnector (Recorded σ)) Unit)
    (acc : Account) : Prop where
  /-- Every resource is served, or it is left to ask for, and not both. -/
  once : ∀ r ∈ rs, (acc.hits.map (fun x => x.1.id) ++ acc.misses.map Resource.id).count r.id = 1
  order : acc.misses.Sublist rs
  /-- What serves a resource will do, and moved to it. -/
  served : ∀ x ∈ acc.hits, x.1 ∈ rs ∧ Suits x.1 x.2 ∧
    .reassign x.2.allocation.managerId x.1.id (.ok true) ∈ acc.calls
  refused : ∀ e ∈ acc.refused, ∃ r ∈ rs, ∃ answer, answer ≠ .ok true ∧
    .reassign e.allocation.managerId r.id answer ∈ acc.calls
  /-- Every entry serves a resource, or would not move, or is still there. -/
  custody : s.cache.entries.values.Perm
    (acc.hits.map Prod.snd ++ (acc.refused ++ out.2.2.cache.entries.values))
  /-- No entry is taken twice. -/
  apart : ((acc.hits.map Prod.snd ++ acc.refused).map CacheEntry.id).Nodup
  indexed : out.2.2.cache.Indexed
  /-- What would not move is given back under the id of the entry, and nothing else is before the
  inner connector is asked. -/
  givenBack : acc.calls.flatMap Call.givenBack = acc.refused.map fun e => (e.toReleased, true)
  submitted : acc.calls.flatMap Call.submitted = []
  /-- The inner connector is asked once, for what was not served. If this fails, what would have
  been served is given back under the ids of the resources. -/
  calls : ∃ back, out.2.2.inner.calls = s.inner.calls ++ (acc.calls ++
    (if acc.misses = [] then [] else [.reserve acc.misses out.1]) ++
    if out.1.isOk ∨ acc.hits = [] then [] else [.release (acc.hits.map claimed) true back])
  /-- What is served is reported in one batch, after what the inner connector reports, and only if
  nothing failed. The answer is the inner connector's. -/
  reported : ∃ told, out.2.1 = told.map lift ++ (if out.1.isOk then hitDelivery acc.hits else []) ∧
    (acc.misses = [] → out.1 = .ok () ∧ told = []) ∧
    (acc.misses ≠ [] → ∃ m, out.1 = (C.recorded.reserve clock acc.misses m).1 ∧
      told = (C.recorded.reserve clock acc.misses m).2.1)

theorem Account.mem_hits {acc : Account} {x : Resource × CacheEntry} (h : x ∈ acc.hits) :
    (x.1, .served x.2) ∈ acc := by
  obtain ⟨⟨r, f⟩, hin, hx⟩ := List.mem_flatMap.1 h
  cases f with
  | served e =>
    rw [List.mem_singleton.1 hx]
    exact hin
  | missed | refused => simp at hx

theorem Account.mem_refused {acc : Account} {e : CacheEntry} (h : e ∈ acc.refused) :
    ∃ r answer back, (r, .refused e answer back) ∈ acc := by
  obtain ⟨⟨r, f⟩, hin, hx⟩ := List.mem_flatMap.1 h
  cases f with
  | refused e' answer back =>
    rw [List.mem_singleton.1 hx]
    exact ⟨r, answer, back, hin⟩
  | missed | served => simp at hx

theorem reserve_submission (h : s.cache.Indexed) (hreg : s.registered = true) {rs : List Resource}
    (hrs : (rs.map Resource.id).Nodup) :
    ∃ acc : Account, Submission C clock rs s (s.reserve C.recorded clock rs) acc := by
  obtain ⟨acc, told, back, hacc, hsound, hperm, hindexed, hcalls, htold, hno, hsome⟩ :=
    reserve_account (C := C) clock h hreg rs
  subst hacc
  have hcustody := hperm.trans (acc.taken_perm.append_right _)
  rw [List.append_assoc] at hcustody
  refine ⟨acc, fun r hr => ?_, acc.misses_sublist, fun x hx => ?_, fun e he => ?_, hcustody, ?_,
    hindexed, acc.givenBack_calls, acc.submitted_calls, ⟨back, hcalls⟩, told, htold, hno, hsome⟩
  · have hp := acc.hits_misses_perm.map Resource.id
    rw [List.map_append, List.map_map] at hp
    rw [show (fun x : Resource × CacheEntry => x.1.id) = Resource.id ∘ Prod.fst from rfl,
      hp.count_eq]
    exact List.count_eq_one_of_mem hrs (List.mem_map_of_mem hr)
  · have hin := Account.mem_hits hx
    exact ⟨List.mem_map_of_mem hin, hsound _ hin,
      List.mem_flatMap.2 ⟨_, hin, List.mem_singleton_self _⟩⟩
  · obtain ⟨r, answer, b, hin⟩ := Account.mem_refused he
    exact ⟨r, List.mem_map_of_mem hin, answer, (hsound _ hin).2,
      List.mem_flatMap.2 ⟨_, hin, List.mem_cons_self ..⟩⟩
  · have hids := (hcustody.map CacheEntry.id).nodup_iff.1 h.keyed.ids_nodup
    rw [← List.append_assoc, List.map_append] at hids
    exact hids.of_append_left

end ClusterBroker.CachedConnector
