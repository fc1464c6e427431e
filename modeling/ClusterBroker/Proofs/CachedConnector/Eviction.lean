import ClusterBroker.Proofs.Cache.Contents
import ClusterBroker.Proofs.Recorded
import ClusterBroker.Cache.CachedConnector
import ClusterBroker.ScriptedManager

/-!
# One sweep

A sweep takes out the entries that were idle for as long as the policy allows, and no others. What
is left answers as if the others had never been there, and a second sweep at the same time finds
nothing. A cached connector gives what a sweep took back in one call that no cache on the way may
keep, each entry by its own id and with the allocation that it came with.
-/
namespace ClusterBroker

/-- An entry was idle for at least as long as the policy allows. If the clock reads less than when
the entry was put in, it was not idle at all. -/
def EvictionPolicy.Overdue (policy : EvictionPolicy) (now : Time) (e : CacheEntry) : Prop :=
  match policy with
  | .idleTimeout limit =>
    (limit.nanos : Int) ≤ max 0 ((now.millis : Int) - e.cachedOn.millis) * 1000000
  | .never => False

theorem EvictionPolicy.evicts_iff (policy : EvictionPolicy) (now : Time) (e : CacheEntry) :
    policy.evicts now e = true ↔ policy.Overdue now e := by
  cases policy with
  | never => exact iff_of_false (by simp [evicts]) not_false
  | idleTimeout limit =>
    change decide (limit.nanos ≤ (now.millis - e.cachedOn.millis) * 1000000) = true ↔
      (limit.nanos : Int) ≤ max 0 ((now.millis : Int) - e.cachedOn.millis) * 1000000
    rw [decide_eq_true_iff]
    omega

namespace Cache

variable {c : Cache} {e : CacheEntry} (now : Time)

theorem Keyed.mem_evict (h : c.Keyed) :
    e ∈ (c.evict now).1 ↔ e ∈ c.entries.values ∧ c.policy.Overdue now e := by
  unfold evict
  rw [(h.evictWhere _).1, List.mem_filter, c.policy.evicts_iff]

theorem Keyed.mem_left (h : c.Keyed) :
    e ∈ (c.evict now).2.entries.values ↔ e ∈ c.entries.values ∧ ¬ c.policy.Overdue now e := by
  have hleft : (c.evict now).2.Keyed := (c.evict_sheds now).keyed h
  rw [hleft.mem_values, h.mem_values, ← c.policy.evicts_iff]
  unfold evict
  rw [(h.evictWhere _).2, Table.get?_filter, Option.filter_eq_some_iff]
  simp

theorem Keyed.evict_nodup (h : c.Keyed) : ((c.evict now).1.map CacheEntry.id).Nodup := by
  unfold evict
  rw [(h.evictWhere _).1]
  exact Table.keys_where_nodup h _

theorem evict_policy (c : Cache) : (c.evict now).2.policy = c.policy := removeEntries_policy _ c

/-- Nothing leaves if nothing is selected, and the counts stay if the size was noted. -/
theorem evictWhere_none {p : CacheEntry → Bool} (hp : ∀ e ∈ c.entries.values, p e = false)
    (hsize : c.tally.size = c.size) : c.evictWhere p = ([], c) := by
  have hsel : c.entries.values.filter p = [] :=
    List.filter_eq_nil_iff.2 fun e he => ne_true_of_eq_false (hp e he)
  unfold evictWhere
  rw [hsel]
  change ([], { c with tally := { c.tally with size := c.size } }) = ([], c)
  rw [← hsize]

theorem Keyed.evict_again (h : c.Keyed) : (c.evict now).2.evict now = ([], (c.evict now).2) := by
  refine evictWhere_none (fun e he => ?_) (congrArg Tally.size (c.evict_tally now))
  rw [evict_policy]
  refine eq_false_of_ne_true fun hev => ?_
  exact ((h.mem_left now).1 he).2 ((c.policy.evicts_iff now e).1 hev)

theorem Consistent.evict (h : c.Consistent) : (c.evict now).2.Consistent :=
  Op.run_consistent h (.evict (c.policy.evicts now)) trivial

theorem evict_of_never (hp : c.policy = .never) : (c.evict now).1 = [] := by
  have hsel : c.entries.values.filter (c.policy.evicts now) = [] := by
    rw [hp]
    exact List.filter_eq_nil_iff.2 fun e _ => by simp [EvictionPolicy.evicts]
  unfold Cache.evict evictWhere
  rw [hsel]
  rfl

end Cache

namespace CachedConnector

variable {σ : Type} (C : Connector σ) (now : Time)

theorem evict_calls (s : CachedConnector (Recorded σ)) :
    (s.evict C.recorded now).cache = (s.cache.evict now).2 ∧
      (s.evict C.recorded now).inner.calls = s.inner.calls ++
        if (s.cache.evict now).1 = [] then []
        else [.release ((s.cache.evict now).1.map CacheEntry.toReleased) true
          (C.release now ((s.cache.evict now).1.map CacheEntry.toReleased) true
            s.inner.state).1] := by
  unfold evict
  generalize s.cache.evict now = r
  obtain ⟨out, left⟩ := r
  cases out with
  | nil => exact ⟨rfl, (List.append_nil _).symm⟩
  | cons e es => exact ⟨rfl, rfl⟩

/-- A sweep takes out exactly what is overdue, each entry once, and counts it. Whatever is asked of
the cache from then on, it answers like a cache that was only ever given the others, in any order. A
second sweep at the same time changes nothing. What was taken out goes back below in one call that
keeps it out of every cache, by the ids of the entries and with their allocations, and there is no
call if nothing was. Under the policy that never evicts no sweep ever takes anything. -/
theorem eviction_exact {s : CachedConnector (Recorded σ)} (h : s.cache.Consistent) :
    let out := s.cache.evict now
    let s' := s.evict C.recorded now
    (∀ e, e ∈ out.1 ↔ e ∈ s.cache.entries.values ∧ s.cache.policy.Overdue now e) ∧
      (out.1.map CacheEntry.id).Nodup ∧
      (∀ e, e ∈ out.2.entries.values ↔
        e ∈ s.cache.entries.values ∧ ¬ s.cache.policy.Overdue now e) ∧
      out.2.tally = { s.cache.tally with
        size := out.2.size, evicted := s.cache.tally.evicted + out.1.length } ∧
      (∀ es : List CacheEntry, es.Perm out.2.entries.values → ∀ ops,
        Cache.replies ops out.2 = Cache.replies ops (Cache.holding s.cache.policy es) ∧
          (Cache.after ops out.2).entries =
            (Cache.after ops (Cache.holding s.cache.policy es)).entries) ∧
      out.2.evict now = ([], out.2) ∧
      s'.cache = out.2 ∧
      (∃ answer, s'.inner.calls = s.inner.calls ++
        if out.1 = [] then [] else [.release (out.1.map CacheEntry.toReleased) true answer]) ∧
      (∀ e ∈ out.1, e.toReleased.id = e.id ∧
        e.toReleased.allocation = e.released.allocation) ∧
      (s.cache.policy = .never →
        ∀ ops later, ((Cache.after ops s.cache).evict later).1 = []) := by
  intro out s'
  have hkeyed : s.cache.Keyed := h.indexed.keyed
  obtain ⟨hcache, hcalls⟩ := evict_calls C now s
  refine ⟨fun e => hkeyed.mem_evict now, hkeyed.evict_nodup now, fun e => hkeyed.mem_left now,
    s.cache.evict_tally now, ?_, hkeyed.evict_again now, hcache, ⟨_, hcalls⟩, ?_, ?_⟩
  · intro es hes ops
    have halike := (h.evict now).holding hes
    rw [Cache.evict_policy] at halike
    obtain ⟨hreplies, hend⟩ := Cache.after_alike halike ops
    exact ⟨hreplies, hend.entries_eq⟩
  · intro e he
    exact ⟨rfl, (h.genuine e ((hkeyed.mem_evict now).1 he).1).symm⟩
  · intro hnever ops later
    exact Cache.evict_of_never later ((Cache.after_policy ops _).trans hnever)

/-- Of four entries one is idle for too long and one for exactly as long as is allowed, one is
not, and one was put in by a clock that was ahead. -/
theorem eviction_exact_boundary :
    let kept := (⟨⟨⟨1, by decide⟩, ⟨"a"⟩, .dontCare, 1, 512⟩, ⟨2, by decide⟩, ⟨3, by decide⟩,
      ⟨"queue"⟩, .allocated, some ⟨2, 1024, ⟨"a"⟩, ⟨"m"⟩⟩⟩ : Resource)
    let ops : List Cache.Op := [
      .store (.ofMillis 0) ⟨101, by decide⟩ kept,
      .store (.ofMillis 5) ⟨102, by decide⟩ kept,
      .store (.ofMillis 6) ⟨103, by decide⟩ kept,
      .store (.ofMillis 20) ⟨104, by decide⟩ kept]
    let s : CachedConnector (Recorded ScriptedManager) := {
      inner := { state := { registered := true } }
      cache := Cache.after ops { policy := .idleTimeout (.ofMillis 5) } }
    let s' := s.evict ScriptedManager.connector.recorded (.ofMillis 10)
    s.cache.Consistent ∧
      (s.cache.evict (.ofMillis 10)).1.map CacheEntry.id =
        [⟨101, by decide⟩, ⟨102, by decide⟩] ∧
      (∃ answer, s'.inner.calls = [.release
        ((s.cache.evict (.ofMillis 10)).1.map CacheEntry.toReleased) true answer]) ∧
      s'.cache.evict (.ofMillis 10) = ([], s'.cache) := by
  intro kept ops s s'
  have hops : Cache.Admitted ops { policy := .idleTimeout (.ofMillis 5) } := by decide +kernel
  have hs : s.cache.Consistent := Cache.consistent_after (.empty _) hops
  obtain ⟨-, -, -, -, -, hagain, hcache, ⟨answer, hcalls⟩, -⟩ :=
    eviction_exact ScriptedManager.connector (.ofMillis 10) hs
  have hids : (s.cache.evict (.ofMillis 10)).1.map CacheEntry.id =
      [⟨101, by decide⟩, ⟨102, by decide⟩] := by decide +kernel
  have hsome : (s.cache.evict (.ofMillis 10)).1 ≠ [] := by
    intro hnil
    rw [hnil] at hids
    exact List.cons_ne_nil _ _ hids.symm
  have hs' : s' = s.evict ScriptedManager.connector.recorded (.ofMillis 10) := rfl
  have hnone : s.inner.calls = [] := rfl
  rw [if_neg hsome, hnone, List.nil_append, ← hs'] at hcalls
  rw [← hs'] at hcache
  rw [← hcache] at hagain
  exact ⟨hs, hids, ⟨answer, hcalls⟩, hagain⟩

end CachedConnector

end ClusterBroker
