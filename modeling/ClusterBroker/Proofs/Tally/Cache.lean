import ClusterBroker.Proofs.CachedConnector
import ClusterBroker.Proofs.Custody.Stock
import ClusterBroker.Proofs.Tally.Registry

/-!
# What a cache counts

Every entry that was inserted is there, or it was a hit, was evicted, was invalidated, or was
drained. A cache does not count what it is drained of, so this number is kept beside it. A new
entry is one more only because it comes under an id that was not drawn before.
-/
namespace ClusterBroker.Cache

variable {mint : Nat → ResourceId} {drained drained' n : Nat} {c c' : Cache} {es : List CacheEntry}

theorem Sheds.size_eq (h : c.Sheds es c') : c.size = es.length + c'.size := by
  have hp := h.perm.length_eq
  rwa [List.length_append, Table.length_values, Table.length_values] at hp

/-! ### The balance -/

structure Balanced (mint : Nat → ResourceId) (drained n : Nat) (c : Cache) : Prop where
  size_eq : c.tally.size = c.size
  inserted_eq : c.tally.inserted =
    c.size + c.tally.hits + c.tally.evicted + c.tally.invalidated + drained
  minted : ∀ id e, c.entries.get? id = some e → ∃ m < n, mint m = id

/-- What is shed is counted under one of the headings. -/
theorem Balanced.shed (h : c.Balanced mint drained n) (hs : c.Sheds es c')
    (hsize : c'.tally.size = c'.size) (hin : c'.tally.inserted = c.tally.inserted)
    (hout : c'.tally.hits + c'.tally.evicted + c'.tally.invalidated + drained' =
      c.tally.hits + c.tally.evicted + c.tally.invalidated + drained + es.length) :
    c'.Balanced mint drained' n := by
  have hc := hs.size_eq
  have hi := h.inserted_eq
  refine ⟨hsize, ?_, fun id e he => h.minted id e (hs.sub id e he)⟩
  omega

theorem Balanced.take (h : c.Balanced mint drained n) (a : Ask) :
    (c.take a).2.Balanced mint drained n := by
  have htally : (c.take a).2.tally.size = (c.take a).2.size ∧
      (c.take a).2.tally.inserted = c.tally.inserted ∧
      (c.take a).2.tally.hits + (c.take a).2.tally.evicted + (c.take a).2.tally.invalidated =
        c.tally.hits + c.tally.evicted + c.tally.invalidated +
          ((c.take a).1.map Prod.snd).toList.length := by
    unfold Cache.take
    cases c.lookup a with
    | none => exact ⟨rfl, rfl, rfl⟩
    | some f =>
      have hu := unindex_entries c f.capacity f.spot
      have ht := unindex_tally c f.capacity f.spot
      simp only [hu, ht]
      cases c.entries.get? f.spot.id with
      | none => exact ⟨rfl, rfl, rfl⟩
      | some e =>
        refine ⟨rfl, rfl, ?_⟩
        change c.tally.hits + 1 + c.tally.evicted + c.tally.invalidated =
          c.tally.hits + c.tally.evicted + c.tally.invalidated + 1
        omega
  obtain ⟨hsize, hin, hout⟩ := htally
  exact h.shed (c.take_sheds a) hsize hin (by omega)

theorem Balanced.invalidate (h : c.Balanced mint drained n) (id : ResourceId) :
    (c.invalidate id).2.Balanced mint drained n := by
  have htally : (c.invalidate id).2.tally.size = (c.invalidate id).2.size ∧
      (c.invalidate id).2.tally.inserted = c.tally.inserted ∧
      (c.invalidate id).2.tally.hits + (c.invalidate id).2.tally.evicted +
          (c.invalidate id).2.tally.invalidated =
        c.tally.hits + c.tally.evicted + c.tally.invalidated +
          (c.entries.get? id).toList.length := by
    unfold Cache.invalidate takeById removeEntry
    cases c.entries.get? id with
    | none => exact ⟨rfl, rfl, rfl⟩
    | some e =>
      simp [noteSize, size]
      omega
  obtain ⟨hsize, hin, hout⟩ := htally
  exact h.shed (c.invalidate_sheds id) hsize hin (by omega)

theorem Balanced.evict (h : c.Balanced mint drained n) (now : Time) :
    (c.evict now).2.Balanced mint drained n := by
  refine h.shed (c.evict_sheds now) rfl ?_ ?_
  · rw [evict_tally]
  · rw [evict_tally]
    dsimp only
    omega

/-- What a cache is drained of it does not count. -/
theorem Balanced.drain (h : c.Balanced mint drained n) :
    c.drain.2.Balanced mint (drained + c.size) n := by
  refine h.shed c.drain_sheds rfl rfl ?_
  change c.tally.hits + c.tally.evicted + c.tally.invalidated + (drained + c.size) =
    c.tally.hits + c.tally.evicted + c.tally.invalidated + drained + c.entries.values.length
  rw [Table.length_values]
  exact (Nat.add_assoc ..).symm

theorem Balanced.draw (h : c.Balanced mint drained n) : c.Balanced mint drained (n + 1) := by
  refine ⟨h.size_eq, h.inserted_eq, fun id e he => ?_⟩
  obtain ⟨m, hm, hid⟩ := h.minted id e he
  exact ⟨m, Nat.lt_succ_of_lt hm, hid⟩

/-- The id drawn last is new. -/
theorem Balanced.store (h : c.Balanced mint drained n) (hnew : ∀ m < n, mint m ≠ mint n)
    (now : Time) (r : Resource) : (c.store now (mint n) r).2.Balanced mint drained (n + 1) := by
  unfold Cache.store
  cases ha : r.allocation with
  | none => exact h.draw
  | some a =>
    have hfree : c.entries.get? (mint n) = none := by
      by_contra hne
      obtain ⟨e, he⟩ := Option.ne_none_iff_exists'.1 hne
      obtain ⟨m, hm, hid⟩ := h.minted _ e he
      exact hnew m hm hid
    have hsize := Table.size_insert_new (t := c.entries)
      { id := mint n, released := r, allocation := a, cachedOn := now } hfree
    have hin := h.inserted_eq
    refine ⟨rfl, ?_, fun id e he => ?_⟩
    · change c.tally.inserted + 1 = (c.entries.insert _ _).size + c.tally.hits + c.tally.evicted +
        c.tally.invalidated + drained
      rw [hsize]
      change c.tally.inserted + 1 = c.size + 1 + _ + _ + _ + _
      omega
    · have he : (c.entries.insert (mint n) _).get? id = some e := he
      rw [Table.get?_insert] at he
      split at he
      next heq => exact ⟨n, Nat.lt_succ_self n, heq⟩
      next =>
        obtain ⟨m, hm, hid⟩ := h.minted id e he
        exact ⟨m, Nat.lt_succ_of_lt hm, hid⟩

/-- As long as the supply lasts, the balance is kept by whatever the calls of a cached connector
do. -/
theorem balanced_steady (u : Supply) (drained : Nat) :
    Steady u.mint fun c n => n ≤ u.size → c.Balanced u.mint drained n := by
  constructor
  · exact fun a h hn => (h hn).take a
  · exact fun id h hn => (h hn).invalidate id
  · exact fun h hn => (h (Nat.le_of_succ_le hn)).draw
  · intro c n now r h hn
    refine (h (Nat.le_of_succ_le hn)).store (fun m hm he => ?_) now r
    have hmn := u.distinct m n (Nat.lt_trans hm hn) hn he
    omega

end ClusterBroker.Cache
