import ClusterBroker.Proofs.Custody.Caching
import ClusterBroker.Proofs.Desk.Operation
import ClusterBroker.Proofs.Ledger.Resources

/-!
# Custody while a batch is taken in

The cache drops what a batch speaks of before the ledger follows it change by change. The stock is
taken to lose an entry with the very change that speaks of it, which comes to the same in the end.
So there is a stock between any two changes, and what is held at such a moment can be followed.
-/
namespace ClusterBroker

variable {σ : Type} {C : Connector σ} {u : Supply} (clock : Time)

/-- The stock while a batch is taken in, and the change that comes next. -/
structure Moment where
  stock : Stock
  coming : Option Change

/-- What the manager hands out next is not in stock, unless by this very id. -/
def Moment.Spared (x : Moment) : Prop := ∀ c ∈ x.coming, x.stock.Spares c

instance (x : Moment) : Decidable x.Spared :=
  inferInstanceAs (Decidable (∀ c ∈ x.coming, x.stock.Spares c))

namespace Stock

/-- The stock after all of these reports. -/
def takesAll (cs : List Change) (rs : List Resource) (k : Stock) : Stock :=
  { k with
    resources := rs, cache := k.cache.invalidateAll (cs.map Change.resource)
    log := k.log ++ cs.map .reported }

theorem takes_takesAll (c : Change) (cs : List Change) (rs rs' : List Resource) (k : Stock) :
    (k.takes c rs).takesAll cs rs' = k.takesAll (c :: cs) rs' := by
  unfold takes takesAll Cache.invalidateAll
  simp

end Stock

/-- The moments of a batch, the last of them when every change has been taken in. -/
def reportMoments : List Change → Ledger.Batch → Stock → List Moment
  | [], _, k => [⟨k, none⟩]
  | c :: cs, b, k =>
    ⟨k, some c⟩ :: reportMoments cs (b.step clock c) (k.takes c (b.step clock c).resources)

theorem reportMoments_first (cs : List Change) (b : Ledger.Batch) (k : Stock) :
    ∃ x ∈ reportMoments clock cs b k, x.stock = k := by
  cases cs with
  | nil => exact ⟨_, List.mem_singleton_self _, rfl⟩
  | cons c cs => exact ⟨_, List.mem_cons_self .., rfl⟩

theorem reports_move {cs : List Change} {b : Ledger.Batch} (hb : b.ledger.Sound) {k : Stock}
    (h : k.Kept u) (hk : k.resources = b.resources)
    (hs : ∀ x ∈ reportMoments clock cs b k, x.Spared) :
    ∀ x ∈ reportMoments clock cs b k,
      x.stock.Moves u (k.takesAll cs (cs.foldl (Ledger.Batch.step clock) b).resources) := by
  induction cs generalizing b k with
  | nil =>
    intro x hx
    rw [List.mem_singleton.1 hx]
    have he : k.takesAll [] ([].foldl (Ledger.Batch.step clock) b).resources = k := by
      simp [Stock.takesAll, Cache.invalidateAll, ← hk]
    rw [he]
    exact h.refl
  | cons c cs ih =>
    have hshift := Ledger.Batch.step_shift hb clock c
    rw [← hk] at hshift
    have hspare : k.Spares c := hs _ (List.mem_cons_self ..) c rfl
    have hm : k.Moves u (k.takes c (b.step clock c).resources) := h.report hshift hspare
    have hb' : (b.step clock c).ledger.Sound := by
      rw [Ledger.Batch.step_ledger]
      exact (Ledger.apply_applied hb clock c).sound hb
    have hrest := ih hb' hm.kept rfl fun x hx => hs x (List.mem_cons_of_mem _ hx)
    rw [Stock.takes_takesAll] at hrest
    intro x hx
    rcases List.mem_cons.1 hx with rfl | hx
    · obtain ⟨y, hy, he⟩ :=
        reportMoments_first clock cs (b.step clock c) (k.takes c (b.step clock c).resources)
      have hy' := hrest y hy
      rw [he] at hy'
      exact hm.trans hy'
    · exact hrest x hx

/-! ### Hits -/

/-- The cache reports its hits: what was promised is allocated now, and nothing else changes. -/
theorem hits_move {hits : List (Resource × CacheEntry)} {b : Ledger.Batch} (hb : b.ledger.Sound)
    (hrel : b.toRelease = []) {k : Stock} (h : k.Kept u) (hk : k.resources = b.ledger.resources)
    (hh : k.hits = hits) :
    let b' := (hits.map fun q => Change.allocated q.1.id q.2.allocation).foldl
      (Ledger.Batch.step clock) b
    b'.toRelease = [] ∧ k.Moves u { k with hits := [], resources := b'.ledger.resources } := by
  induction hits generalizing b k with
  | nil =>
    refine ⟨hrel, ?_⟩
    have he : { k with hits := [], resources := b.ledger.resources } = k := by rw [← hk, ← hh]
    change k.Moves u { k with hits := [], resources := b.ledger.resources }
    rw [he]
    exact h.refl
  | cons q hits ih =>
    obtain ⟨hrel', hstep⟩ :=
      Ledger.Batch.step_allocated hb clock q.1.id q.2.allocation
    have hb' : (b.step clock (.allocated q.1.id q.2.allocation)).ledger.Sound := by
      rw [Ledger.Batch.step_ledger]
      exact (Ledger.apply_applied hb clock _).sound hb
    rw [hrel] at hrel'
    have hone : k.Moves u { k with
        hits := hits
        resources := (b.step clock (.allocated q.1.id q.2.allocation)).ledger.resources } := by
      rcases hstep with ⟨hnone, hl⟩ | ⟨x, rest, hp, hn, hid, hp'⟩
      · rw [hl, ← hk]
        rw [← hk] at hnone
        exact h.hit_ignored hh hnone
      · rw [← hk] at hp
        exact h.hit_taken hh hp hn hid hp'
    obtain ⟨hlast, hrest⟩ := ih hb' hrel' hone.kept rfl rfl
    exact ⟨hlast, hone.trans hrest⟩

end ClusterBroker
