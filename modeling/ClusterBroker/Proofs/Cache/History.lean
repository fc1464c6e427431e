import ClusterBroker.Proofs.Cache.Index

/-!
# Every history of a cache

What is put into a cache is put under an id that is free at that moment; apart from this, anything
may be asked of it in any order, at any time and with any choice of what to evict. Its two indexes
agree after every operation, so no operation ever finds that they do not. Whatever was put in is
still there or has left, in one way, and every ask was a hit or a miss.
-/
namespace ClusterBroker.Cache

variable {c : Cache} {id : ResourceId}

/-- What can be asked of a cache. -/
inductive Op where
  | store (now : Time) (id : ResourceId) (r : Resource)
  | take (a : Ask)
  | takeById (id : ResourceId)
  | invalidate (id : ResourceId)
  | evict (selects : CacheEntry → Bool)
  | drain

/-- The way in which an entry leaves. -/
inductive Exit where
  | hit
  | removed
  | evicted
  | drained
  deriving DecidableEq, Repr

namespace Op

def run : Op → Cache → Cache
  | .store now id r, c => (c.store now id r).2
  | .take a, c => (c.take a).2
  | .takeById id, c => (c.takeById id).2
  | .invalidate id, c => (c.invalidate id).2
  | .evict selects, c => (c.evictWhere selects).2
  | .drain, c => c.drain.2

/-- Nothing is put under an id that is taken. -/
def Allowed : Op → Cache → Prop
  | .store _ id _, c => c.contains id = false
  | _, _ => True

instance (op : Op) (c : Cache) : Decidable (op.Allowed c) :=
  match op with
  | .store _ id _ => inferInstanceAs (Decidable (c.contains id = false))
  | .take _ | .takeById _ | .invalidate _ | .evict _ | .drain => .isTrue trivial

/-- What an operation puts in: nothing without an allocation. -/
def entering : Op → List CacheEntry
  | .store now id r => (r.allocation.map fun a => ⟨id, r, a, now⟩).toList
  | _ => []

/-- What an operation hands out. -/
def leaving : Op → Cache → List (Exit × CacheEntry)
  | .store .., _ => []
  | .take a, c => ((c.take a).1.map Prod.snd).toList.map (Prod.mk .hit)
  | .takeById id, c => (c.takeById id).1.toList.map (Prod.mk .removed)
  | .invalidate id, c => (c.invalidate id).1.toList.map (Prod.mk .removed)
  | .evict selects, c => (c.evictWhere selects).1.map (Prod.mk .evicted)
  | .drain, c => c.drain.1.map (Prod.mk .drained)

def isTake : Op → Bool
  | .take _ => true
  | _ => false

end Op

/-! ### One operation -/

theorem Indexed.removeEntry (h : c.Indexed) (id : ResourceId) : (c.removeEntry id).2.Indexed := by
  cases he : c.entries.get? id with
  | none =>
    unfold Cache.removeEntry
    rw [he]
    exact h
  | some e =>
    obtain rfl := h.keyed id e he
    have hmem : e ∈ c.entries.values := Table.mem_values.2 ⟨_, he⟩
    exact h.loses hmem (h.removeEntry_loses hmem)

theorem Indexed.removeEntries (h : c.Indexed) (ids : List ResourceId) :
    (c.removeEntries ids).2.Indexed := by
  induction ids generalizing c with
  | nil => exact h
  | cons id ids ih => exact ih (h.removeEntry id)

theorem invalidate_eq (id : ResourceId) (c : Cache) : (c.invalidate id).1 = (c.takeById id).1 := by
  unfold invalidate
  split
  next heq => rw [heq]
  next heq => rw [heq]

theorem invalidate_index (id : ResourceId) (c : Cache) :
    (c.invalidate id).2.entries = (c.takeById id).2.entries ∧
      (c.invalidate id).2.byCapacity = (c.takeById id).2.byCapacity := by
  unfold invalidate
  split
  next heq => rw [heq]; exact ⟨rfl, rfl⟩
  next heq => rw [heq]; exact ⟨rfl, rfl⟩

theorem Op.run_indexed (h : c.Indexed) (op : Op) (hop : op.Allowed c) : (op.run c).Indexed := by
  cases op with
  | store now id r => exact h.store (Table.contains_eq_false.1 hop) now r
  | take a => exact h.take a
  | takeById id => exact (h.removeEntry id).congr rfl rfl
  | invalidate id =>
    exact (h.removeEntry id).congr (invalidate_index id c).1 (invalidate_index id c).2
  | evict selects => exact (h.removeEntries _).congr rfl rfl
  | drain => exact (Indexed.empty c.policy).congr rfl rfl

theorem Filled.congr {c' : Cache} (h : c.Filled) (hb : c'.byCapacity = c.byCapacity) :
    c'.Filled := by
  unfold Filled
  rw [hb]
  exact h

theorem Filled.take (h : c.Filled) (a : Ask) : (c.take a).2.Filled := by
  unfold Cache.take
  split
  next => exact h.congr rfl
  next f _ =>
    dsimp only
    split
    next => exact (h.unindex f.capacity f.spot).congr rfl
    next => exact (h.unindex f.capacity f.spot).congr rfl

theorem Filled.removeEntry (h : c.Filled) (id : ResourceId) : (c.removeEntry id).2.Filled := by
  unfold Cache.removeEntry
  split
  next => exact h
  next e _ => exact Filled.unindex (c := { c with entries := c.entries.erase id }) h _ _

theorem Filled.removeEntries (h : c.Filled) (ids : List ResourceId) :
    (c.removeEntries ids).2.Filled := by
  induction ids generalizing c with
  | nil => exact h
  | cons id ids ih => exact ih (h.removeEntry id)

theorem Op.run_filled (h : c.Filled) (op : Op) : (op.run c).Filled := by
  cases op with
  | store now id r => exact h.store now id r
  | take a => exact h.take a
  | takeById id => exact (h.removeEntry id).congr rfl
  | invalidate id => exact (h.removeEntry id).congr (invalidate_index id c).2
  | evict selects => exact (h.removeEntries _).congr rfl
  | drain => exact fun k spots hk => by simp [run, Cache.drain, noteSize] at hk

/-! ### Indexes that do not agree -/

/-- A look-up leads to an id without an entry. -/
def Dangling (c : Cache) (a : Ask) : Prop :=
  ∃ f, c.lookup a = some f ∧ c.entries.get? f.spot.id = none

/-- The entry of an id is not in its bucket. -/
def Misfiled (c : Cache) (id : ResourceId) : Prop :=
  ∃ e, c.entries.get? id = some e ∧ (c.bucket e.capacity).contains e.spot = false

/-- One of these entries is not in its bucket when it is taken out after the ones before it. -/
def MisfiledAmong : List ResourceId → Cache → Prop
  | [], _ => False
  | id :: ids, c => c.Misfiled id ∨ MisfiledAmong ids (c.removeEntry id).2

/-- An operation finds that the indexes do not agree. -/
def Op.Stumbles : Op → Cache → Prop
  | .take a, c => c.Dangling a
  | .takeById id, c => c.Misfiled id
  | .invalidate id, c => c.Misfiled id
  | .evict selects, c => MisfiledAmong ((c.entries.values.filter selects).map CacheEntry.id) c
  | .store .., _ => False
  | .drain, _ => False

theorem Indexed.not_dangling (h : c.Indexed) (a : Ask) : ¬ c.Dangling a := by
  rintro ⟨f, hf, hnone⟩
  obtain ⟨e, he, -⟩ := h.found hf
  rw [hnone] at he
  simp at he

theorem Indexed.not_misfiled (h : c.Indexed) (id : ResourceId) : ¬ c.Misfiled id := by
  rintro ⟨e, he, hno⟩
  rw [h.spot he] at hno
  simp at hno

theorem Indexed.not_misfiledAmong (h : c.Indexed) (ids : List ResourceId) :
    ¬ MisfiledAmong ids c := by
  induction ids generalizing c with
  | nil => exact not_false
  | cons id ids ih =>
    rintro (hm | hm)
    · exact h.not_misfiled id hm
    · exact ih (h.removeEntry id) hm

theorem Op.not_stumbles (h : c.Indexed) (op : Op) : ¬ op.Stumbles c := by
  cases op with
  | store => exact not_false
  | take a => exact h.not_dangling a
  | takeById id => exact h.not_misfiled id
  | invalidate id => exact h.not_misfiled id
  | evict selects => exact h.not_misfiledAmong _
  | drain => exact not_false

/-! ### What comes and what goes -/

theorem map_snd_exit (x : Exit) (es : List CacheEntry) :
    (es.map (Prod.mk x)).map Prod.snd = es := by
  rw [List.map_map]
  exact List.map_id es

theorem countP_hit_of_ne {x : Exit} (hx : x ≠ .hit) (es : List CacheEntry) :
    (es.map (Prod.mk x)).countP (fun out => out.1 = .hit) = 0 := by
  rw [List.countP_map, List.countP_eq_zero]
  simp [hx]

theorem Op.run_account (op : Op) (hop : op.Allowed c) : (op.entering ++ c.entries.values).Perm
    ((op.leaving c).map Prod.snd ++ (op.run c).entries.values) := by
  cases op with
  | store now id r =>
    dsimp only [entering, leaving, run]
    cases ha : r.allocation with
    | none =>
      unfold Cache.store
      rw [ha]
      exact .refl _
    | some a =>
      rw [(store_entries now id c ha).2]
      exact (Table.values_insert_perm _ (Table.contains_eq_false.1 hop)).symm
  | take a =>
    dsimp only [leaving]
    rw [map_snd_exit]
    exact (c.take_sheds a).perm
  | takeById id =>
    dsimp only [leaving]
    rw [map_snd_exit]
    exact (c.removeEntry_sheds id).perm
  | invalidate id =>
    dsimp only [leaving]
    rw [map_snd_exit, invalidate_eq]
    change (c.entries.values).Perm
      ((c.removeEntry id).1.toList ++ (c.invalidate id).2.entries.values)
    rw [removeEntry_eq]
    exact (c.invalidate_sheds id).perm
  | evict selects =>
    dsimp only [leaving]
    rw [map_snd_exit]
    exact (c.evictWhere_sheds selects).perm
  | drain =>
    dsimp only [leaving]
    rw [map_snd_exit]
    exact c.drain_sheds.perm

/-- An ask is one hit or one miss; nothing else counts as either. -/
theorem Op.run_tally (h : c.Indexed) (op : Op) :
    (op.run c).tally.hits = c.tally.hits + (op.leaving c).countP (fun out => out.1 = .hit) ∧
      (op.run c).tally.hits + (op.run c).tally.misses =
        c.tally.hits + c.tally.misses + if op.isTake then 1 else 0 := by
  cases op with
  | store now id r =>
    dsimp only [run, leaving]
    unfold Cache.store
    cases r.allocation <;> exact ⟨rfl, rfl⟩
  | take a =>
    dsimp only [run, leaving]
    cases hf : c.lookup a with
    | none =>
      rw [take_of_none hf]
      exact ⟨rfl, rfl⟩
    | some f =>
      obtain ⟨e, -, -, -, htake, -, htally⟩ := h.take_of_some hf
      rw [htake, htally]
      exact ⟨rfl, Nat.add_right_comm ..⟩
  | takeById id =>
    dsimp only [run, leaving]
    rw [countP_hit_of_ne (by simp), (takeById_tally id c).1, (takeById_tally id c).2]
    exact ⟨rfl, rfl⟩
  | invalidate id =>
    dsimp only [run, leaving]
    rw [countP_hit_of_ne (by simp), (invalidate_tally id c).1,
      (invalidate_tally id c).2]
    exact ⟨rfl, rfl⟩
  | evict selects =>
    dsimp only [run, leaving]
    rw [countP_hit_of_ne (by simp), evictWhere_tally]
    exact ⟨rfl, rfl⟩
  | drain =>
    dsimp only [run, leaving]
    rw [countP_hit_of_ne (by simp)]
    exact ⟨rfl, rfl⟩

/-! ### A whole history -/

/-- The cache after these operations, in order. -/
def after : List Op → Cache → Cache
  | [], c => c
  | op :: ops, c => after ops (op.run c)

/-- Whatever is put in is put under an id that is free at that moment. -/
def Admitted : List Op → Cache → Prop
  | [], _ => True
  | op :: ops, c => op.Allowed c ∧ Admitted ops (op.run c)

instance decideAdmitted : (ops : List Op) → (c : Cache) → Decidable (Admitted ops c)
  | [], _ => .isTrue trivial
  | op :: ops, c => @instDecidableAnd _ _ inferInstance (decideAdmitted ops (op.run c))

/-- What is put in. -/
def arrivals (ops : List Op) : List CacheEntry := ops.flatMap Op.entering

/-- What is handed out, and how. -/
def departures : List Op → Cache → List (Exit × CacheEntry)
  | [], _ => []
  | op :: ops, c => op.leaving c ++ departures ops (op.run c)

theorem after_indexed {ops : List Op} (h : c.Indexed) (hops : Admitted ops c) :
    (after ops c).Indexed := by
  induction ops generalizing c with
  | nil => exact h
  | cons op ops ih => exact ih (op.run_indexed h hops.1) hops.2

theorem after_filled (h : c.Filled) (ops : List Op) : (after ops c).Filled := by
  induction ops generalizing c with
  | nil => exact h
  | cons op ops ih => exact ih (op.run_filled h)

theorem after_account {ops : List Op} (hops : Admitted ops c) :
    (arrivals ops ++ c.entries.values).Perm
      ((departures ops c).map Prod.snd ++ (after ops c).entries.values) := by
  induction ops generalizing c with
  | nil => exact .refl _
  | cons op ops ih =>
    have hhead := op.run_account hops.1
    have hrest := ih hops.2
    change (op.entering ++ arrivals ops ++ c.entries.values).Perm
      ((op.leaving c ++ departures ops (op.run c)).map Prod.snd ++ _)
    rw [List.map_append, List.append_assoc, List.append_assoc]
    refine (List.perm_append_comm_assoc _ _ _).trans ?_
    refine (hhead.append_left _).trans ?_
    refine (List.perm_append_comm_assoc _ _ _).trans ?_
    exact hrest.append_left _

theorem after_tally {ops : List Op} (h : c.Indexed) (hops : Admitted ops c) :
    (after ops c).tally.hits =
        c.tally.hits + (departures ops c).countP (fun out => out.1 = .hit) ∧
      (after ops c).tally.hits + (after ops c).tally.misses =
        c.tally.hits + c.tally.misses + ops.countP Op.isTake := by
  induction ops generalizing c with
  | nil => exact ⟨rfl, rfl⟩
  | cons op ops ih =>
    obtain ⟨hhits, htakes⟩ := op.run_tally h
    obtain ⟨ihits, itakes⟩ := ih (op.run_indexed h hops.1) hops.2
    unfold after departures
    rw [List.countP_append, List.countP_cons]
    omega

/-- After every history a spot is in a bucket exactly if the entry of its id is of this capacity and
at this location. No bucket is empty, every entry is under its own id, and whatever is asked next
does not find the indexes at odds. What was put in has left in one way or is there, and every ask is
counted once. -/
theorem history_consistent (policy : EvictionPolicy) {ops : List Op}
    (hops : Admitted ops { policy }) :
    let c := after ops { policy }
    let gone := departures ops { policy }
    (∀ k s, (∃ spots, c.byCapacity.get? k = some spots ∧ spots.contains s = true) ↔
      ∃ e, c.entries.get? s.id = some e ∧ e.id = s.id ∧ e.allocation.location = s.location ∧
        e.allocation.memory = k.memory ∧ e.allocation.cpu = k.cpu) ∧
      c.Filled ∧ c.Keyed ∧ (∀ op : Op, ¬ op.Stumbles c) ∧
      (arrivals ops).Perm (gone.map Prod.snd ++ c.entries.values) ∧
      c.tally.hits = gone.countP (fun out => out.1 = .hit) ∧
      c.tally.hits + c.tally.misses = ops.countP Op.isTake := by
  intro c gone
  have hstart := Indexed.empty policy
  have hc : c.Indexed := after_indexed hstart hops
  have hfilled : c.Filled := after_filled (fun k spots hk => by simp at hk) ops
  have hbalance := after_account hops
  obtain ⟨hhits, htakes⟩ := after_tally hstart hops
  refine ⟨fun k s => ?_, hfilled, hc.keyed, fun op => op.not_stumbles hc, ?_, ?_, ?_⟩
  · obtain ⟨memory, cpu⟩ := k
    obtain ⟨location, id⟩ := s
    rw [← contains_bucket, hc.spot_iff]
    refine exists_congr fun e => and_congr_right fun _ => ?_
    rw [CacheEntry.capacity, CacheEntry.spot, Capacity.mk.injEq, Spot.mk.injEq]
    tauto
  · have hnone : ({ policy } : Cache).entries.values = [] := rfl
    rwa [hnone, List.append_nil] at hbalance
  · rw [hhits]
    exact Nat.zero_add _
  · rw [htakes]
    exact Nat.zero_add _

/-- A hit, a miss, an id that comes back after its hit, and an eviction. -/
theorem history_consistent_reused :
    let kept := fun (memory : UInt64) =>
      (⟨⟨⟨1, by decide⟩, ⟨"a"⟩, .dontCare, 1, 512⟩, ⟨2, by decide⟩, ⟨3, by decide⟩, ⟨"queue"⟩,
        .allocated, some ⟨2, memory, ⟨"a"⟩, ⟨"m"⟩⟩⟩ : Resource)
    let wanted := fun (memory : UInt64) => (⟨⟨7, by decide⟩, ⟨"b"⟩, .preferred, 1, memory⟩ : Ask)
    let ops : List Op := [
      .store (.ofMillis 0) ⟨101, by decide⟩ (kept 1024),
      .store (.ofMillis 1) ⟨102, by decide⟩ (kept 1024),
      .take (wanted 512),
      .take (wanted 2048),
      .store (.ofMillis 9) ⟨101, by decide⟩ (kept 2048),
      .evict fun e => e.cachedOn = .ofMillis 1]
    let c := after ops { policy := .never }
    c.Keyed ∧ c.size = 1 ∧ c.tally.hits + c.tally.misses = 2 ∧
      (departures ops { policy := .never }).map Prod.fst = [.hit, .evicted] ∧
      (arrivals ops).Perm ((departures ops { policy := .never }).map Prod.snd ++
        c.entries.values) := by
  intro kept wanted ops c
  have hops : Admitted ops { policy := .never } := by decide +kernel
  obtain ⟨-, -, hkeyed, -, hbalance, -, htakes⟩ := history_consistent .never hops
  exact ⟨hkeyed, by decide +kernel, htakes, by decide +kernel, hbalance⟩

end ClusterBroker.Cache
