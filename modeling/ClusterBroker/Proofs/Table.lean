import Mathlib.Data.List.Nodup
import ClusterBroker.Table

/-!
# Tables as sets of entries

What the listings of a table (its keys, its values, its size) have to do with its look-ups, and
what a whole list of insertions or removals does to them. Everything is said through `get?`; the
order of a listing matters to none of the statements.
-/
namespace ClusterBroker.Table

variable {κ ν : Type} [Key κ]

/-- No key is listed twice. -/
theorem keys_nodup (t : Table κ ν) : t.keys.Nodup := by
  have h : t.entries.Pairwise (fun a b => a.1 ≠ b.1) := t.ascending.imp fun h => Key.ne_of_lt h
  exact List.pairwise_map.2 h

theorem entries_nodup (t : Table κ ν) : t.entries.Nodup := t.keys_nodup.of_map Prod.fst

theorem eq_empty_of_isEmpty {t : Table κ ν} (h : t.isEmpty = true) : t = ∅ := by
  obtain ⟨es, hes⟩ := t
  obtain rfl : es = [] := List.isEmpty_iff.1 h
  rfl

variable [DecidableEq κ]

theorem isEmpty_insert (t : Table κ ν) (k : κ) (v : ν) : (t.insert k v).isEmpty = false := by
  apply eq_false_of_ne_true
  intro h
  have hk : (t.insert k v).get? k = some v := by simp
  rw [eq_empty_of_isEmpty h] at hk
  simp at hk

theorem mem_keys {t : Table κ ν} {k : κ} : k ∈ t.keys ↔ (t.get? k).isSome := by
  constructor
  · intro h
    obtain ⟨e, he, rfl⟩ := List.mem_map.1 h
    rw [mem_entries.1 he]
    rfl
  · intro h
    obtain ⟨v, hv⟩ := Option.isSome_iff_exists.1 h
    exact List.mem_map.2 ⟨(k, v), mem_entries.2 hv, rfl⟩

theorem mem_values {t : Table κ ν} {v : ν} : v ∈ t.values ↔ ∃ k, t.get? k = some v := by
  constructor
  · intro h
    obtain ⟨e, he, rfl⟩ := List.mem_map.1 h
    exact ⟨e.1, mem_entries.1 he⟩
  · rintro ⟨k, hk⟩
    exact List.mem_map.2 ⟨(k, v), mem_entries.2 hk, rfl⟩

theorem contains_iff {t : Table κ ν} {k : κ} : t.contains k = true ↔ ∃ v, t.get? k = some v :=
  Option.isSome_iff_exists

theorem contains_eq_false {t : Table κ ν} {k : κ} : t.contains k = false ↔ t.get? k = none := by
  unfold contains
  cases t.get? k <;> simp

/-- Two listings without repetition of the same keys are equally long. -/
theorem size_eq_of_keys (t : Table κ ν) {l : List κ} (hl : l.Nodup)
    (h : ∀ k, k ∈ l ↔ (t.get? k).isSome) : t.size = l.length := by
  have hp : t.keys.Perm l := (List.perm_ext_iff_of_nodup t.keys_nodup hl).2 fun k => by
    rw [mem_keys, h]
  have hk : t.keys.length = t.size := List.length_map _
  rw [← hk]
  exact hp.length_eq

/-! ### Listings up to order -/

theorem keys_erase_perm {t : Table κ ν} {k : κ} (h : (t.get? k).isSome = true) :
    t.keys.Perm (k :: (t.erase k).keys) := by
  have hk : k ∉ (t.erase k).keys := by
    rw [mem_keys, get?_erase]
    simp
  refine (List.perm_ext_iff_of_nodup t.keys_nodup
    (List.nodup_cons.2 ⟨hk, (t.erase k).keys_nodup⟩)).2 fun k' => ?_
  rw [List.mem_cons, mem_keys, mem_keys, get?_erase]
  by_cases he : k = k'
  · simp [← he, h]
  · simp [he, Ne.symm he]

theorem size_erase {t : Table κ ν} {k : κ} (h : (t.get? k).isSome = true) :
    (t.erase k).size + 1 = t.size := by
  have hl := (keys_erase_perm h).length_eq
  have hk : ∀ t : Table κ ν, t.keys.length = t.size := fun _ => List.length_map _
  rw [List.length_cons, hk, hk] at hl
  exact hl.symm

theorem values_erase_perm {t : Table κ ν} {k : κ} {v : ν} (h : t.get? k = some v) :
    t.values.Perm (v :: (t.erase k).values) := by
  have hnot : (k, v) ∉ (t.erase k).entries := by
    rw [mem_entries, get?_erase, if_pos rfl]
    simp
  have hn : ((k, v) :: (t.erase k).entries).Nodup :=
    List.nodup_cons.2 ⟨hnot, (t.erase k).entries_nodup⟩
  have hp : t.entries.Perm ((k, v) :: (t.erase k).entries) := by
    refine (List.perm_ext_iff_of_nodup t.entries_nodup hn).2 fun ⟨k', v'⟩ => ?_
    rw [List.mem_cons, mem_entries, mem_entries, get?_erase, Prod.mk.injEq]
    by_cases hk : k = k'
    · subst hk
      simp [h, eq_comm]
    · simp [hk, Ne.symm hk]
  exact hp.map Prod.snd

theorem erase_of_absent {t : Table κ ν} {k : κ} (h : t.get? k = none) : t.erase k = t := by
  apply ext_get?
  intro k'
  rw [get?_erase]
  split
  next hk => rw [← hk, h]
  next => rfl

theorem erase_insert {t : Table κ ν} {k : κ} (v : ν) (h : t.get? k = none) :
    (t.insert k v).erase k = t := by
  apply ext_get?
  intro k'
  rw [get?_erase, get?_insert]
  by_cases hk : k = k'
  · subst hk
    simp [h]
  · simp [hk]

theorem values_insert_perm {t : Table κ ν} {k : κ} (v : ν) (h : t.get? k = none) :
    (t.insert k v).values.Perm (v :: t.values) := by
  have hp := values_erase_perm (t := t.insert k v) (k := k) (v := v) (by simp)
  rw [erase_insert v h] at hp
  exact hp

theorem erase_insert_self (t : Table κ ν) (k : κ) (v : ν) : (t.insert k v).erase k = t.erase k := by
  apply ext_get?
  intro k'
  simp only [get?_erase, get?_insert]
  split <;> rfl

/-! ### Values that carry their key -/

section

variable {t : Table κ ν} {key : ν → κ} (hkey : ∀ k v, t.get? k = some v → key v = k) {p : ν → Bool}

include hkey

theorem map_key_values : t.values.map key = t.keys := by
  unfold values keys
  rw [List.map_map]
  exact List.map_congr_left fun e he => hkey e.1 e.2 (mem_entries.1 he)

theorem mem_values_of_key {v : ν} : v ∈ t.values ↔ t.get? (key v) = some v := by
  rw [mem_values]
  refine ⟨fun ⟨k, hk⟩ => ?_, fun hv => ⟨key v, hv⟩⟩
  rw [hkey k v hk, hk]

theorem mem_values_where {v : ν} :
    v ∈ t.values.filter p ↔ t.get? (key v) = some v ∧ p v = true := by
  rw [List.mem_filter, mem_values_of_key hkey]

theorem mem_keys_where {k : κ} :
    k ∈ (t.values.filter p).map key ↔ (t.get? k).any p = true := by
  rw [List.mem_map, Option.any_eq_true]
  constructor
  · rintro ⟨v, hv, rfl⟩
    exact ⟨v, (mem_values_where hkey).1 hv⟩
  · rintro ⟨v, hv, hp⟩
    obtain rfl := hkey k v hv
    exact ⟨v, (mem_values_where hkey).2 ⟨hv, hp⟩, rfl⟩

theorem keys_where_nodup (p : ν → Bool) : ((t.values.filter p).map key).Nodup := by
  have hk := t.keys_nodup
  rw [← map_key_values hkey] at hk
  exact hk.sublist (List.filter_sublist.map key)

theorem filterMap_keys_where (p : ν → Bool) :
    ((t.values.filter p).map key).filterMap t.get? = t.values.filter p := by
  rw [List.filterMap_map]
  exact (List.filterMap_congr fun v hv => ((mem_values_where hkey).1 hv).1).trans
    List.filterMap_some

end

/-! ### Many keys at once -/

theorem get?_foldl_insert (v : ν) (l : List κ) (t : Table κ ν) (k : κ) :
    (l.foldl (fun t k => t.insert k v) t).get? k = if k ∈ l then some v else t.get? k := by
  induction l generalizing t with
  | nil => rfl
  | cons a r ih =>
    rw [List.foldl_cons, ih, get?_insert]
    by_cases hr : k ∈ r
    · simp [hr]
    by_cases ha : a = k
    · simp [ha]
    · simp [hr, ha, Ne.symm ha]

theorem get?_foldl_erase (l : List κ) (t : Table κ ν) (k : κ) :
    (l.foldl (fun t k => t.erase k) t).get? k = if k ∈ l then none else t.get? k := by
  induction l generalizing t with
  | nil => rfl
  | cons a r ih =>
    rw [List.foldl_cons, ih, get?_erase]
    by_cases hr : k ∈ r
    · simp [hr]
    by_cases ha : a = k
    · simp [ha]
    · simp [hr, ha, Ne.symm ha]

end ClusterBroker.Table

namespace ClusterBroker.KeySet

variable {κ : Type} [Key κ] [DecidableEq κ] {s : KeySet κ} {k k' : κ}

theorem contains_add : (s.add k).contains k' = true ↔ k = k' ∨ s.contains k' = true := by
  unfold Table.contains add
  rw [Table.get?_insert]
  split <;> simp_all

theorem contains_remove : (s.remove k).contains k' = true ↔ k ≠ k' ∧ s.contains k' = true := by
  unfold Table.contains remove
  rw [Table.get?_erase]
  split <;> simp_all

theorem ext_contains {t : KeySet κ} (h : ∀ k, s.contains k = true ↔ t.contains k = true) :
    s = t := by
  refine Table.ext_get? fun k => ?_
  have hk := h k
  unfold Table.contains at hk
  cases hs : s.get? k <;> cases ht : t.get? k <;> simp_all

end ClusterBroker.KeySet
