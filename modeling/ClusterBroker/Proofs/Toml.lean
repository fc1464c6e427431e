import ClusterBroker.Proofs.Value.Proper
import ClusterBroker.Toml

/-!
# Documents describe proper values

However a document puts its tables together, with headers, dotted keys, inline tables or arrays of
tables, no table has a key twice, and there is no null. The tables in the making are proper at
every moment, in the sense that the values which they stand for are.
-/
namespace ClusterBroker.Toml

open Value (Proper field? setField)

/-! ### Tables in the making -/

namespace Entries

/-- The table that the entries make is proper. -/
def Proper (es : Entries) : Prop := Value.Proper (.object (entriesValue es))

theorem proper_nil : Proper [] := Value.proper_empty

theorem entriesValue_set (k : String) (i : Item) (es : Entries) :
    entriesValue (es.set k i) = setField k i.toValue (entriesValue es) := by
  induction es with
  | nil => rfl
  | cons e es ih =>
    obtain ⟨n, j⟩ := e
    simp only [set, entriesValue, setField]
    split
    next => rfl
    next => rw [entriesValue, ih]

theorem field?_entriesValue {k : String} {i : Item} {es : Entries} (h : es.find? k = some i) :
    field? k (entriesValue es) = some i.toValue := by
  induction es with
  | nil => exact nomatch h
  | cons e es ih =>
    obtain ⟨n, j⟩ := e
    simp only [find?, entriesValue, field?] at h ⊢
    split
    next heq =>
      rw [if_pos heq] at h
      rw [Option.some.inj h]
    next hne =>
      rw [if_neg hne] at h
      exact ih h

theorem Proper.set {es : Entries} (h : es.Proper) {i : Item} (hi : Value.Proper i.toValue)
    (k : String) : (es.set k i).Proper := by
  unfold Entries.Proper
  rw [entriesValue_set]
  exact h.setField hi k

theorem Proper.find? {es : Entries} (h : es.Proper) {k : String} {i : Item}
    (hi : Entries.find? k es = some i) : Value.Proper i.toValue :=
  Value.Proper.field? h (field?_entriesValue hi)

theorem Proper.setValue {es : Entries} (h : es.Proper) {v : Value} (hv : Value.Proper v)
    (k : String) : (es.set k (.value v)).Proper := h.set (i := .value v) hv k

theorem Proper.setTable {es t : Entries} (h : es.Proper) (ht : t.Proper) (k : String)
    (origin : Origin) : (es.set k (.table origin t)).Proper := h.set (i := .table origin t) ht k

theorem Proper.findTable {es t : Entries} (h : es.Proper) {k : String} {origin : Origin}
    (ht : Entries.find? k es = some (.table origin t)) : t.Proper := h.find? ht

theorem tablesValue_eq_map (ts : List Entries) :
    tablesValue ts = ts.map fun es => .object (entriesValue es) := by
  induction ts with
  | nil => rfl
  | cons es ts ih => rw [tablesValue, ih, List.map_cons]

/-- An array of tables is proper if they are. -/
theorem proper_tables {ts : List Entries} :
    Value.Proper (Item.tables ts).toValue ↔ ∀ es ∈ ts, es.Proper := by
  rw [Item.toValue, tablesValue_eq_map]
  constructor
  · intro h es hes
    exact h.items _ (List.mem_map_of_mem hes)
  · intro h
    refine .array fun v hv => ?_
    obtain ⟨es, hes, rfl⟩ := List.mem_map.1 hv
    exact h es hes

theorem Proper.setTables {es : Entries} (h : es.Proper) {ts : List Entries}
    (hts : ∀ t ∈ ts, t.Proper) (k : String) : (es.set k (.tables ts)).Proper :=
  h.set (proper_tables.2 hts) k

theorem Proper.findTables {es : Entries} (h : es.Proper) {k : String} {ts : List Entries}
    (hts : Entries.find? k es = some (.tables ts)) : ∀ t ∈ ts, t.Proper :=
  proper_tables.1 (h.find? hts)

/-- What makes proper tables from proper tables. -/
def Keeps (f : Entries → Option Entries) : Prop :=
  ∀ {es es'}, es.Proper → f es = some es' → es'.Proper

theorem modifyLast_proper {f : Entries → Option Entries} (hf : Keeps f) {ts ts' : List Entries}
    (h : ∀ es ∈ ts, es.Proper) (hts : modifyLast f ts = some ts') : ∀ es ∈ ts', es.Proper := by
  induction ts generalizing ts' with
  | nil => exact nomatch hts
  | cons e ts ih =>
    obtain ⟨he, hrest⟩ := List.forall_mem_cons.1 h
    cases ts with
    | nil =>
      obtain ⟨e', he', rfl⟩ := Option.map_eq_some_iff.1 hts
      exact List.forall_mem_singleton.2 (hf he he')
    | cons e₂ ts =>
      obtain ⟨us, hus, rfl⟩ := Option.map_eq_some_iff.1 hts
      exact List.forall_mem_cons.2 ⟨he, ih hrest hus⟩

theorem within_keeps {f : Entries → Option Entries} (hf : Keeps f) (path : List String) :
    Keeps (within f path) := by
  induction path with
  | nil => exact hf
  | cons k path ih =>
    intro es es' hes h
    unfold within at h
    split at h
    next =>
      obtain ⟨t, ht, rfl⟩ := Option.map_eq_some_iff.1 h
      exact hes.setTable (ih proper_nil ht) k _
    next => exact nomatch h
    next hfind =>
      obtain ⟨t, ht, rfl⟩ := Option.map_eq_some_iff.1 h
      exact hes.setTable (ih (hes.findTable hfind) ht) k _
    next hfind =>
      obtain ⟨ts, hts, rfl⟩ := Option.map_eq_some_iff.1 h
      exact hes.setTables (modifyLast_proper ih (hes.findTables hfind) hts) k

theorem addAt_keeps {v : Value} (hv : Value.Proper v) (origin : Origin) (key : String)
    (path : List String) : Keeps (addAt origin key v path) := by
  induction path generalizing origin with
  | nil =>
    intro es es' hes h
    unfold addAt at h
    split at h
    next => exact nomatch h
    next =>
      split at h
      next =>
        obtain rfl := Option.some.inj h
        exact hes.setValue hv key
      next => exact nomatch h
  | cons k path ih =>
    intro es es' hes h
    unfold addAt at h
    split at h
    next =>
      obtain ⟨t, ht, rfl⟩ := Option.map_eq_some_iff.1 h
      exact hes.setTable (ih .dotted proper_nil ht) k _
    next => exact nomatch h
    next o t _ hfind =>
      obtain ⟨t, ht, rfl⟩ := Option.map_eq_some_iff.1 h
      exact hes.setTable (ih o (hes.findTable hfind) ht) k _
    next hfind =>
      obtain ⟨ts, hts, rfl⟩ := Option.map_eq_some_iff.1 h
      exact hes.setTables (modifyLast_proper (ih .implied) (hes.findTables hfind) hts) k
    next => exact nomatch h

theorem openTable_keeps (key : String) : Keeps (openTable key) := by
  intro es es' hes h
  unfold openTable at h
  split at h
  next =>
    obtain rfl := Option.some.inj h
    exact hes.setTable proper_nil key _
  next hfind =>
    obtain rfl := Option.some.inj h
    exact hes.setTable (hes.findTable hfind) key _
  next => exact nomatch h

theorem openArray_keeps (key : String) : Keeps (openArray key) := by
  intro es es' hes h
  unfold openArray at h
  split at h
  next =>
    obtain rfl := Option.some.inj h
    exact hes.setTables (List.forall_mem_singleton.2 proper_nil) key
  next ts hfind =>
    obtain rfl := Option.some.inj h
    exact hes.setTables (List.forall_mem_append.2
      ⟨hes.findTables hfind, List.forall_mem_singleton.2 proper_nil⟩) key
  next => exact nomatch h

end Entries

/-! ### Values -/

theorem bounded_proper {n : Int} {v : Value} (h : bounded n = some v) : v.Proper := by
  obtain ⟨-, heq⟩ := Option.ite_none_right_eq_some.1 h
  exact Option.some.inj heq ▸ .int n

theorem integer?_proper {cs : List Char} {v : Value} (h : integer? cs = some v) : v.Proper := by
  unfold integer? at h
  split at h
  all_goals
    obtain ⟨ds, -, hv⟩ := Option.bind_eq_some_iff.1 h
    exact bounded_proper hv

theorem float?_proper {cs : List Char} {v : Value} (h : float? cs = some v) : v.Proper := by
  obtain ⟨-, heq⟩ := Option.ite_none_right_eq_some.1 h
  exact Option.some.inj heq ▸ .float _

theorem date?_proper {cs : List Char} {v : Value} (h : date? cs = some v) : v.Proper := by
  obtain ⟨-, heq⟩ := Option.ite_none_right_eq_some.1 h
  exact Option.some.inj heq ▸ Value.proper_empty.setField (.string _) dateField

theorem wordValue?_proper {cs : List Char} {v : Value} (h : wordValue? cs = some v) :
    v.Proper := by
  unfold wordValue? at h
  split at h
  next => exact Option.some.inj h ▸ .bool true
  next =>
    split at h
    next => exact Option.some.inj h ▸ .bool false
    next =>
      simp only [Option.orElse_eq_orElse, Option.orElse_eq_or, Option.or_eq_some_iff] at h
      rcases h with h | ⟨-, h | ⟨-, h⟩⟩
      · exact integer?_proper h
      · exact float?_proper h
      · exact date?_proper h

theorem scalar_proper {cs rest : List Char} {v : Value} (h : scalar cs = some (v, rest)) :
    v.Proper := by
  have hword {word more : List Char} (h : (wordValue? word).map (·, more) = some (v, rest)) :
      v.Proper := by
    obtain ⟨u, hu, heq⟩ := Option.map_eq_some_iff.1 h
    exact (Prod.mk.inj heq).1 ▸ wordValue?_proper hu
  unfold scalar at h
  dsimp only at h
  split at h
  next =>
    split at h
    next => exact hword h
    next => exact hword h
  next => exact hword h

/-- Values whose nesting is bounded by `n` are proper. -/
def ValuesProper (n : Nat) : Prop :=
  ∀ {depth cs v rest}, value depth n cs = some (v, rest) → v.Proper

def ItemsProper (n : Nat) : Prop :=
  ∀ {depth cs vs rest}, items depth n cs = some (vs, rest) → ∀ v ∈ vs, v.Proper

def PairsProper (n : Nat) : Prop :=
  ∀ {depth es cs es' rest}, es.Proper → pairs depth n es cs = some (es', rest) → es'.Proper

theorem valuesProper_succ {n : Nat} (hitems : ItemsProper n) (hpairs : PairsProper n) :
    ValuesProper (n + 1) := by
  intro depth cs v rest h
  unfold value at h
  split at h
  next s _ =>
    obtain ⟨r, -, heq⟩ := Option.map_eq_some_iff.1 h
    exact (Prod.mk.inj heq).1 ▸ .string _
  next =>
    split at h
    next =>
      obtain ⟨-, h⟩ := Option.ite_none_left_eq_some.1 h
      obtain ⟨⟨vs, more⟩, hvs, heq⟩ := Option.map_eq_some_iff.1 h
      exact (Prod.mk.inj heq).1 ▸ .array (hitems hvs)
    next =>
      obtain ⟨-, h⟩ := Option.ite_none_left_eq_some.1 h
      split at h
      next => exact (Prod.mk.inj (Option.some.inj h)).1 ▸ Value.proper_empty
      next =>
        obtain ⟨⟨es, more⟩, hes, heq⟩ := Option.map_eq_some_iff.1 h
        exact (Prod.mk.inj heq).1 ▸ hpairs Entries.proper_nil hes
    next => exact scalar_proper h

theorem itemsProper_succ {n : Nat} (hvalue : ValuesProper n) (hitems : ItemsProper n) :
    ItemsProper (n + 1) := by
  intro depth cs vs rest h
  unfold items at h
  simp only [bind, Option.bind_eq_some_iff] at h
  obtain ⟨cs₁, -, h⟩ := h
  split at h
  next =>
    obtain ⟨rfl, -⟩ := Prod.mk.inj (Option.some.inj h)
    exact List.forall_mem_nil _
  next =>
    simp only [Option.bind_eq_some_iff] at h
    obtain ⟨⟨v, cs₂⟩, hv, cs₃, -, h⟩ := h
    split at h
    next =>
      simp only [Option.bind_eq_some_iff] at h
      obtain ⟨⟨ws, cs₄⟩, hws, h⟩ := h
      obtain ⟨rfl, -⟩ := Prod.mk.inj (Option.some.inj h)
      exact List.forall_mem_cons.2 ⟨hvalue hv, hitems hws⟩
    next =>
      obtain ⟨rfl, -⟩ := Prod.mk.inj (Option.some.inj h)
      exact List.forall_mem_singleton.2 (hvalue hv)
    next => exact nomatch h

theorem pairsProper_succ {n : Nat} (hvalue : ValuesProper n) (hpairs : PairsProper n) :
    PairsProper (n + 1) := by
  intro depth es cs es' rest hes h
  unfold pairs at h
  simp only [bind, Option.bind_eq_some_iff] at h
  obtain ⟨⟨path, key, cs₁⟩, -, cs₂, -, ⟨v, cs₃⟩, hv, es₁, hadd, h⟩ := h
  have hes₁ := Entries.addAt_keeps (hvalue hv) .header key path hes hadd
  split at h
  next => exact hpairs hes₁ h
  next =>
    obtain ⟨rfl, -⟩ := Prod.mk.inj (Option.some.inj h)
    exact hes₁
  next => exact nomatch h

/-- Every value is proper, with what is nested in it. The induction is on what bounds the nesting,
for all three readers at once. -/
theorem value_proper (n : Nat) : ValuesProper n ∧ ItemsProper n ∧ PairsProper n := by
  induction n with
  | zero => exact ⟨nofun, nofun, fun _ => nofun⟩
  | succ n ih =>
    obtain ⟨hvalue, hitems, hpairs⟩ := ih
    exact ⟨valuesProper_succ hitems hpairs, itemsProper_succ hvalue hitems,
      pairsProper_succ hvalue hpairs⟩

/-! ### Documents -/

theorem expressions_proper {m n : Nat} {d d' : Draft} {cs : List Char} (hd : d.entries.Proper)
    (h : expressions m n d cs = some d') : d'.entries.Proper := by
  induction n generalizing d cs with
  | zero => exact nomatch h
  | succ n ih =>
    unfold expressions at h
    split at h
    next =>
      obtain rfl := Option.some.inj h
      exact hd
    next => exact ih hd h
    next => exact ih hd h
    next =>
      obtain ⟨rest, -, h⟩ := Option.bind_eq_some_iff.1 h
      exact ih hd h
    next =>
      simp only [bind, Option.bind_eq_some_iff] at h
      obtain ⟨⟨path, key, cs₁⟩, -, cs₂, -, cs₃, -, cs₄, -, es, hes, h⟩ := h
      exact ih (Entries.within_keeps (Entries.openArray_keeps key) path hd hes) h
    next =>
      simp only [bind, Option.bind_eq_some_iff] at h
      obtain ⟨⟨path, key, cs₁⟩, -, cs₂, -, cs₃, -, es, hes, h⟩ := h
      exact ih (Entries.within_keeps (Entries.openTable_keeps key) path hd hes) h
    next =>
      simp only [bind, Option.bind_eq_some_iff] at h
      obtain ⟨⟨path, key, cs₁⟩, -, cs₂, -, ⟨v, cs₃⟩, hv, cs₄, -, es, hes, h⟩ := h
      have hadd : Entries.Keeps (Entries.addAt .header key v path) :=
        Entries.addAt_keeps ((value_proper m).1 hv) .header key path
      exact ih (Entries.within_keeps hadd d.openPath hd hes) h

/-- What a document describes is proper. -/
theorem parse_proper {text : String} {fs : List (String × Value)} (h : parse text = some fs) :
    Proper (.object fs) := by
  obtain ⟨d, hd, rfl⟩ := Option.map_eq_some_iff.1 h
  exact expressions_proper Entries.proper_nil hd

end ClusterBroker.Toml
