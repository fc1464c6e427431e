/-!
# Tables in key order

A finite map from keys to values, kept as the list of its pairs in strictly ascending key
order. The order is part of the type, so two tables with the same look-ups are equal and the
enumeration of a table is determined by its contents.

The maps that tables stand for enumerate their keys in an order that nobody specifies. Ascending
order is one choice of it, made once for all tables. So where a theorem says that two lists taken
from tables are equal, they have the same members in any order, and the same order by this choice.

Every operation is described by its effect on `get?`. Nothing is claimed about running time:
look-ups are linear.
-/
namespace ClusterBroker

/-- What a table needs of its keys: a decidable strict order in which any two keys compare. -/
class Key (κ : Type) extends LT κ where
  decLt : DecidableLT κ
  lt_irrefl : ∀ a : κ, ¬ a < a
  lt_trans : ∀ {a b c : κ}, a < b → b < c → a < c
  connected : ∀ {a b : κ}, ¬ a < b → ¬ b < a → a = b

instance Key.decidableLT (κ : Type) [Key κ] : DecidableLT κ := Key.decLt

theorem Key.ne_of_lt {κ : Type} [Key κ] {a b : κ} (h : a < b) : a ≠ b := by
  rintro rfl; exact Key.lt_irrefl a h

theorem Key.not_lt_of_lt {κ : Type} [Key κ] {a b : κ} (h : a < b) : ¬ b < a :=
  fun h' => Key.lt_irrefl a (Key.lt_trans h h')

/-! ### Lists of pairs -/

namespace Pairs

variable {κ ν : Type}

/-- Keys ascend strictly. -/
def Ascending [Key κ] (l : List (κ × ν)) : Prop := l.Pairwise (fun a b => a.1 < b.1)

theorem ascending_filter [Key κ] (p : κ × ν → Bool) {l : List (κ × ν)} (h : Ascending l) :
    Ascending (l.filter p) := List.Pairwise.filter p h

variable [DecidableEq κ]

/-- The value of the first pair with this key. -/
def get? (k : κ) : List (κ × ν) → Option ν
  | [] => none
  | (k', v) :: r => if k' = k then some v else get? k r

/-- The pair in its place, instead of one with the same key. -/
def insert [Key κ] (k : κ) (v : ν) : List (κ × ν) → List (κ × ν)
  | [] => [(k, v)]
  | (k', v') :: r =>
    if k < k' then (k, v) :: (k', v') :: r
    else if k' = k then (k, v) :: r
    else (k', v') :: insert k v r

/-- No pair with this key. -/
def erase (k : κ) (l : List (κ × ν)) : List (κ × ν) := l.filter (fun e => !decide (e.1 = k))

theorem mem_insert [Key κ] {k : κ} {v : ν} {l : List (κ × ν)} {e : κ × ν} :
    e ∈ insert k v l → e = (k, v) ∨ e ∈ l := by
  induction l with
  | nil => simp [insert]
  | cons a r ih =>
    obtain ⟨k', v'⟩ := a
    simp only [insert]
    split
    · simp
    split
    · simp only [List.mem_cons]; rintro (h | h) <;> simp [h]
    · simp only [List.mem_cons]; rintro (h | h)
      · simp [h]
      · rcases ih h with h | h <;> simp [h]

theorem ascending_insert [Key κ] (k : κ) (v : ν) {l : List (κ × ν)} (h : Ascending l) :
    Ascending (insert k v l) := by
  induction l with
  | nil => simp [insert, Ascending]
  | cons a r ih =>
    obtain ⟨k', v'⟩ := a
    have hr := List.pairwise_cons.1 h
    simp only [insert]
    split
    next hlt =>
      refine List.pairwise_cons.2 ⟨fun e he => ?_, h⟩
      rcases List.mem_cons.1 he with rfl | he
      · exact hlt
      · exact Key.lt_trans hlt (hr.1 e he)
    next hlt =>
      split
      next heq => exact List.pairwise_cons.2 ⟨fun e he => heq ▸ hr.1 e he, hr.2⟩
      next hne =>
        refine List.pairwise_cons.2 ⟨fun e he => ?_, ih hr.2⟩
        rcases mem_insert he with rfl | he
        · exact Decidable.byContradiction fun hn => hne (Key.connected hn hlt)
        · exact hr.1 e he

theorem get?_insert [Key κ] (k k' : κ) (v : ν) (l : List (κ × ν)) :
    get? k' (insert k v l) = if k = k' then some v else get? k' l := by
  induction l with
  | nil => simp [insert, get?]
  | cons a r ih =>
    obtain ⟨k₀, v₀⟩ := a
    simp only [insert]
    split
    · simp [get?]
    split
    next h => subst h; by_cases hk : k₀ = k' <;> simp [get?, hk]
    next h =>
      by_cases hk : k₀ = k'
      · have : k ≠ k' := fun e => h (hk.trans e.symm)
        simp [get?, hk, this]
      · simp [get?, hk, ih]

theorem get?_erase (k k' : κ) (l : List (κ × ν)) :
    get? k' (erase k l) = if k = k' then none else get? k' l := by
  induction l with
  | nil => simp [erase, get?]
  | cons a r ih =>
    obtain ⟨k₀, v₀⟩ := a
    simp only [erase] at ih
    by_cases h : k₀ = k
    · subst h; by_cases hk : k₀ = k' <;> simp_all [erase, get?]
    · by_cases hk : k₀ = k'
      · subst hk; simp [erase, get?, h, Ne.symm h]
      · simp [erase, get?, h, hk, ih]

theorem mem_of_get? {k : κ} {v : ν} {l : List (κ × ν)} (h : get? k l = some v) : (k, v) ∈ l := by
  induction l with
  | nil => simp [get?] at h
  | cons a r ih =>
    obtain ⟨k', v'⟩ := a
    by_cases hk : k' = k
    · simp [get?, hk] at h; simp [hk, h]
    · simp [get?, hk] at h; simp [ih h]

theorem get?_of_mem [Key κ] {k : κ} {v : ν} {l : List (κ × ν)} (hl : Ascending l) (h : (k, v) ∈ l) :
    get? k l = some v := by
  induction l with
  | nil => simp at h
  | cons a r ih =>
    obtain ⟨k', v'⟩ := a
    have hr := List.pairwise_cons.1 hl
    rcases List.mem_cons.1 h with h | h
    · simp only [Prod.mk.injEq] at h; simp [get?, h]
    · have : k' ≠ k := Key.ne_of_lt (hr.1 _ h)
      simp [get?, this, ih hr.2 h]

end Pairs

/-! ### Tables -/

/-- A finite map, listed in key order. -/
structure Table (κ ν : Type) [Key κ] where
  entries : List (κ × ν)
  ascending : Pairs.Ascending entries

namespace Table

variable {κ ν : Type} [Key κ]

instance [DecidableEq κ] [DecidableEq ν] : DecidableEq (Table κ ν) := fun a b =>
  if h : a.entries = b.entries then isTrue (by cases a; cases b; simp_all)
  else isFalse (fun e => h (congrArg entries e))

/-- No entry. -/
def empty : Table κ ν := ⟨[], List.Pairwise.nil⟩

instance : EmptyCollection (Table κ ν) := ⟨empty⟩
instance : Inhabited (Table κ ν) := ⟨empty⟩

/-- The keys, ascending. -/
def keys (t : Table κ ν) : List κ := t.entries.map Prod.fst

/-- The values, in key order. -/
def values (t : Table κ ν) : List ν := t.entries.map Prod.snd

def size (t : Table κ ν) : Nat := t.entries.length

def isEmpty (t : Table κ ν) : Bool := t.entries.isEmpty

/-- The entries that satisfy `p`. -/
def filter (p : κ → ν → Bool) (t : Table κ ν) : Table κ ν :=
  ⟨t.entries.filter fun e => p e.1 e.2, Pairs.ascending_filter _ t.ascending⟩

/-- The entries from a key on, in key order. -/
def onward (t : Table κ ν) (k : κ) : List (κ × ν) := t.entries.filter fun e => !decide (e.1 < k)

variable [DecidableEq κ]

def get? (t : Table κ ν) (k : κ) : Option ν := Pairs.get? k t.entries

def contains (t : Table κ ν) (k : κ) : Bool := (t.get? k).isSome

/-- The table with `v` under `k`. -/
def insert (t : Table κ ν) (k : κ) (v : ν) : Table κ ν :=
  ⟨Pairs.insert k v t.entries, Pairs.ascending_insert k v t.ascending⟩

/-- The table without `k`. -/
def erase (t : Table κ ν) (k : κ) : Table κ ν :=
  ⟨Pairs.erase k t.entries, Pairs.ascending_filter _ t.ascending⟩

@[simp] theorem get?_empty (k : κ) : (∅ : Table κ ν).get? k = none := rfl

@[simp] theorem get?_insert (t : Table κ ν) (k k' : κ) (v : ν) :
    (t.insert k v).get? k' = if k = k' then some v else t.get? k' :=
  Pairs.get?_insert k k' v t.entries

@[simp] theorem get?_erase (t : Table κ ν) (k k' : κ) :
    (t.erase k).get? k' = if k = k' then none else t.get? k' :=
  Pairs.get?_erase k k' t.entries

/-- An entry is a successful look-up. -/
theorem mem_entries {t : Table κ ν} {k : κ} {v : ν} : (k, v) ∈ t.entries ↔ t.get? k = some v :=
  ⟨Pairs.get?_of_mem t.ascending, Pairs.mem_of_get?⟩

@[simp] theorem get?_filter (t : Table κ ν) (p : κ → ν → Bool) (k : κ) :
    (t.filter p).get? k = (t.get? k).filter (p k) := by
  have hiff : ∀ v, (t.filter p).get? k = some v ↔ t.get? k = some v ∧ p k v = true := by
    intro v
    rw [← mem_entries, ← mem_entries]
    simp [filter, List.mem_filter]
  cases h : (t.filter p).get? k with
  | some v =>
    obtain ⟨h₁, h₂⟩ := (hiff v).1 h
    simp [h₁, Option.filter, h₂]
  | none =>
    cases h' : t.get? k with
    | none => rfl
    | some v =>
      have : p k v ≠ true := fun hp => by
        have := (hiff v).2 ⟨h', hp⟩; simp [h] at this
      simp [Option.filter, this]

/-- A table is determined by its look-ups. -/
theorem ext_get? {t u : Table κ ν} (h : ∀ k, t.get? k = u.get? k) : t = u := by
  obtain ⟨l, hl⟩ := t
  obtain ⟨m, hm⟩ := u
  have hmem : ∀ e, e ∈ l ↔ e ∈ m := fun e =>
    (mem_entries (t := ⟨l, hl⟩)).trans ((by rw [h e.1]) : _ ↔ _) |>.trans
      (mem_entries (t := ⟨m, hm⟩)).symm
  have : l = m := by
    clear h
    induction l generalizing m with
    | nil =>
      cases m with
      | nil => rfl
      | cons b s => exact absurd ((hmem b).2 (by simp)) (by simp)
    | cons a r ih =>
      cases m with
      | nil => exact absurd ((hmem a).1 (by simp)) (by simp)
      | cons b s =>
        have hr := List.pairwise_cons.1 hl
        have hs := List.pairwise_cons.1 hm
        have hab : a = b := by
          rcases List.mem_cons.1 ((hmem a).1 (by simp)) with h₁ | h₁
          · exact h₁
          rcases List.mem_cons.1 ((hmem b).2 (by simp)) with h₂ | h₂
          · exact h₂.symm
          · exact absurd (hr.1 b h₂) (Key.not_lt_of_lt (hs.1 a h₁))
        subst hab
        refine congrArg (a :: ·) (ih hr.2 s hs.2 fun e => ⟨fun he => ?_, fun he => ?_⟩)
        · rcases List.mem_cons.1 ((hmem e).1 (List.mem_cons_of_mem _ he)) with rfl | h₁
          · exact absurd (hr.1 e he) (Key.lt_irrefl _)
          · exact h₁
        · rcases List.mem_cons.1 ((hmem e).2 (List.mem_cons_of_mem _ he)) with rfl | h₁
          · exact absurd (hs.1 e he) (Key.lt_irrefl _)
          · exact h₁
  subst this; rfl

end Table

/-! ### Sets -/

/-- A finite set of keys, listed in order. -/
abbrev KeySet (κ : Type) [Key κ] := Table κ Unit

namespace KeySet

variable {κ : Type} [DecidableEq κ] [Key κ]

def add (s : KeySet κ) (k : κ) : KeySet κ := s.insert k ()

def remove (s : KeySet κ) (k : κ) : KeySet κ := s.erase k

end KeySet

end ClusterBroker
