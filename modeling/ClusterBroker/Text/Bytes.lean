/-!
# Cutting texts by bytes

A position in a text may be counted in the bytes of its UTF-8 form. A text can be cut only where
a character ends: then the first part has exactly that many bytes. `cutAt?_eq_some_iff` says that
this is all there is to a cut, so nobody needs to unfold it.
-/
namespace ClusterBroker.Text

/-- The number of bytes of a text. -/
def byteCount : List Char → Nat
  | [] => 0
  | c :: cs => c.utf8Size + byteCount cs

/-- Cuts a text after `n` bytes, if a character ends there. -/
def cutAt? : Nat → List Char → Option (List Char × List Char)
  | 0, cs => some ([], cs)
  | _ + 1, [] => none
  | n + 1, c :: cs =>
    if c.utf8Size ≤ n + 1 then (cutAt? (n + 1 - c.utf8Size) cs).map fun r => (c :: r.1, r.2)
    else none

/-- The part of a text between two positions, if a character ends at both. -/
def slice? (i j : Nat) (cs : List Char) : Option (List Char) :=
  match cutAt? j cs with
  | none => none
  | some (before, _) => (cutAt? i before).map Prod.snd

/-- The part of a text from a position on, if a character ends there. -/
def suffix? (i : Nat) (cs : List Char) : Option (List Char) := (cutAt? i cs).map Prod.snd

@[simp] theorem cutAt?_zero (cs : List Char) : cutAt? 0 cs = some ([], cs) := by
  cases cs <;> rfl

theorem cutAt?_byteCount (a b : List Char) : cutAt? (byteCount a) (a ++ b) = some (a, b) := by
  induction a with
  | nil => simp [byteCount]
  | cons c a ih =>
    have hc : 0 < c.utf8Size := c.utf8Size_pos
    obtain ⟨n, hn⟩ : ∃ n, byteCount (c :: a) = n + 1 :=
      ⟨c.utf8Size + byteCount a - 1, by simp only [byteCount]; omega⟩
    have hle : c.utf8Size ≤ n + 1 := by rw [← hn]; simp only [byteCount]; omega
    have hsub : n + 1 - c.utf8Size = byteCount a := by rw [← hn]; simp only [byteCount]; omega
    rw [hn, List.cons_append, cutAt?, if_pos hle, hsub, ih]
    rfl

/-- Cutting loses nothing, and the first part has the bytes asked for. -/
theorem cutAt?_eq_some_iff {n : Nat} {cs a b : List Char} :
    cutAt? n cs = some (a, b) ↔ a ++ b = cs ∧ byteCount a = n := by
  constructor
  · intro h
    fun_induction cutAt? n cs generalizing a b with
    | case1 cs => simp_all [byteCount]
    | case2 => simp at h
    | case3 n c cs hc ih =>
      obtain ⟨r, hr, hab⟩ := Option.map_eq_some_iff.1 h
      obtain ⟨rfl, rfl⟩ := Prod.mk.inj hab
      obtain ⟨hcs, hn⟩ := ih hr
      exact ⟨by rw [List.cons_append, hcs], by simp only [byteCount]; omega⟩
    | case4 => simp at h
  · rintro ⟨rfl, rfl⟩
    exact cutAt?_byteCount a b

end ClusterBroker.Text
