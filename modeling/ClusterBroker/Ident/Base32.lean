/-!
# Base-32 numerals

Numerals over the 32 symbols `0`–`9`, `A`–`Z` without `I`, `L`, `O` and `U`, most significant
digit first. Reading takes either case; writing uses upper case and a fixed number of digits.
-/
namespace ClusterBroker.Base32

/-- The symbol of each digit. -/
def alphabet : List Char :=
  ['0', '1', '2', '3', '4', '5', '6', '7', '8', '9', 'A', 'B', 'C', 'D', 'E', 'F',
   'G', 'H', 'J', 'K', 'M', 'N', 'P', 'Q', 'R', 'S', 'T', 'V', 'W', 'X', 'Y', 'Z']

def symbol (d : Nat) : Char := alphabet.getD d '0'

/-- The digit of a symbol, in either case. -/
def digit? (c : Char) : Option Nat := alphabet.idxOf? c.toUpper

/-- The last `n` digits of `v`. -/
def digits : Nat → Nat → List Nat
  | 0, _ => []
  | n + 1, v => digits n (v / 32) ++ [v % 32]

/-- The number that a list of digits denotes. -/
def ofDigits (ds : List Nat) : Nat := ds.foldl (fun v d => 32 * v + d) 0

/-- The last `n` digits of `v`, written. -/
def encode (n v : Nat) : List Char := (digits n v).map symbol

/-- The number that a numeral denotes, unless a character is no digit. -/
def decode (cs : List Char) : Option Nat := (cs.mapM digit?).map ofDigits

@[simp] theorem length_digits (n v : Nat) : (digits n v).length = n := by
  induction n generalizing v with
  | zero => rfl
  | succ n ih => simp [digits, ih]

@[simp] theorem length_encode (n v : Nat) : (encode n v).length = n := by simp [encode]

theorem lt_of_mem_digits {n v d : Nat} (h : d ∈ digits n v) : d < 32 := by
  induction n generalizing v with
  | zero => simp [digits] at h
  | succ n ih =>
    rcases List.mem_append.1 h with h | h
    · exact ih h
    · simp only [List.mem_singleton] at h; omega

/-- The number of numerals of `n` digits. -/
def numerals : Nat → Nat
  | 0 => 1
  | n + 1 => 32 * numerals n

/-- Digits lose only what does not fit. -/
theorem ofDigits_digits (n v : Nat) : ofDigits (digits n v) = v % numerals n := by
  induction n generalizing v with
  | zero => simp [digits, ofDigits, numerals, Nat.mod_one]
  | succ n ih =>
    have h := ih (v / 32)
    simp only [ofDigits] at h
    simp only [ofDigits, digits, List.foldl_append, h, List.foldl_cons, List.foldl_nil]
    rw [numerals, Nat.mod_mul]
    omega

/-- A written digit reads as itself. -/
theorem digit?_symbol {d : Nat} (h : d < 32) : digit? (symbol d) = some d := by
  have : ∀ d : Fin 32, digit? (symbol d.val) = some d.val := by decide
  exact this ⟨d, h⟩

theorem decode_encode (n v : Nat) : decode (encode n v) = some (v % numerals n) := by
  have : ∀ ds : List Nat, (∀ d ∈ ds, d < 32) → (ds.map symbol).mapM digit? = some ds := by
    intro ds
    induction ds with
    | nil => intro _; rfl
    | cons d r ih =>
      intro h
      simp [digit?_symbol (h d (by simp)), ih fun e he => h e (by simp [he])]
  simp [decode, encode, this _ fun d hd => lt_of_mem_digits hd, ofDigits_digits]

end ClusterBroker.Base32
