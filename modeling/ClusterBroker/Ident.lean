import ClusterBroker.Table
import ClusterBroker.Ident.Base32

/-!
# Identifiers

Reservations, resources and handles are named by 128-bit values. The upper 48 bits are the
time of minting in milliseconds, the lower 80 are random, so that the order of values is the
order of minting. As text, an identifier is the label of its kind, an underscore and the value
in 26 base-32 digits.
-/
namespace ClusterBroker

/-- What an identifier names. -/
inductive IdKind where
  | reservation | resource | handle
  deriving DecidableEq, Repr

/-- The label in front of an identifier's text. -/
def IdKind.label : IdKind → String
  | .reservation => "rsv"
  | .resource => "res"
  | .handle => "hdl"

/-- The number of random parts. -/
def randomRange : Nat := 0x100000000000000000000

/-- The number of times of minting. -/
def timeRange : Nat := 0x1000000000000

/-- The number of identifiers of a kind. -/
def idRange : Nat := 0x100000000000000000000000000000000

/-- An identifier of kind `k`. -/
structure Id (k : IdKind) where
  value : Nat
  lt_range : value < idRange
  deriving DecidableEq, Repr

abbrev ReservationId := Id .reservation
abbrev ResourceId := Id .resource
abbrev HandleId := Id .handle

/-- Why a text is no identifier of the wanted kind. -/
inductive IdFault where
  | noSeparator
  | otherKind
  | badLength
  | badDigit
  deriving DecidableEq, Repr

def IdFault.message : IdFault → String
  | .noSeparator => "bad format, expected '<prefix>_<ulid>'"
  | .otherKind => "id prefix doesn't match the expected type"
  | .badLength => "invalid length"
  | .badDigit => "invalid character"

namespace Id

variable {k : IdKind}

/-- The identifier with the low 128 bits of `n`. -/
def ofNat (n : Nat) : Id k := ⟨n % idRange, Nat.mod_lt _ (by decide)⟩

instance : Inhabited (Id k) := ⟨ofNat 0⟩

instance : Key (Id k) where
  lt a b := a.value < b.value
  decLt a b := Nat.decLt a.value b.value
  lt_irrefl a := Nat.lt_irrefl a.value
  lt_trans h h' := Nat.lt_trans h h'
  connected {a b} h h' := by
    obtain ⟨a, ha⟩ := a
    obtain ⟨b, hb⟩ := b
    have : a = b := Nat.le_antisymm (Nat.not_lt.1 h') (Nat.not_lt.1 h)
    subst this; rfl

/-- The largest identifier. -/
def last : Id k := ofNat (idRange - 1)

/-- The low 48 bits of a time and the low 80 bits of a random number. -/
def ofParts (millis random : Nat) : Id k :=
  ofNat (millis % timeRange * randomRange + random % randomRange)

/-- The time of minting, in milliseconds. -/
def timestamp (a : Id k) : Nat := a.value / randomRange

/-- The number of digits of an identifier. -/
def textLength : Nat := 26

def toText (a : Id k) : String :=
  k.label ++ "_" ++ String.ofList (Base32.encode textLength a.value)

instance : ToString (Id k) := ⟨toText⟩

/-- Reads the part after the separator. Its length is that of its UTF-8 form; bits beyond the
128th are dropped. -/
def parseDigits (cs : List Char) : Except IdFault (Id k) :=
  if (String.ofList cs).utf8ByteSize ≠ textLength then .error .badLength
  else match Base32.decode cs with
    | none => .error .badDigit
    | some v => .ok (ofNat v)

/-- Reads an identifier: the label of its kind up to the first underscore, then its digits. -/
def parse (k : IdKind) (text : String) : Except IdFault (Id k) :=
  match text.toList.dropWhile (· ≠ '_') with
  | [] => .error .noSeparator
  | _ :: rest =>
    if text.toList.takeWhile (· ≠ '_') = k.label.toList then parseDigits rest
    else .error .otherKind

end Id

end ClusterBroker
