import ClusterBroker.Value

/-!
# Reading values

Readers turn values into typed data or say what is wrong and where. The interesting ones are
records: objects whose fields are read one by one. Fields that a record does not know are
ignored; a record may also be given as the list of its fields' values.

If several things are wrong with a record, the field whose name comes first is reported, and
fields that are missing come last.
-/
namespace ClusterBroker.Value

/-- What is wrong with a value. -/
inductive FaultKind where
  | message | invalidType | invalidValue | unknownVariant | missingField | other
  /-- Nothing is wrong with the form, but reading breaks off. -/
  | brokenOff
  deriving DecidableEq, Repr

/-- A fault, and the path of names to where it is. -/
structure Fault where
  kind : FaultKind
  path : List String := []
  deriving DecidableEq, Repr

/-- The fault seen from one level up. -/
def Fault.within (name : String) (f : Fault) : Fault := { f with path := name :: f.path }

abbrev Reader (α : Type) := Value → Except Fault α

namespace Reader

variable {α β : Type}

def refuse (kind : FaultKind) : Except Fault α := .error ⟨kind, []⟩

/-- Reads a text. A character is a text of length one. -/
def text : Reader String
  | .string s => .ok s
  | .char c => .ok (String.singleton c)
  | _ => refuse .invalidType

def bool : Reader Bool
  | .bool b => .ok b
  | _ => refuse .invalidType

/-- Reads a natural number less than `bound`. -/
def natBelow (bound : Nat) : Reader Nat
  | .int n => if 0 ≤ n ∧ n.toNat < bound then .ok n.toNat else refuse .invalidValue
  | _ => refuse .invalidType

/-- Reads what a text stands for. -/
def ofText (parse : String → Option α) : Reader α := fun v =>
  match text v with
  | .error f => .error f
  | .ok s => match parse s with
    | some a => .ok a
    | none => refuse .message

/-- Reads a value that may be absent. -/
def option (r : Reader α) : Reader (Option α)
  | .null => .ok none
  | v => (r v).map some

/-- Reads items, numbered from `i`. -/
def items (r : Reader α) (i : Nat) : List Value → Except Fault (List α)
  | [] => .ok []
  | v :: vs => do
    let a ← (r v).mapError (Fault.within (toString i))
    return a :: (← items r (i + 1) vs)

def list (r : Reader α) : Reader (List α)
  | .array vs => items r 0 vs
  | _ => refuse .invalidType

/-- The fault of a payload where a variant has none. -/
def payloadFault? : Value → Option FaultKind
  | .null => none
  | _ => some .invalidType

/-- Reads one of several named variants: its name, or an object with the name and nothing. Such an
object has one field in a `closed` format; else of its fields the one whose name comes first
counts. -/
def variant (closed : Bool) (parse : String → Option α) : Reader α
  | .string s => match parse s with
    | some a => .ok a
    | none => refuse .unknownVariant
  | .object (f :: fs) =>
    let least := fs.foldl (fun a b => if b.1 < a.1 then b else a) f
    if closed && !fs.isEmpty then refuse .invalidValue
    else
      let found : Except Fault α := match parse least.1, payloadFault? least.2 with
        | none, _ => refuse .unknownVariant
        | some _, some kind => refuse kind
        | some a, none => .ok a
      found.mapError (Fault.within least.1)
  | _ => refuse .invalidType

/-- Reads one of several named variants in a group of fields that are collected before they are
read: faults have no path, an object must have one field, and an empty object is nothing too. -/
def collectedVariant (parse : String → Option α) : Reader α
  | .string s => match parse s with
    | some a => .ok a
    | none => refuse .unknownVariant
  | .object [f] =>
    match parse f.1, f.2 with
    | none, _ => refuse .unknownVariant
    | some a, .null | some a, .object [] => .ok a
    | some _, _ => refuse .invalidType
  | .object _ => refuse .invalidValue
  | _ => refuse .invalidType

/-- Reads a text in a group of fields that are collected before they are read. -/
def collectedText : Reader String
  | .string s => .ok s
  | _ => refuse .invalidType

end Reader

/-! ### Records -/

/-- What is wrong with a field; without a fault it is missing. -/
structure Flaw where
  field : String
  fault : Option Fault
  deriving DecidableEq, Repr

/-- How the fields of a record are read, in order of declaration. -/
structure Record (α : Type) where
  fields : List String
  build : (String → Option Value) → Except (List Flaw) α

namespace Record

variable {α β : Type}

/-- A record without fields. -/
def of (a : α) : Record α := ⟨[], fun _ => .ok a⟩

/-- All flaws of two results. -/
def combine (f : Except (List Flaw) (α → β)) (x : Except (List Flaw) α) : Except (List Flaw) β :=
  match f, x with
  | .ok f, .ok a => .ok (f a)
  | .error l, .ok _ => .error l
  | .ok _, .error l => .error l
  | .error l, .error l' => .error (l ++ l')

/-- The record with further fields. -/
def also (f : Record (α → β)) (x : Record α) : Record β where
  fields := f.fields ++ x.fields
  build get := combine (f.build get) (x.build get)

/-- One field that has to be there. -/
def required (name : String) (r : Reader α) : Record α where
  fields := [name]
  build get := match get name with
    | none => .error [⟨name, none⟩]
    | some v => (r v).mapError fun f => [⟨name, some f⟩]

/-- One field that may be missing. -/
def optional (name : String) (r : Reader α) : Record (Option α) where
  fields := [name]
  build get := match get name with
    | none => .ok none
    | some v => (r.option v).mapError fun f => [⟨name, some f⟩]

/-- The record with one more field that has to be there. -/
def field (f : Record (α → β)) (name : String) (r : Reader α) : Record β :=
  f.also (required name r)

/-- The record with one more field that may be missing. -/
def optionalField (f : Record (Option α → β)) (name : String) (r : Reader α) : Record β :=
  f.also (optional name r)

/-- The flaw that is reported of an object. -/
def firstOf : List Flaw → Option Flaw
  | [] => none
  | a :: rest =>
    match firstOf rest with
    | none => some a
    | some b =>
      match a.fault, b.fault with
      | none, some _ => some b
      | some _, some _ => if b.field < a.field then some b else some a
      | _, _ => some a

/-- The fault of a flawed object. -/
def objectFault (flaws : List Flaw) : Fault :=
  match firstOf flaws with
  | some ⟨name, some f⟩ => f.within name
  | _ => ⟨.missingField, []⟩

/-- The fault of a flawed list of field values: the first, by position. -/
def listFault (fields : List String) (flaws : List Flaw) : Fault :=
  match flaws.findSome? fun x =>
      x.fault.map fun f => f.within (toString (fields.idxOf x.field)) with
  | some f => f
  | none => ⟨.other, []⟩

/-- Reads the record from an object's fields. -/
def ofFields (r : Record α) (fs : List (String × Value)) : Except Fault α :=
  (r.build fun k => Value.field? k fs).mapError objectFault

/-- Reads the record from its fields' values. All have to be there, and in a `closed` format no
others. -/
def ofItems (closed : Bool) (r : Record α) (vs : List Value) : Except Fault α :=
  match r.build fun k => Value.field? k (r.fields.zip vs) with
  | .error flaws => .error (listFault r.fields flaws)
  | .ok a =>
    if vs.length < r.fields.length || (closed && r.fields.length < vs.length) then
      .error ⟨.other, []⟩
    else .ok a

/-- Reads the record from an object or a list. -/
def reader (closed : Bool) (r : Record α) : Reader α
  | .object fs => r.ofFields fs
  | .array vs => r.ofItems closed vs
  | _ => Reader.refuse .invalidType

end Record

end ClusterBroker.Value
