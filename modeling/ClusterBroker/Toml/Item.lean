import ClusterBroker.Value

/-!
# Tables in the making

The tables of a document while it is read. A table or a value can be defined once; what may be
added to later are tables that exist only because a header or a dotted key went through them,
and arrays of tables, which grow at the end.
-/
namespace ClusterBroker.Toml

/-- How a table came to be. -/
inductive Origin where
  /-- It has a header. -/
  | header
  /-- A header named a table inside it. -/
  | implied
  /-- A dotted key went through it. -/
  | dotted
  deriving DecidableEq, Repr

inductive Item where
  | value (v : Value)
  | table (origin : Origin) (entries : List (String × Item))
  /-- An array of tables; entries go to the last one. -/
  | tables (all : List (List (String × Item)))
  deriving Inhabited

abbrev Entries := List (String × Item)

namespace Entries

def find? (k : String) : Entries → Option Item
  | [] => none
  | (n, i) :: rest => if n = k then some i else find? k rest

/-- The entries with one set, in its old place or at the end. -/
def set (k : String) (i : Item) : Entries → Entries
  | [] => [(k, i)]
  | (n, j) :: rest => if n = k then (n, i) :: rest else (n, j) :: set k i rest

/-- Changes the last table of an array. -/
def modifyLast (f : Entries → Option Entries) : List Entries → Option (List Entries)
  | [] => none
  | [e] => (f e).map fun e => [e]
  | e :: rest => (modifyLast f rest).map (e :: ·)

/-- Changes the table at a path of a header, going through any table. -/
def within (f : Entries → Option Entries) : List String → Entries → Option Entries
  | [], es => f es
  | k :: path, es =>
    match es.find? k with
    | none => (within f path []).map fun t => es.set k (.table .implied t)
    | some (.value _) => none
    | some (.table o t) => (within f path t).map fun t => es.set k (.table o t)
    | some (.tables ts) => (modifyLast (within f path) ts).map fun ts => es.set k (.tables ts)

/-- Adds a value in the table of a dotted key; `origin` is how that table came to be. A dotted key
may go through the last table of an array, but not end there. -/
def addAt (origin : Origin) (key : String) (v : Value) : List String → Entries → Option Entries
  | [], es =>
    if origin = .implied then none
    else match es.find? key with
      | none => some (es.set key (.value v))
      | some _ => none
  | k :: path, es =>
    match es.find? k with
    | none => (addAt .dotted key v path []).map fun t => es.set k (.table .dotted t)
    | some (.table .header _) => none
    | some (.table o t) => (addAt o key v path t).map fun t => es.set k (.table o t)
    | some (.tables ts) =>
      (modifyLast (addAt .implied key v path) ts).map fun ts => es.set k (.tables ts)
    | some (.value _) => none

/-- Defines the table of a header. -/
def openTable (key : String) (es : Entries) : Option Entries :=
  match es.find? key with
  | none => some (es.set key (.table .header []))
  | some (.table .implied t) => some (es.set key (.table .header t))
  | some _ => none

/-- Adds a table to an array of tables. -/
def openArray (key : String) (es : Entries) : Option Entries :=
  match es.find? key with
  | none => some (es.set key (.tables [[]]))
  | some (.tables ts) => some (es.set key (.tables (ts ++ [[]])))
  | some _ => none

end Entries

mutual

def Item.toValue : Item → Value
  | .value v => v
  | .table _ es => .object (entriesValue es)
  | .tables ts => .array (tablesValue ts)

def entriesValue : List (String × Item) → List (String × Value)
  | [] => []
  | (k, i) :: rest => (k, i.toValue) :: entriesValue rest

def tablesValue : List (List (String × Item)) → List Value
  | [] => []
  | es :: rest => .object (entriesValue es) :: tablesValue rest

end

end ClusterBroker.Toml
