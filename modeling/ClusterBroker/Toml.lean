import ClusterBroker.Toml.Item
import ClusterBroker.Toml.Quoted
import ClusterBroker.Toml.Scalar

/-!
# TOML documents

Reads a document into the fields of an object: one expression a line, each a key with its value,
or the header of a table. Values are scalars, quoted texts, arrays and inline tables.
-/
namespace ClusterBroker.Toml

open Text (isText)

/-! ### Layout -/

def skipSpaces (cs : List Char) : List Char := cs.dropWhile isSpace

/-- The input after blanks, comments and line ends. -/
def skipLines (inComment : Bool) : List Char → Option (List Char)
  | [] => some []
  | '\r' :: '\n' :: rest | '\n' :: rest => skipLines false rest
  | c :: rest =>
    if inComment then if isText c then skipLines true rest else none
    else if isSpace c then skipLines false rest
    else if c = '#' then skipLines true rest
    else some (c :: rest)

/-- The input after the end of a line on which only a comment may follow. -/
def lineEnd (inComment : Bool) : List Char → Option (List Char)
  | [] => some []
  | '\r' :: '\n' :: rest | '\n' :: rest => some rest
  | c :: rest =>
    if inComment then if isText c then lineEnd true rest else none
    else if isSpace c then lineEnd false rest
    else if c = '#' then lineEnd true rest
    else none

/-! ### Keys -/

/-- The most parts that a key may have, and the most arrays and inline tables that may be nested. -/
def depthLimit : Nat := 79

def isKeyChar (c : Char) : Bool := c.isAlphanum || c = '-' || c = '_'

/-- A key without dots. -/
def simpleKey (cs : List Char) : Option (String × List Char) :=
  match cs with
  | '"' :: rest => (basic rest).map fun r => (String.ofList r.1, r.2)
  | '\'' :: rest => (literal rest).map fun r => (String.ofList r.1, r.2)
  | _ =>
    let k := cs.takeWhile isKeyChar
    if k.isEmpty then none else some (String.ofList k, cs.dropWhile isKeyChar)

/-- A dotted key with at most `n` parts: what leads to it, the last part, and the input after
it. -/
def dottedKey : Nat → List Char → Option (List String × String × List Char)
  | 0, _ => none
  | n + 1, cs => do
    let (k, rest) ← simpleKey (skipSpaces cs)
    match skipSpaces rest with
    | '.' :: more =>
      let (path, last, rest) ← dottedKey n more
      return (k :: path, last, rest)
    | rest => return ([], k, rest)

/-! ### Values -/

mutual

/-- A value with at most `depth` arrays and inline tables nested in it; each nested value, item or
entry takes one off the second argument. -/
def value (depth : Nat) : Nat → List Char → Option (Value × List Char)
  | 0, _ => none
  | n + 1, cs =>
    match quoted? cs with
    | some s => s.map fun r => (.string (String.ofList r.1), r.2)
    | none =>
      match cs with
      | '[' :: rest =>
        if depth = 0 then none else (items (depth - 1) n rest).map fun r => (.array r.1, r.2)
      | '\x7b' :: rest =>
        if depth = 0 then none
        else match skipSpaces rest with
          | '\x7d' :: rest => some (.object [], rest)
          | rest => (pairs (depth - 1) n [] rest).map fun r => (.object (entriesValue r.1), r.2)
      | _ => scalar cs

/-- The items of an array up to the closing bracket. -/
def items (depth : Nat) : Nat → List Char → Option (List Value × List Char)
  | 0, _ => none
  | n + 1, cs => do
    match ← skipLines false cs with
    | ']' :: rest => return ([], rest)
    | cs =>
      let (v, rest) ← value depth n cs
      match ← skipLines false rest with
      | ',' :: rest =>
        let (vs, rest) ← items depth n rest
        return (v :: vs, rest)
      | ']' :: rest => return ([v], rest)
      | _ => none

/-- The entries of an inline table up to the closing brace. -/
def pairs (depth : Nat) : Nat → Entries → List Char → Option (Entries × List Char)
  | 0, _, _ => none
  | n + 1, es, cs => do
    let (path, key, rest) ← dottedKey depthLimit cs
    let (v, rest) ← value depth n (skipSpaces (← expect '=' rest))
    let es ← Entries.addAt .header key v path es
    match skipSpaces rest with
    | ',' :: rest => pairs depth n es rest
    | '\x7d' :: rest => return (es, rest)
    | _ => none

end

/-! ### Documents -/

/-- A document in the making: its entries, and the path of the table that is open. -/
structure Draft where
  entries : Entries := []
  openPath : List String := []

/-- Reads expressions, one a line, at most `n` of them. Values are shorter than `m`. -/
def expressions (m : Nat) : Nat → Draft → List Char → Option Draft
  | 0, _, _ => none
  | n + 1, d, cs =>
    match skipSpaces cs with
    | [] => some d
    | '\r' :: '\n' :: rest | '\n' :: rest => expressions m n d rest
    | '#' :: rest => do expressions m n d (← lineEnd true rest)
    | '[' :: '[' :: rest => do
      let (path, key, rest) ← dottedKey depthLimit rest
      let rest ← lineEnd false (← expect ']' (← expect ']' rest))
      let es ← Entries.within (Entries.openArray key) path d.entries
      expressions m n ⟨es, path ++ [key]⟩ rest
    | '[' :: rest => do
      let (path, key, rest) ← dottedKey depthLimit rest
      let rest ← lineEnd false (← expect ']' rest)
      let es ← Entries.within (Entries.openTable key) path d.entries
      expressions m n ⟨es, path ++ [key]⟩ rest
    | cs => do
      let (path, key, rest) ← dottedKey depthLimit cs
      let (v, rest) ← value depthLimit m (skipSpaces (← expect '=' rest))
      let rest ← lineEnd false rest
      let es ← Entries.within (Entries.addAt .header key v path) d.openPath d.entries
      expressions m n { d with entries := es } rest

/-- The fields that a document describes. A byte order mark in front is ignored. -/
def parse (text : String) : Option (List (String × Value)) :=
  let cs := match text.toList with
    | '\ufeff' :: rest => rest
    | cs => cs
  (expressions (2 * cs.length + 2) (cs.length + 1) {} cs).map fun d => entriesValue d.entries

end ClusterBroker.Toml
