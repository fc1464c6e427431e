import ClusterBroker.Text.Blank
import ClusterBroker.Text.Bytes
import ClusterBroker.Text.Escape
import ClusterBroker.Value

/-!
# Values of environment variables

The text of a variable is a truth value, a number, a quoted text, a quoted character, an array in
brackets or a table in braces; everything else is a text as it stands. A text that begins like
one of the former but goes on differently is taken as it stands too, blanks and all.

What goes before the first escape in quotes is measured in characters and cut in bytes; where
that would cut a character in two, reading breaks off.
-/
namespace ClusterBroker.Config.Variable

/-- Why a text is not read as a value. -/
inductive Trouble where
  /-- It is no value, and is taken as it stands. -/
  | noValue
  /-- Reading would cut a character in two. -/
  | cutCharacter
  deriving DecidableEq, Repr

/-- The white space of ASCII. -/
def isSpace (c : Char) : Bool := c = ' ' || c = '\t' || c = '\n' || c = '\r' || c = '\x0c'

def skipSpaces (cs : List Char) : List Char := cs.dropWhile isSpace

/-- A character that may stand in a bare word. -/
def isBare (c : Char) : Bool :=
  !(c = ',' || c = '[' || c = ']' || c = '\x7b' || c = '\x7d')

def isKeyChar (c : Char) : Bool := c.isAlphanum || c = '_' || c = '-'

/-- The input after a prefix. -/
def after? : List Char → List Char → Option (List Char)
  | [], cs => some cs
  | _ :: _, [] => none
  | p :: ps, c :: cs => if p = c then after? ps cs else none

/-- What stands in quotes as it is written, up to the closing one, and the input after it. -/
def inQuotes : List Char → Except Trouble (List Char × List Char)
  | [] => .error .noValue
  | '"' :: rest => .ok ([], rest)
  | '\\' :: c :: rest => (inQuotes rest).map fun r => ('\\' :: c :: r.1, r.2)
  | c :: rest => (inQuotes rest).map fun r => (c :: r.1, r.2)

/-- What quoted text stands for. -/
def unescaped : List Char → Except Trouble (List Char)
  | [] => .ok []
  | '\\' :: 'u' :: a :: b :: c :: d :: rest =>
    escapedTo (Text.charOfHex? [a, b, c, d]) (unescaped rest)
  | '\\' :: 'U' :: a :: b :: c :: d :: e :: f :: g :: h :: rest =>
    escapedTo (Text.charOfHex? [a, b, c, d, e, f, g, h]) (unescaped rest)
  | '\\' :: c :: rest => escapedTo (Text.escape? c) (unescaped rest)
  | c :: rest =>
    if Text.isText c && c ≠ '\\' then (unescaped rest).map (c :: ·) else .error .noValue
where
  escapedTo (c : Option Char) (rest : Except Trouble (List Char)) : Except Trouble (List Char) :=
    match c with
    | some c => rest.map (c :: ·)
    | none => .error .noValue

/-- What quoted text stands for, whose beginning is cut before the first escape: after as many
bytes as it has characters. -/
def quotedText (cs : List Char) : Except Trouble (List Char) :=
  let plain := cs.takeWhile (· ≠ '\\')
  if !plain.all Text.isText then .error .noValue
  else match cs.dropWhile (· ≠ '\\') with
    | [] => .ok plain
    | rest => match Text.cutAt? plain.length plain with
      | none => .error .cutCharacter
      | some (kept, _) => (unescaped rest).map (kept ++ ·)

/-- A quoted text and the input after it; the opening quote has been read. -/
def quoted (cs : List Char) : Except Trouble (List Char × List Char) := do
  let (inner, rest) ← inQuotes cs
  return (← quotedText inner, rest)

/-- The value of decimal digits, at least one. -/
def natural? (cs : List Char) : Option Nat :=
  if cs.isEmpty || !cs.all Char.isDigit then none
  else some (cs.foldl (fun n c => n * 10 + (c.toNat - '0'.toNat)) 0)

/-- A word without its sign, and whether the sign is a minus. -/
def unsigned : List Char → Bool × List Char
  | '-' :: cs => (true, cs)
  | '+' :: cs => (false, cs)
  | cs => (false, cs)

/-- A whole number that fits in 64 bits, with the sign or without. -/
def whole? (cs : List Char) : Option Int :=
  let u := unsigned cs
  match natural? u.2 with
  | none => none
  | some n =>
    if u.1 then if n ≤ 0x8000000000000000 then some (-n) else none
    else if n < 0x10000000000000000 then some n else none

/-- Whether a word with a point is a number. -/
def isDecimal (cs : List Char) : Bool :=
  let body := (unsigned cs).2
  let front := body.takeWhile Char.isDigit
  match body.dropWhile Char.isDigit with
  | '.' :: rest =>
    let back := rest.takeWhile Char.isDigit
    (!front.isEmpty || !back.isEmpty) &&
      match rest.dropWhile Char.isDigit with
      | [] => true
      | c :: e => (c = 'e' || c = 'E') && (natural? (unsigned e).2).isSome
  | _ => false

/-- The value of a bare word. -/
def word (cs : List Char) : Value :=
  if cs.contains '.' && isDecimal cs then .float (String.ofList cs)
  else match whole? cs with
    | some n => .int n
    | none => .string (String.ofList cs)

/-- The input after a sign that has to come next. -/
def expect (c : Char) : List Char → Except Trouble (List Char)
  | d :: rest => if c = d then .ok rest else .error .noValue
  | [] => .error .noValue

mutual

/-- A value and the input after it; each nested value, item or entry takes one off `n`. -/
def value : Nat → List Char → Except Trouble (Value × List Char)
  | 0, _ => .error .noValue
  | n + 1, cs =>
    let cs := skipSpaces cs
    let found : Except Trouble (Value × List Char) :=
      match after? "true".toList cs, after? "false".toList cs with
      | some rest, _ => .ok (.bool true, rest)
      | _, some rest => .ok (.bool false, rest)
      | none, none =>
        match cs with
        | '\x7b' :: rest => (entries n [] rest).map fun r => (.object r.1, r.2)
        | '[' :: rest => (items n rest).map fun r => (.array r.1, r.2)
        | '"' :: rest => (quoted rest).map fun r => (.string (String.ofList r.1), r.2)
        | '\'' :: c :: '\'' :: rest => .ok (.char c, rest)
        | '\'' :: _ => .error .noValue
        | _ => .ok (word (Text.trim (cs.takeWhile isBare)), cs.dropWhile isBare)
    found.map fun r => (r.1, skipSpaces r.2)

/-- The items of an array up to the closing bracket. -/
def items : Nat → List Char → Except Trouble (List Value × List Char)
  | 0, _ => .error .noValue
  | _ + 1, ']' :: rest => .ok ([], rest)
  | n + 1, cs =>
    match value n cs with
    | .ok (v, ',' :: rest) => (items n rest).map fun r => (v :: r.1, r.2)
    | .ok (v, ']' :: rest) => .ok ([v], rest)
    | .ok _ => .error .noValue
    | .error e => .error e

/-- The entries of a table up to the closing brace, after those already read. -/
def entries : Nat → List (String × Value) → List Char →
    Except Trouble (List (String × Value) × List Char)
  | 0, _, _ => .error .noValue
  | _ + 1, fs, '\x7d' :: rest => .ok (fs, rest)
  | n + 1, fs, cs => do
    let cs := skipSpaces cs
    let (key, rest) ← match cs with
      | '"' :: rest => quoted rest
      | _ =>
        let k := cs.takeWhile isKeyChar
        if k.isEmpty then .error .noValue else .ok (k, cs.dropWhile isKeyChar)
    let rest ← expect '=' (skipSpaces rest)
    let (v, rest) ← value n rest
    let fs := Value.setField (String.ofList key) v fs
    match rest with
    | ',' :: rest => entries n fs rest
    | '\x7d' :: rest => return (fs, rest)
    | _ => .error .noValue

end

/-- The value of a variable's text; nothing if reading breaks off. -/
def parse (text : String) : Option Value :=
  match value (2 * text.length + 2) text.toList with
  | .ok (v, []) => some v
  | .error .cutCharacter => none
  | _ => some (.string text)

end ClusterBroker.Config.Variable
