import ClusterBroker.LogFilter.Pattern.Atom

/-!
# Classes in brackets

A class lists characters, ranges, named classes of ASCII and other classes in brackets, and joins
such lists by operators: `&&`, `--` and `~~`. Reading a class gives how deep it is nested.
-/
namespace ClusterBroker.LogFilter.Pattern

/-- The named classes of ASCII. -/
def classNames : List String := ["alnum", "alpha", "ascii", "blank", "cntrl", "digit", "graph",
  "lower", "print", "punct", "space", "upper", "word", "xdigit"]

/-- A bracket that is still open. -/
structure Bracket where
  /-- Nothing but hyphens has been read. -/
  fresh : Bool := true
  /-- The nesting of what stands before the last operator. -/
  left : Option Nat := none
  /-- The nestings of the items after it. -/
  items : List Nat := []
  deriving DecidableEq, Repr

namespace Bracket

/-- The bracket with one more item. -/
def add (b : Bracket) (depth : Nat) : Bracket :=
  { b with fresh := false, items := depth :: b.items }

/-- The bracket with one more hyphen at its beginning. -/
def addHyphen (b : Bracket) : Bracket := { b with items := 0 :: b.items }

/-- The nesting of all that stands in the bracket. -/
def content (b : Bracket) : Nat :=
  match b.left with
  | none => sideBySide b.items
  | some l => 1 + max l (sideBySide b.items)

/-- The bracket after an operator. -/
def operator (b : Bracket) : Bracket := { fresh := false, left := some b.content, items := [] }

/-- The nesting of the bracket, once it is closed. -/
def depth (b : Bracket) : Nat := 1 + b.content

end Bracket

/-- The input after a circumflex, and whether there is one. -/
def negation : List Char → Bool × List Char
  | '^' :: rest => (true, rest)
  | cs => (false, cs)

/-- The input after the name of a class in colons, and whether the class is negated. The bracket
in front has been read. -/
def namedClass? : List Char → Option (Bool × List Char)
  | ':' :: rest =>
    let r := negation rest
    match r.2.dropWhile (· ≠ ':') with
    | ':' :: ']' :: after =>
      if classNames.contains (String.ofList (r.2.takeWhile (· ≠ ':'))) then some (r.1, after)
      else none
    | _ => none
  | _ => none

/-- The character that tells whether a hyphen before it stands for itself. Blanks are passed
over, and so is one number sign. -/
def afterHyphen? (flags : Flags) (cs : List Char) : Option Char :=
  if flags.verbose then
    match cs.dropWhile Text.isBlank with
    | '#' :: rest => (rest.dropWhile Text.isBlank).head?
    | rest => rest.head?
  else cs.head?

/-- The input after a character, an escape or a range. A range goes from one character to one
that is no less. -/
def classItem (flags : Flags) (cs : List Char) : Option (List Char) := do
  let (a, rest) ← atom flags cs
  match skip flags rest with
  | '-' :: more =>
    if afterHyphen? flags more = some ']' || afterHyphen? flags more = some '-' then
      if a.usableInClass flags then some ('-' :: more) else none
    else
      let (b, rest) ← atom flags (skip flags more)
      match a.character?, b.character? with
      | some x, some y =>
        if x ≤ y && a.usableInClass flags && b.usableInClass flags then some rest else none
      | _, _ => none
  | rest => if a.usableInClass flags then some rest else none

/-- Reads on in the bracket `b`, which stands in those of `outer`: the nesting of the outermost
one, and the input after it. Each item and each bracket takes one off the first argument. -/
def bracket (flags : Flags) : Nat → List Bracket → Bracket → List Char → Option (Nat × List Char)
  | 0, _, _, _ => none
  | n + 1, outer, b, cs =>
    match skip flags cs with
    | [] => none
    | '[' :: rest =>
      match namedClass? rest with
      | some (negated, rest) =>
        if (if flags.unicode then flags.ignoreCase else negated) then none
        else bracket flags n outer (b.add 0) rest
      | none =>
        let r := negation (skip flags rest)
        if r.1 && !flags.unicode then none
        else bracket flags n ({ b with fresh := false } :: outer) {} r.2
    | ']' :: rest =>
      if b.fresh && b.items.isEmpty then bracket flags n outer (b.add 0) rest
      else match outer with
        | [] => some (b.depth, rest)
        | o :: outer => bracket flags n outer (o.add b.depth) rest
    | c :: rest =>
      if c = '-' && b.fresh then bracket flags n outer b.addHyphen rest
      else if ['&', '-', '~'].contains c && rest.head? = some c then
        bracket flags n outer b.operator (rest.drop 1)
      else do bracket flags n outer (b.add 0) (← classItem flags (c :: rest))

/-- The nesting of a class, and the input after it; its bracket has been read. -/
def bracketed (flags : Flags) (cs : List Char) : Option (Nat × List Char) :=
  let r := negation (skip flags cs)
  if r.1 && !flags.unicode then none
  else bracket flags (r.2.length + 1) [] {} r.2

end ClusterBroker.LogFilter.Pattern
