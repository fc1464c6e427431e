import ClusterBroker.LogFilter.Pattern.Bracket
import ClusterBroker.Text.Alphanumeric

/-!
# Patterns

The value of a field may be given by a pattern: a regular expression with groups, alternatives,
repetitions without counts, and classes. Which texts are patterns is decided by one walk through
the text; of what has been read only the nesting is kept, which has a limit.
-/
namespace ClusterBroker.LogFilter.Pattern

/-- The deepest nesting that a pattern may have. -/
def depthLimit : Nat := 250

/-- A part of a pattern: settings, or something that can be repeated, with its nesting. -/
inductive Part where
  | settings
  | matching (depth : Nat)
  deriving DecidableEq, Repr

def Part.depth : Part → Nat
  | .settings => 0
  | .matching n => n

/-- A group that is still open, or the whole pattern. -/
structure Group where
  flags : Flags := {}
  /-- The nestings of the alternatives that are complete. -/
  alternatives : List Nat := []
  /-- The parts of the last alternative, the last part first. -/
  parts : List Part := []
  deriving DecidableEq, Repr

namespace Group

/-- The group with one more part. -/
def add (g : Group) (p : Part) : Group := { g with parts := p :: g.parts }

/-- The nesting of the last alternative. -/
def lastDepth (g : Group) : Nat := sideBySide (g.parts.map Part.depth)

/-- The group after a bar. -/
def alternative (g : Group) : Group :=
  { g with alternatives := g.lastDepth :: g.alternatives, parts := [] }

/-- The nesting of all that stands in the group. -/
def content (g : Group) : Nat :=
  match g.alternatives with
  | [] => g.lastDepth
  | ds => sideBySide (g.lastDepth :: ds)

/-- The group with its last part repeated, if there is something to repeat. -/
def repeated? (g : Group) : Option Group :=
  match g.parts with
  | .matching n :: ps => some { g with parts := .matching (n + 1) :: ps }
  | _ => none

end Group

/-! ### Openings of groups -/

/-- How a group begins, or settings that stand alone. -/
inductive Opening where
  | group (flags : Flags)
  | named (name : List Char)
  | settings (flags : Flags)
  deriving DecidableEq, Repr

/-- The letters of settings, and the sign that turns off those after it. -/
def settingLetters : List Char := ['i', 'm', 's', 'U', 'u', 'R', 'x', '-']

/-- Turns a setting on or off. -/
def Flags.set (f : Flags) (letter : Char) (on : Bool) : Flags :=
  match letter with
  | 'i' => { f with ignoreCase := on }
  | 'u' => { f with unicode := on }
  | 'x' => { f with verbose := on }
  | _ => f

/-- The settings with the letters before the minus sign turned on and those after it off. Each
letter and the sign may stand once, and a letter has to follow the sign. -/
def Flags.apply? (f : Flags) (letters : List Char) : Option Flags :=
  if letters.all settingLetters.contains && letters.Nodup && letters.getLast? ≠ some '-' then
    let on := (letters.takeWhile (· ≠ '-')).foldl (fun f c => f.set c true) f
    some ((letters.dropWhile (· ≠ '-')).foldl (fun f c => f.set c false) on)
  else none

/-- Whether a text is a name of a group: a letter or a low line, then also digits, points and
brackets. -/
def isName : List Char → Bool
  | [] => false
  | c :: rest => (c = '_' || Text.isAlphabetic c) &&
      rest.all fun c => ['_', '.', '[', ']'].contains c || Text.isAlphanumeric c

/-- The name of a group, and the input after the angle that closes it. -/
def groupName (cs : List Char) : Option (Opening × List Char) :=
  let name := cs.takeWhile (· ≠ '>')
  match cs.dropWhile (· ≠ '>') with
  | '>' :: rest => if isName name then some (.named name, rest) else none
  | _ => none

/-- The beginning of a group, and the input after it; its parenthesis has been read. What follows
or goes before a match cannot be looked at. -/
def opening (flags : Flags) (cs : List Char) : Option (Opening × List Char) :=
  match skip flags cs with
  | '?' :: 'P' :: '<' :: rest => groupName rest
  | '?' :: '<' :: rest => groupName rest
  | '?' :: rest => do
    let isEnd (c : Char) : Bool := c = ':' || c = ')'
    let letters := rest.takeWhile fun c => !isEnd c
    let f ← flags.apply? letters
    match rest.dropWhile fun c => !isEnd c with
    | ':' :: rest => some (.group f, rest)
    | ')' :: rest => if letters.isEmpty then none else some (.settings f, rest)
    | _ => none
  | rest => some (.group flags, rest)

/-! ### The whole pattern -/

/-- What has been read of a pattern. -/
structure Draft where
  current : Group := {}
  /-- The groups around it, innermost first. -/
  outer : List Group := []
  names : List (List Char) := []
  deriving DecidableEq, Repr

namespace Draft

/-- The draft with one more part in the current group. -/
def add (d : Draft) (p : Part) : Draft := { d with current := d.current.add p }

/-- The draft with a new group in the current one. -/
def enter (d : Draft) (flags : Flags) : Draft :=
  { d with current := { flags }, outer := d.current :: d.outer }

/-- The draft after the beginning of a group. Two groups cannot have one name. -/
def begin? (d : Draft) : Opening → Option Draft
  | .group f => some (d.enter f)
  | .named name =>
    if d.names.contains name then none
    else some { d.enter d.current.flags with names := name :: d.names }
  | .settings f => some { d with current := { d.current.add .settings with flags := f } }

/-- The draft after the end of a group. -/
def close? (d : Draft) : Option Draft :=
  match d.outer with
  | [] => none
  | g :: outer => some { d with current := g.add (.matching (1 + d.current.content)), outer }

/-- The input after an atom that may stand in the pattern. -/
def atom? (d : Draft) (cs : List Char) : Option (Draft × List Char) := do
  let (a, rest) ← atom d.current.flags cs
  if a.usable d.current.flags then some (d.add (.matching 0), rest) else none

/-- Reads one more part, which begins with `c`. A repetition may have a question mark after it,
and there are no counts in braces. -/
def step (d : Draft) (c : Char) (rest : List Char) : Option (Draft × List Char) :=
  let flags := d.current.flags
  match c with
  | '(' => do
    let (o, rest) ← opening flags rest
    return (← d.begin? o, rest)
  | ')' => d.close?.map fun d => (d, rest)
  | '|' => some ({ d with current := d.current.alternative }, rest)
  | '[' => (bracketed flags rest).map fun r => (d.add (.matching r.1), r.2)
  | '?' | '*' | '+' =>
    d.current.repeated?.map fun g => ({ d with current := g }, match rest with
      | '?' :: rest => rest
      | _ => rest)
  | '\x7b' => none
  | '.' => if flags.unicode then some (d.add (.matching 0), rest) else none
  | '^' | '$' => some (d.add (.matching 0), rest)
  | _ => d.atom? (c :: rest)

/-- Reads on to the end, at most `n` parts: the nesting of the pattern. -/
def readFrom : Nat → Draft → List Char → Option Nat
  | 0, _, _ => none
  | n + 1, d, cs =>
    match skip d.current.flags cs with
    | [] => if d.outer.isEmpty then some d.current.content else none
    | c :: rest => do
      let (d, rest) ← d.step c rest
      readFrom n d rest

end Draft

/-- Whether a text is a pattern. -/
def isPattern (cs : List Char) : Bool :=
  match Draft.readFrom (cs.length + 1) {} cs with
  | some depth => depth ≤ depthLimit
  | none => false

end ClusterBroker.LogFilter.Pattern
