import ClusterBroker.Text.Blank
import ClusterBroker.Text.Escape

/-!
# Characters of a pattern

The smallest parts of a pattern: characters that stand for themselves, escapes after a backslash,
and the blanks and comments that a verbose pattern may have between its parts.

Patterns are matched without tables of letters. So as long as a pattern is about all characters
and not about ASCII only, case cannot be ignored and words, digits and blanks have no class.
-/
namespace ClusterBroker.LogFilter.Pattern

/-- The settings that decide which parts a pattern may have. -/
structure Flags where
  /-- Case is ignored. -/
  ignoreCase : Bool := false
  /-- The pattern is about all characters and not about ASCII only. -/
  unicode : Bool := true
  /-- Blanks and comments are left out. -/
  verbose : Bool := false
  deriving DecidableEq, Repr

/-- The input from the first part on. A comment runs from a number sign to the end of the line. -/
def skipComments (inComment : Bool) : List Char → List Char
  | [] => []
  | c :: rest =>
    if inComment then skipComments (c ≠ '\n') rest
    else if Text.isBlank c then skipComments false rest
    else if c = '#' then skipComments true rest
    else c :: rest

/-- The input from the next part of a pattern on. -/
def skip (flags : Flags) (cs : List Char) : List Char :=
  if flags.verbose then skipComments false cs else cs

/-- What a character or an escape stands for. -/
inductive Atom where
  /-- One character. -/
  | character (c : Char)
  /-- The byte with a number of two hexadecimal digits. -/
  | byte (c : Char)
  /-- The digits, the blanks or the characters of words, or all others. -/
  | shorthand (negated : Bool)
  /-- A place where a word begins or ends, or does not. -/
  | wordBoundary
  /-- The beginning or the end of the text. -/
  | anchor
  deriving DecidableEq, Repr

/-- An atom that is one character. -/
def Atom.character? : Atom → Option Char
  | .character c | .byte c => some c
  | _ => none

def isAscii (c : Char) : Bool := c.toNat < 128

/-- Whether an atom may stand in a pattern. -/
def Atom.usable (flags : Flags) : Atom → Bool
  | .character _ => !(flags.unicode && flags.ignoreCase)
  | .byte c => if flags.unicode then !flags.ignoreCase else isAscii c
  | .shorthand negated => !flags.unicode && !negated
  | .wordBoundary => !flags.unicode
  | .anchor => true

/-- Whether an atom may stand in a class. -/
def Atom.usableInClass (flags : Flags) : Atom → Bool
  | .character c | .byte c => if flags.unicode then !flags.ignoreCase else isAscii c
  | .shorthand negated => !flags.unicode && !negated
  | .wordBoundary | .anchor => false

/-- So many hexadecimal digits, and the input after them. -/
def hexDigits (flags : Flags) : Nat → List Char → Option (List Char × List Char)
  | 0, cs => some ([], cs)
  | n + 1, cs =>
    match skip flags cs with
    | [] => none
    | c :: rest =>
      if (Text.hexDigit? c).isSome then (hexDigits flags n rest).map fun r => (c :: r.1, r.2)
      else none

/-- The character with a code point of so many hexadecimal digits. -/
def codePoint (flags : Flags) (n : Nat) (cs : List Char) : Option (Char × List Char) := do
  let (digits, rest) ← hexDigits flags n cs
  return (← Text.charOfHex? digits, rest)

/-- The character that a letter stands for after a backslash. -/
def control? : Char → Option Char
  | 'a' => some '\x07'
  | 'f' => some '\x0c'
  | 'n' => some '\n'
  | 'r' => some '\r'
  | 't' => some '\t'
  | 'v' => some '\x0b'
  | _ => none

/-- A character that stands for itself after a backslash: all of ASCII but letters, digits and
angles. -/
def isEscapable (c : Char) : Bool := isAscii c && !(c.isAlphanum || c = '<' || c = '>')

/-- An escape, and the input after it; its backslash has been read. -/
def escape (flags : Flags) : List Char → Option (Atom × List Char)
  | [] => none
  | 'x' :: rest => (codePoint flags 2 rest).map fun r => (.byte r.1, r.2)
  | 'u' :: rest => (codePoint flags 4 rest).map fun r => (.character r.1, r.2)
  | 'U' :: rest => (codePoint flags 8 rest).map fun r => (.character r.1, r.2)
  | c :: rest =>
    if ['d', 's', 'w'].contains c then some (.shorthand false, rest)
    else if ['D', 'S', 'W'].contains c then some (.shorthand true, rest)
    else if ['b', 'B', '<', '>'].contains c then some (.wordBoundary, rest)
    else if ['A', 'z'].contains c then some (.anchor, rest)
    else if isEscapable c then some (.character c, rest)
    else (control? c).map fun x => (.character x, rest)

/-- An escape or a character that stands for itself, and the input after it. -/
def atom (flags : Flags) : List Char → Option (Atom × List Char)
  | [] => none
  | '\\' :: rest => escape flags rest
  | c :: rest => some (.character c, rest)

/-- The nesting of parts that stand side by side: more than one part is a level of its own. -/
def sideBySide : List Nat → Nat
  | [] => 0
  | [n] => n
  | n :: ns => 1 + ns.foldl max n

end ClusterBroker.LogFilter.Pattern
