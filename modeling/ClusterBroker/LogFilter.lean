import ClusterBroker.LogFilter.Pattern
import ClusterBroker.Text.Bytes

/-!
# Log filters

A log filter is a list of directives separated by commas: a level, or a target with an optional
span, fields of the span in braces, and a level for what matches. Empty pieces are skipped, so
the empty text is a filter without directives.

A directive is read without the blanks around it; the parts it is cut into are taken from the
text with its blanks, by position. Positions count bytes, so blanks in front may shift a cut into
the middle of a character.
-/
namespace ClusterBroker

namespace LogFilter

/-- Why a text is no filter. -/
inductive Fault where
  | malformed
  /-- A part would begin or end inside a character. -/
  | cutCharacter
  deriving DecidableEq, Repr

inductive Level where
  | off | error | warn | info | debug | trace
  deriving DecidableEq, Repr

def Level.name : Level → String
  | .off => "off"
  | .error => "error"
  | .warn => "warn"
  | .info => "info"
  | .debug => "debug"
  | .trace => "trace"

/-- The levels in order of their numbers. -/
def Level.all : List Level := [.off, .error, .warn, .info, .debug, .trace]

/-- The value of decimal digits, with an optional plus sign. -/
def number? (cs : List Char) : Option Nat :=
  let digits := match cs with
    | '+' :: rest => rest
    | _ => cs
  if digits.isEmpty || !digits.all Char.isDigit then none
  else some (digits.foldl (fun n c => n * 10 + (c.toNat - '0'.toNat)) 0)

/-- The level with this number or, in any case, this name. Nothing at all is an error level. -/
def Level.ofText? (cs : List Char) : Option Level :=
  match (number? cs).bind fun n => Level.all[n]? with
  | some l => some l
  | none =>
    if cs.isEmpty then some .error
    else Level.all.find? fun l => l.name.toList = cs.map Char.toLower

/-- A field that a span must have, and the value it must have, if any. -/
structure FieldMatch where
  name : String
  value : Option String
  deriving DecidableEq, Repr

structure Directive where
  level : Level := .trace
  target : Option String := none
  span : Option String := none
  fields : List FieldMatch := []
  deriving DecidableEq, Repr

/-- The part of a directive that is being read, and where it began. -/
inductive Phase where
  | start
  | levelOrTarget (origin : Nat)
  | span (origin : Nat)
  | field (origin : Nat)
  | fields
  | target
  | level (origin : Nat)
  deriving DecidableEq, Repr

/-- A character that a directive may begin with, except for a bracket. -/
def startsTarget (c : Char) : Bool := c = '-' || c = ':' || c = '_' || Text.isAlphanumeric c

/-- The part of a text between two positions. -/
def slice (cs : List Char) (i j : Nat) : Except Fault (List Char) :=
  (Text.slice? i j cs).elim (.error .cutCharacter) .ok

/-- The part of a text from a position on. -/
def suffix (cs : List Char) (i : Nat) : Except Fault (List Char) :=
  (Text.suffix? i cs).elim (.error .cutCharacter) .ok

/-- Whether a word is a number: digits with an optional sign, point and exponent, an infinity, or
what is not a number. -/
def isNumber (cs : List Char) : Bool :=
  let body := match cs with
    | '-' :: rest | '+' :: rest => rest
    | _ => cs
  let front := body.takeWhile Char.isDigit
  let (back, rest) := match body.dropWhile Char.isDigit with
    | '.' :: rest => (rest.takeWhile Char.isDigit, rest.dropWhile Char.isDigit)
    | rest => ([], rest)
  let isExponent : List Char → Bool
    | [] => true
    | 'e' :: e | 'E' :: e =>
      let digits := match e with
        | '-' :: rest | '+' :: rest => rest
        | _ => e
      !digits.isEmpty && digits.all Char.isDigit
    | _ => false
  ["inf", "infinity", "nan"].contains (String.ofList (body.map Char.toLower)) ||
    ((!front.isEmpty || !back.isEmpty) && isExponent rest)

/-- Whether a field may have a value: a number, or a pattern for texts. Truth values are
patterns. -/
def isValue (cs : List Char) : Bool := isNumber cs || Pattern.isPattern cs

/-- Reads a field; nothing at all is no field. A second equals sign ends the value. -/
def FieldMatch.ofText? (cs : List Char) : Option FieldMatch :=
  if cs.isEmpty then none
  else
    let name := String.ofList (cs.takeWhile (· ≠ '='))
    match cs.dropWhile (· ≠ '=') with
    | [] => some { name, value := none }
    | _ :: rest =>
      let value := rest.takeWhile (· ≠ '=')
      if isValue value then some { name, value := some (String.ofList value) } else none

/-- A text, or nothing if it is empty. -/
def nonempty? (cs : List Char) : Option String :=
  if cs.isEmpty then none else some (String.ofList cs)

/-- Reads one more character, at position `i`. -/
def Directive.step (text : List Char) (d : Directive) (i : Nat) (c : Char) :
    Phase → Except Fault (Phase × Directive)
  | .start =>
    if c = '[' then .ok (.span (i + 1), d)
    else if startsTarget c then .ok (.levelOrTarget i, d)
    else .error .malformed
  | .levelOrTarget s =>
    if c = '=' || c = '[' then
      (slice text s i).map fun t =>
        let d := { d with target := some (String.ofList t) }
        (if c = '=' then .level (i + 1) else .span (i + 1), d)
    else .ok (.levelOrTarget s, d)
  | .span s =>
    if c = ']' then
      (slice text s i).map fun t => (.target, { d with span := some (String.ofList t) })
    else if c = '\x7b' then
      (slice text s i).map fun t => (.field (i + 1), { d with span := nonempty? t })
    else .ok (.span s, d)
  | .field s =>
    if c = '\x7d' then
      match slice text s i with
      | .error f => .error f
      | .ok t => match FieldMatch.ofText? t with
        | some f => .ok (.fields, { d with fields := d.fields ++ [f] })
        | none => .error .malformed
    else .ok (.field s, d)
  | .fields => if c = ']' then .ok (.target, d) else .error .malformed
  | .target => if c = '=' then .ok (.level (i + 1), d) else .error .malformed
  | .level s => .ok (.level s, d)

/-- What has been read at the end of the text. -/
def Directive.finish (text : List Char) (d : Directive) : Phase → Except Fault Directive
  | .levelOrTarget s =>
    (suffix text s).map fun rest =>
      match Level.ofText? rest with
      | some l => { d with level := if rest.isEmpty then .trace else l, target := none }
      | none => { d with level := .trace, target := some (String.ofList rest) }
  | .level s =>
    match suffix text s with
    | .error f => .error f
    | .ok [] => .ok { d with level := .trace }
    | .ok rest => match Level.ofText? rest with
      | some l => .ok { d with level := l }
      | none => .error .malformed
  | .target => .ok d
  | _ => .error .malformed

/-- Reads on from position `i`. -/
def Directive.readFrom (text : List Char) (d : Directive) (p : Phase) (i : Nat) :
    List Char → Except Fault Directive
  | [] => d.finish text p
  | c :: rest =>
    match d.step text i c p with
    | .error f => .error f
    | .ok (p, d) => readFrom text d p (i + c.utf8Size) rest

def Directive.parse (text : List Char) : Except Fault Directive :=
  Directive.readFrom text {} .start 0 (Text.trim text)

end LogFilter

/-- The directives of a filter. -/
structure LogFilter where
  directives : List LogFilter.Directive
  deriving DecidableEq, Repr

/-- Reads a filter. The first directive that cannot be read spoils it. -/
def LogFilter.parse (text : String) : Except LogFilter.Fault LogFilter :=
  let pieces := (text.toList.splitOn ',').filter fun cs => !cs.isEmpty
  (pieces.mapM LogFilter.Directive.parse).map LogFilter.mk

end ClusterBroker
