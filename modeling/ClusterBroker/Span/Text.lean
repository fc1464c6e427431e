import ClusterBroker.Text.Blank
import ClusterBroker.Time

/-!
# Spans as text

A span is written as a sum of amounts with units, largest unit first: `1h 30m`, `2years 3days`,
`1s 500ms`. A year is 365.25 days and a month 30.44 days. Reading takes any sequence of amounts,
with several spellings of each unit, blanks between digits, and a decimal fraction as long as
the result is a whole number of nanoseconds (of seconds, for units from the hour up).

Offsets in faults count the bytes of the text's UTF-8 form.
-/
namespace ClusterBroker.Span

/-! ### Units -/

/-- The units in which spans are written. -/
inductive SpanUnit where
  | nanosecond | microsecond | millisecond | second | minute | hour | day | week | month | year
  deriving DecidableEq, Repr

/-- The spellings of a unit that reading accepts. -/
def SpanUnit.spellings : SpanUnit → List String
  | .nanosecond => ["nanos", "nsec", "ns"]
  | .microsecond => ["usec", "us", "µs"]
  | .millisecond => ["millis", "msec", "ms"]
  | .second => ["seconds", "second", "secs", "sec", "s"]
  | .minute => ["minutes", "minute", "min", "mins", "m"]
  | .hour => ["hours", "hour", "hr", "hrs", "h"]
  | .day => ["days", "day", "d"]
  | .week => ["weeks", "week", "wk", "wks", "w"]
  | .month => ["months", "month", "M"]
  | .year => ["years", "year", "yr", "yrs", "y"]

def SpanUnit.all : List SpanUnit :=
  [.nanosecond, .microsecond, .millisecond, .second, .minute, .hour, .day, .week, .month, .year]

/-- The unit with this spelling. -/
def SpanUnit.ofSpelling? (s : String) : Option SpanUnit :=
  SpanUnit.all.find? fun u => u.spellings.contains s

/-- How much one of a unit is: seconds and nanoseconds, one of them zero. -/
def SpanUnit.size : SpanUnit → Nat × Nat
  | .nanosecond => (0, 1)
  | .microsecond => (0, 1000)
  | .millisecond => (0, 1000000)
  | .second => (1, 0)
  | .minute => (60, 0)
  | .hour => (3600, 0)
  | .day => (86400, 0)
  | .week => (604800, 0)
  | .month => (2630016, 0)
  | .year => (31557600, 0)

/-- The grain of a fraction: a fraction of a unit counts as so many seconds or nanoseconds.
There is no fraction of a nanosecond. -/
def SpanUnit.fractionSize : SpanUnit → Option (Nat × Nat)
  | .nanosecond => none
  | .second => some (0, 1000000000)
  | .minute => some (0, 60000000000)
  | u => some u.size

/-! ### Writing -/

/-- One amount, with a plural `s` if the unit takes one; nothing if it is zero. -/
def amount (n : Nat) (unit : String) (plural : Bool) : List String :=
  if n = 0 then [] else [toString n ++ unit ++ (if plural && n > 1 then "s" else "")]

/-- The amounts of a span, largest unit first. -/
def amounts (d : Span) : List String :=
  let secs := d.nanos / 1000000000
  let nanos := d.nanos % 1000000000
  let inYear := secs % 31557600
  let inMonth := inYear % 2630016
  let inDay := inMonth % 86400
  amount (secs / 31557600) "year" true ++ amount (inYear / 2630016) "month" true ++
    amount (inMonth / 86400) "day" true ++ amount (inDay / 3600) "h" false ++
    amount (inDay % 3600 / 60) "m" false ++ amount (inDay % 60) "s" false ++
    amount (nanos / 1000000) "ms" false ++ amount (nanos / 1000 % 1000) "us" false ++
    amount (nanos % 1000) "ns" false

/-- The written form of a span. -/
def toText (d : Span) : String :=
  match amounts d with
  | [] => "0s"
  | parts => String.intercalate " " parts

instance : ToString Span := ⟨toText⟩

/-! ### Reading -/

/-- Why a text is no span. -/
inductive Fault where
  | badCharacter (offset : Nat)
  | numberExpected (offset : Nat)
  | unitNeeded (value : Nat)
  | unknownUnit (unit : String)
  | overflow
  | blank
  /-- The last carry into the seconds does not fit: reading breaks off. -/
  | carry
  deriving DecidableEq, Repr

def Fault.message : Fault → String
  | .badCharacter offset => "invalid character at " ++ toString offset
  | .numberExpected offset => "expected number at " ++ toString offset
  | .unitNeeded value =>
    "time unit needed, for example " ++ toString value ++ "sec or " ++ toString value ++ "ms"
  | .unknownUnit unit =>
    "unknown time unit \"" ++ unit ++ "\", supported units: ns, us/µs, ms, sec, min, hours, " ++
      "days, weeks, months, years (and few variations)"
  | .overflow => "number is too large or cannot be represented without a lack of precision " ++
      "(values below 1ns are not supported)"
  | .blank => "value was empty"
  | .carry => "overflow in the sum of seconds"

/-- A character of a unit's spelling. -/
def isUnitChar (c : Char) : Bool := c.isAlpha || c = 'µ'

def digitValue (c : Char) : Nat := c.toNat - '0'.toNat

/-- A result that fits in 64 bits. -/
def word (n : Nat) : Except Fault Nat := if n < wordRange then .ok n else .error .overflow

/-- A quotient without remainder. -/
def exactly (n d : Nat) : Except Fault Nat := if n % d = 0 then .ok (n / d) else .error .overflow

/-- A decimal fraction: `numerator / denominator`. -/
structure Fraction where
  numerator : Nat
  denominator : Nat
  deriving DecidableEq, Repr

/-- A sum in the making: whole seconds and nanoseconds. -/
structure Sum where
  secs : Nat := 0
  nanos : Nat := 0
  deriving DecidableEq, Repr

/-- Adds seconds and nanoseconds; more than a second of nanoseconds is carried. -/
def Sum.add (s : Sum) (secs nanos : Nat) : Except Fault Sum := do
  let nanos ← word (s.nanos + nanos)
  if nanos > 1000000000 then
    let secs ← word (secs + nanos / 1000000000)
    return ⟨← word (s.secs + secs), nanos % 1000000000⟩
  else
    let secs ← word (s.secs + secs)
    if nanos < 1000000000 then return ⟨secs, nanos⟩
    else if secs + 1 < wordRange then return ⟨secs + 1, 0⟩
    else .error .carry

/-- Adds `n` and a fraction of the unit spelled `unit`. -/
def Sum.addAmount (s : Sum) (n : Nat) (fraction : Option Fraction) (unit : String) :
    Except Fault Sum := do
  match SpanUnit.ofSpelling? unit with
  | none => .error (if unit.isEmpty then .unitNeeded n else .unknownUnit unit)
  | some u =>
    let s ← s.add (← word (n * u.size.1)) (← word (n * u.size.2))
    match fraction with
    | none => return s
    | some f =>
      match u.fractionSize with
      | none => .error .overflow
      | some (secs, nanos) =>
        s.add (← exactly (← word (f.numerator * secs)) f.denominator)
          (← exactly (← word (f.numerator * nanos)) f.denominator)

/-- Where reading stands. -/
inductive Phase where
  /-- Before a number; the fault offset is where the search began. -/
  | start (offset : Nat)
  /-- In the digits of a number. -/
  | digits (n : Nat)
  /-- In the decimals of a number; offset of the last character that belongs to it. -/
  | decimals (n : Nat) (f : Fraction) (offset : Nat)
  /-- In a unit. -/
  | unit (n : Nat) (f : Option Fraction) (spelling : List Char)
  deriving Repr

/-- Reads on from a phase at a byte offset. `read` tells whether an amount was read before. -/
def readFrom (read : Bool) (sum : Sum) : Phase → Nat → List Char → Except Fault Sum
  | .start _, _, [] => if read then .ok sum else .error .blank
  | .start o, pos, c :: rest =>
    if c.isDigit then readFrom read sum (.digits (digitValue c)) (pos + c.utf8Size) rest
    else if Text.isBlank c then readFrom read sum (.start o) (pos + c.utf8Size) rest
    else .error (.numberExpected o)
  | .digits n, _, [] => sum.addAmount n none ""
  | .digits n, pos, c :: rest =>
    if c.isDigit then do
      let n ← word (n * 10 + digitValue c)
      readFrom read sum (.digits n) (pos + c.utf8Size) rest
    else if Text.isBlank c then readFrom read sum (.digits n) (pos + c.utf8Size) rest
    else if isUnitChar c then readFrom read sum (.unit n none [c]) (pos + c.utf8Size) rest
    else if c = '.' then readFrom read sum (.decimals n ⟨0, 1⟩ pos) (pos + c.utf8Size) rest
    else .error (.badCharacter pos)
  | .decimals n f o, _, [] =>
    if f.denominator = 1 then .error (.badCharacter o) else sum.addAmount n (some f) ""
  | .decimals n f o, pos, c :: rest =>
    if c.isDigit then do
      let denominator ← word (f.denominator * 10)
      let numerator ← word (f.numerator * 10 + digitValue c)
      readFrom read sum (.decimals n ⟨numerator, denominator⟩ (pos + c.utf8Size))
        (pos + c.utf8Size) rest
    else if Text.isBlank c then
      readFrom read sum (.decimals n f (pos + c.utf8Size)) (pos + c.utf8Size) rest
    else if isUnitChar c then
      if f.denominator = 1 then .error (.badCharacter o)
      else readFrom read sum (.unit n (some f) [c]) (pos + c.utf8Size) rest
    else .error (.badCharacter o)
  | .unit n f u, _, [] => sum.addAmount n f (String.ofList u)
  | .unit n f u, pos, c :: rest =>
    if c.isDigit then do
      let sum ← sum.addAmount n f (String.ofList u)
      readFrom true sum (.digits (digitValue c)) (pos + c.utf8Size) rest
    else if Text.isBlank c then do
      let sum ← sum.addAmount n f (String.ofList u)
      readFrom true sum (.start (pos + c.utf8Size)) (pos + c.utf8Size) rest
    else if isUnitChar c then readFrom read sum (.unit n f (u ++ [c])) (pos + c.utf8Size) rest
    else .error (.badCharacter pos)

/-- Reads a span. A lone `0` needs no unit. -/
def parse (text : String) : Except Fault Span :=
  if text = "0" then .ok zero
  else (readFrom false {} (.start 0) 0 text.toList).map fun s =>
    ofNanos (s.secs * 1000000000 + s.nanos)

end ClusterBroker.Span
