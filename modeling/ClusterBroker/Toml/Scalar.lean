import ClusterBroker.Value

/-!
# Numbers, truth values and dates of TOML

A scalar is a word of letters, digits and a few signs. Whole numbers have 64 bits; underscores
may stand between digits. A date is kept as its text in an object of its own under a reserved
name, which faults may name, since no option is a date.
-/
namespace ClusterBroker.Toml

/-- Decimal digits, each but the first with an optional underscore before it. -/
def digits? (isDigit : Char → Bool) : List Char → Option (List Char)
  | [] => none
  | c :: rest => if isDigit c then (more rest).map (c :: ·) else none
where
  more : List Char → Option (List Char)
    | [] => some []
    | '_' :: c :: rest => if isDigit c then (more rest).map (c :: ·) else none
    | c :: rest => if isDigit c then (more rest).map (c :: ·) else none

/-- The value of digits in a base. -/
def valueIn (base : Nat) (cs : List Char) : Nat :=
  cs.foldl (fun n c =>
    n * base + (if c.isDigit then c.toNat - '0'.toNat else c.toLower.toNat - 'a'.toNat + 10)) 0

def isHex (c : Char) : Bool := c.isDigit || ('a' ≤ c.toLower && c.toLower ≤ 'f')

def isOctal (c : Char) : Bool := '0' ≤ c && c ≤ '7'

def isBinary (c : Char) : Bool := c = '0' || c = '1'

/-- A whole number of 64 bits. -/
def bounded (n : Int) : Option Value :=
  if -0x8000000000000000 ≤ n ∧ n < 0x8000000000000000 then some (.int n) else none

/-- A word without its sign, and whether the sign is a minus. -/
def unsigned : List Char → Bool × List Char
  | '-' :: cs => (true, cs)
  | '+' :: cs => (false, cs)
  | cs => (false, cs)

/-- Decimal digits without a leading zero. -/
def plainDigits? (cs : List Char) : Option (List Char) :=
  match cs with
  | ['0'] => some cs
  | '0' :: _ => none
  | _ => digits? Char.isDigit cs

def integer? (cs : List Char) : Option Value :=
  match cs with
  | '0' :: 'x' :: ds => (digits? isHex ds).bind fun ds => bounded (valueIn 16 ds)
  | '0' :: 'o' :: ds => (digits? isOctal ds).bind fun ds => bounded (valueIn 8 ds)
  | '0' :: 'b' :: ds => (digits? isBinary ds).bind fun ds => bounded (valueIn 2 ds)
  | _ =>
    let u := unsigned cs
    (plainDigits? u.2).bind fun ds =>
      bounded (if u.1 then -(valueIn 10 ds : Int) else valueIn 10 ds)

/-- Whether an exponent follows, or nothing. -/
def isExponent : List Char → Bool
  | [] => true
  | c :: ds => (c = 'e' || c = 'E') && (digits? Char.isDigit (unsigned ds).2).isSome

def isMark (c : Char) : Bool := c = '.' || c = 'e' || c = 'E'

/-- A decimal number without its sign: digits before and after the point, and an exponent. -/
structure Decimal where
  whole : List Char
  fraction : List Char
  exponent : Int
  deriving DecidableEq, Repr

namespace Decimal

/-- The parts of a word, whether it is a number or not. -/
def ofWord (cs : List Char) : Decimal :=
  let isDigit (c : Char) : Bool := c.isDigit
  let rest := cs.dropWhile (!isMark ·)
  let e := unsigned ((rest.dropWhile fun c => c ≠ 'e' && c ≠ 'E').drop 1)
  let n : Int := valueIn 10 (e.2.filter isDigit)
  { whole := (cs.takeWhile (!isMark ·)).filter isDigit
    fraction := match rest with
      | '.' :: rest => (rest.takeWhile (!isMark ·)).filter isDigit
      | _ => []
    exponent := if e.1 then -n else n }

/-- The digits of the number as one whole number. -/
def digits (d : Decimal) : Nat := valueIn 10 (d.whole ++ d.fraction)

/-- The power of ten that the digits count. -/
def scale (d : Decimal) : Int := d.exponent - d.fraction.length

/-- What is rounded beyond the largest number of 64 bits: this and everything above it. -/
def limit : Nat := (0x40000000000000 - 1) * Nat.pow 2 970

/-- Whether the number is too large for 64 bits. Below 10 to the 300th power and above its 400th
the power is enough to tell. -/
def overflows (d : Decimal) : Bool :=
  let top : Int := (Nat.toDigits 10 d.digits).length + d.scale
  if d.digits = 0 || top < 300 then false
  else if 400 < top then true
  else limit * Nat.pow 10 (-d.scale).toNat ≤ d.digits * Nat.pow 10 d.scale.toNat

end Decimal

/-- A number with a point or an exponent, an infinity, or what is not a number. A number may be
too large only below zero. -/
def float? (cs : List Char) : Option Value :=
  let u := unsigned cs
  let body := u.2
  let isNumber := (plainDigits? (body.takeWhile (!isMark ·))).isSome &&
    match body.dropWhile (!isMark ·) with
    | [] => false
    | '.' :: rest =>
      (digits? Char.isDigit (rest.takeWhile (!isMark ·))).isSome &&
        isExponent (rest.dropWhile (!isMark ·))
    | rest => isExponent rest
  if body = "inf".toList || body = "nan".toList ||
      (isNumber && (u.1 || !(Decimal.ofWord body).overflows)) then
    some (.float (String.ofList cs))
  else none

/-! ### Dates -/

/-- Exactly `n` digits at the beginning, and what follows. -/
def fixedDigits (n : Nat) (cs : List Char) : Option (Nat × List Char) :=
  let ds := cs.take n
  if ds.length = n && ds.all Char.isDigit then some (valueIn 10 ds, cs.drop n) else none

/-- The text after a character that has to be there. -/
def expect (c : Char) : List Char → Option (List Char)
  | [] => none
  | d :: rest => if d = c then some rest else none

def daysIn (year month : Nat) : Nat :=
  match month with
  | 2 => if year % 4 = 0 && (year % 100 ≠ 0 || year % 400 = 0) then 29 else 28
  | 4 | 6 | 9 | 11 => 30
  | _ => 31

/-- The text after a date. -/
def afterDate (cs : List Char) : Option (List Char) := do
  let (year, cs) ← fixedDigits 4 cs
  let (month, cs) ← fixedDigits 2 (← expect '-' cs)
  let (day, cs) ← fixedDigits 2 (← expect '-' cs)
  if 1 ≤ month && month ≤ 12 && 1 ≤ day && day ≤ daysIn year month then some cs else none

/-- The text after hours, minutes, seconds and an optional fraction. -/
def afterTime (cs : List Char) : Option (List Char) := do
  let (hour, cs) ← fixedDigits 2 cs
  let (minute, cs) ← fixedDigits 2 (← expect ':' cs)
  let (second, cs) ← fixedDigits 2 (← expect ':' cs)
  if hour ≤ 23 && minute ≤ 59 && second ≤ 60 then
    match cs with
    | '.' :: rest =>
      if (rest.takeWhile Char.isDigit).isEmpty then none else some (rest.dropWhile Char.isDigit)
    | _ => some cs
  else none

/-- Whether an offset from universal time follows, or nothing. -/
def isOffset (cs : List Char) : Bool :=
  match cs with
  | [] | ['Z'] | ['z'] => true
  | c :: rest =>
    let good := do
      let (hour, cs) ← fixedDigits 2 rest
      let (minute, cs) ← fixedDigits 2 (← expect ':' cs)
      if hour ≤ 23 && minute ≤ 59 && cs.isEmpty then some () else none
    (c = '+' || c = '-') && good.isSome

/-- A date with or without a time of day, or a time of day. -/
def isDate (cs : List Char) : Bool :=
  match afterDate cs with
  | some [] => true
  | some (c :: rest) =>
    (c = 'T' || c = 't' || c = ' ') && ((afterTime rest).map isOffset).getD false
  | none => afterTime cs = some []

/-- The name of the only field of an object that stands for a date. -/
def dateField : String := "$__toml_private_datetime"

def date? (cs : List Char) : Option Value :=
  if isDate cs then some (.object [(dateField, .string (String.ofList cs))]) else none

/-! ### Words -/

def isWordChar (c : Char) : Bool :=
  c.isAlphanum || c = '+' || c = '-' || c = '_' || c = '.' || c = ':'

/-- The value of a word. -/
def wordValue? (cs : List Char) : Option Value :=
  if cs = "true".toList then some (.bool true)
  else if cs = "false".toList then some (.bool false)
  else integer? cs <|> float? cs <|> date? cs

/-- A scalar and what follows it. A blank may stand between a date and a time of day. -/
def scalar (cs : List Char) : Option (Value × List Char) :=
  let word := cs.takeWhile isWordChar
  let rest := cs.dropWhile isWordChar
  match afterDate word, rest with
  | some [], ' ' :: more =>
    let time := more.takeWhile isWordChar
    if (afterTime time).isSome then
      (wordValue? (word ++ ' ' :: time)).map (·, more.dropWhile isWordChar)
    else (wordValue? word).map (·, rest)
  | _, _ => (wordValue? word).map (·, rest)

end ClusterBroker.Toml
