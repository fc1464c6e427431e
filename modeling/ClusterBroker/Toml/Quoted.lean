import ClusterBroker.Text.Escape

/-!
# Quoted texts of TOML

Four kinds of quotes: one or three double quotes around a text with escapes, one or three single
quotes around a text without. Texts in triple quotes may run over several lines. Every function
begins after the opening quote and returns the text and what follows the closing one.
-/
namespace ClusterBroker.Toml

open Text (isText charOfHex? escape?)

/-- A text and the rest of the input, unless something is wrong. -/
abbrev Scan (α : Type) := Option (α × List Char)

/-- Puts a character in front of what is scanned. -/
def Scan.push (c : Char) (s : Scan (List Char)) : Scan (List Char) := s.map fun r => (c :: r.1, r.2)

/-- Blanks within a line. -/
def isSpace (c : Char) : Bool := c = ' ' || c = '\t'

/-- Text between double quotes. -/
def basic : List Char → Scan (List Char)
  | '"' :: rest => some ([], rest)
  | '\\' :: 'u' :: a :: b :: c :: d :: rest =>
    (charOfHex? [a, b, c, d]).bind fun x => Scan.push x (basic rest)
  | '\\' :: 'U' :: a :: b :: c :: d :: e :: f :: g :: h :: rest =>
    (charOfHex? [a, b, c, d, e, f, g, h]).bind fun x => Scan.push x (basic rest)
  | '\\' :: c :: rest => (escape? c).bind fun x => Scan.push x (basic rest)
  | c :: rest => if isText c && c ≠ '\\' then Scan.push c (basic rest) else none
  | [] => none

/-- Text between single quotes. -/
def literal : List Char → Scan (List Char)
  | '\'' :: rest => some ([], rest)
  | c :: rest => if isText c then Scan.push c (literal rest) else none
  | [] => none

/-- Whether nothing but blanks stands before the end of the line. -/
def endsLine (cs : List Char) : Bool :=
  match cs.dropWhile isSpace with
  | '\n' :: _ | '\r' :: '\n' :: _ => true
  | _ => false

/-- The text without a line end at its beginning. -/
def afterLineEnd : List Char → List Char
  | '\n' :: rest | '\r' :: '\n' :: rest => rest
  | cs => cs

/-- Text between triple double quotes. After a backslash at the end of a line (`skipping`), line
ends and blanks are left out up to the next character. Up to two quotes may stand before the
closing three. -/
def basicLines (skipping : Bool) : List Char → Scan (List Char)
  | '"' :: '"' :: '"' :: '"' :: '"' :: rest => some (['"', '"'], rest)
  | '"' :: '"' :: '"' :: '"' :: rest => some (['"'], rest)
  | '"' :: '"' :: '"' :: rest => some ([], rest)
  | '\r' :: '\n' :: rest =>
    if skipping then basicLines true rest else Scan.push '\n' (basicLines false rest)
  | '\n' :: rest =>
    if skipping then basicLines true rest else Scan.push '\n' (basicLines false rest)
  | '\\' :: 'u' :: a :: b :: c :: d :: rest =>
    (charOfHex? [a, b, c, d]).bind fun x => Scan.push x (basicLines false rest)
  | '\\' :: 'U' :: a :: b :: c :: d :: e :: f :: g :: h :: rest =>
    (charOfHex? [a, b, c, d, e, f, g, h]).bind fun x => Scan.push x (basicLines false rest)
  | '\\' :: c :: rest =>
    if endsLine (c :: rest) then basicLines true (c :: rest)
    else (escape? c).bind fun x => Scan.push x (basicLines false rest)
  | c :: rest =>
    if skipping && isSpace c then basicLines true rest
    else if isText c && c ≠ '\\' then Scan.push c (basicLines false rest)
    else none
  | [] => none

/-- Text between triple single quotes. -/
def literalLines : List Char → Scan (List Char)
  | '\'' :: '\'' :: '\'' :: '\'' :: '\'' :: rest => some (['\'', '\''], rest)
  | '\'' :: '\'' :: '\'' :: '\'' :: rest => some (['\''], rest)
  | '\'' :: '\'' :: '\'' :: rest => some ([], rest)
  | '\r' :: '\n' :: rest => Scan.push '\n' (literalLines rest)
  | '\n' :: rest => Scan.push '\n' (literalLines rest)
  | c :: rest => if isText c then Scan.push c (literalLines rest) else none
  | [] => none

/-- A text in any of the four kinds of quotes; nothing if there is no quote. -/
def quoted? : List Char → Option (Scan (List Char))
  | '"' :: '"' :: '"' :: rest => some (basicLines false (afterLineEnd rest))
  | '"' :: rest => some (basic rest)
  | '\'' :: '\'' :: '\'' :: rest => some (literalLines (afterLineEnd rest))
  | '\'' :: rest => some (literal rest)
  | _ => none

end ClusterBroker.Toml
