import FilterSql.Json.Numeral
/-!
# Lexemes of JSON texts

A JSON text is cut into brackets, separators, words, numerals and quoted texts. Quoted texts keep
their `\u` escapes as 16-bit units: whether the units form characters is asked only when the text
is read.
-/
namespace FilterSql

/-- A character of a quoted text, or a 16-bit unit from an escape. -/
inductive QuotedPiece where
  | char (c : Char)
  | unit (n : Nat)
  deriving DecidableEq, Repr

abbrev Quoted := List QuotedPiece

inductive JsonLexeme where
  | openList
  | closeList
  | openRecord
  | closeRecord
  | comma
  | colon
  | null
  | flag (b : Bool)
  | numeral (n : JsonNumeral)
  | quoted (q : Quoted)
  deriving Repr

def hexDigit? (c : Char) : Option Nat :=
  if c.isDigit then some (c.toNat - '0'.toNat)
  else if 'a' ≤ c ∧ c ≤ 'f' then some (c.toNat - 'a'.toNat + 10)
  else if 'A' ≤ c ∧ c ≤ 'F' then some (c.toNat - 'A'.toNat + 10)
  else none

def hexValue? (s : List Char) : Option Nat :=
  s.foldl (fun n c => do return 16 * (← n) + (← hexDigit? c)) (some 0)

def escaped? : Char → Option Char
  | '"' => some '"'
  | '\\' => some '\\'
  | '/' => some '/'
  | 'b' => some '\x08'
  | 'f' => some '\x0c'
  | 'n' => some '\n'
  | 'r' => some '\r'
  | 't' => some '\t'
  | _ => none

def scanQuoted? : List Char → Option (Quoted × List Char)
  | '"' :: s => some ([], s)
  | '\\' :: 'u' :: a :: b :: c :: d :: s => do
    let n ← hexValue? [a, b, c, d]
    let (q, r) ← scanQuoted? s
    some (.unit n :: q, r)
  | '\\' :: c :: s => do
    let c ← escaped? c
    let (q, r) ← scanQuoted? s
    some (.char c :: q, r)
  | c :: s =>
    if c.toNat < 0x20 then none
    else do
      let (q, r) ← scanQuoted? s
      some (.char c :: q, r)
  | [] => none

/-- The characters of a quoted text. Two units that form a surrogate pair are one character; a
unit of a pair that stands alone is refused. -/
def Quoted.chars? : Quoted → Option (List Char)
  | [] => some []
  | .char c :: q => (chars? q).map (c :: ·)
  | .unit n :: q =>
    if 0xd800 ≤ n ∧ n < 0xdc00 then
      match q with
      | .unit m :: q =>
        if 0xdc00 ≤ m ∧ m < 0xe000 then
          (chars? q).map (Char.ofNat (0x10000 + (n - 0xd800) * 0x400 + (m - 0xdc00)) :: ·)
        else none
      | _ => none
    else if 0xdc00 ≤ n ∧ n < 0xe000 then none
    else (chars? q).map (Char.ofNat n :: ·)

def Quoted.text? (q : Quoted) : Option String := q.chars?.map String.ofList

namespace JsonLexeme

def isSpace (c : Char) : Bool := c == ' ' || c == '\t' || c == '\n' || c == '\r'

def scan? : List Char → Option (JsonLexeme × List Char)
  | '[' :: s => some (openList, s)
  | ']' :: s => some (closeList, s)
  | '{' :: s => some (openRecord, s)
  | '}' :: s => some (closeRecord, s)
  | ',' :: s => some (comma, s)
  | ':' :: s => some (colon, s)
  | '"' :: s => (scanQuoted? s).map fun r => (quoted r.1, r.2)
  | 'n' :: 'u' :: 'l' :: 'l' :: s => some (null, s)
  | 't' :: 'r' :: 'u' :: 'e' :: s => some (flag true, s)
  | 'f' :: 'a' :: 'l' :: 's' :: 'e' :: s => some (flag false, s)
  | s => (JsonNumeral.scan? s).map fun r => (numeral r.1, r.2)

def scanAll? (found : List JsonLexeme) (s : List Char) : Option (List JsonLexeme) :=
  let s' := s.dropWhile isSpace
  if s'.isEmpty then some found
  else
    match scan? s' with
    | some (l, rest) => if rest.length < s.length then scanAll? (l :: found) rest else none
    | none => none
termination_by s.length

end JsonLexeme

def jsonLexemes? (s : List Char) : Option (List JsonLexeme) :=
  (JsonLexeme.scanAll? [] s).map List.reverse

end FilterSql
