import FilterSql.Number.Binary
import FilterSql.Text.Replace
/-!
# Reading numerals

A decimal numeral is an optional sign, digits with at most one point among or around them, and an
optional exponent; the words for infinity and for no number are read in any mixture of cases.
Whole numerals are a sign and digits alone.
-/
namespace FilterSql

def digitsValue (s : List Char) : Nat := s.foldl (fun n c => 10 * n + (c.toNat - '0'.toNat)) 0

def takeSign : List Char → Bool × List Char
  | '-' :: s => (true, s)
  | '+' :: s => (false, s)
  | s => (false, s)

/-- A sign and at least one digit, and nothing else. -/
def readWhole? (s : List Char) : Option Int :=
  let (negative, digits) := takeSign s
  if digits.isEmpty || !digits.all Char.isDigit then none
  else some (if negative then -(digitsValue digits : Int) else digitsValue digits)

def readExponent? : List Char → Option Int
  | [] => some 0
  | c :: s => if c = 'e' || c = 'E' then readWhole? s else none

def Binary.read? (format : BinaryFormat) (s : List Char) : Option Binary :=
  let (negative, s) := takeSign s
  if Text.sameLetters s "nan".toList then some .nan
  else if Text.sameLetters s "inf".toList || Text.sameLetters s "infinity".toList then
    some (.infinity negative)
  else
    let whole := s.takeWhile Char.isDigit
    let rest := s.dropWhile Char.isDigit
    let (fraction, rest) := match rest with
      | '.' :: r => (r.takeWhile Char.isDigit, r.dropWhile Char.isDigit)
      | r => ([], r)
    if whole.isEmpty && fraction.isEmpty then none
    else (readExponent? rest).map fun e =>
      (Binary.ofDecimal format negative (digitsValue (whole ++ fraction))
        (e - fraction.length)).widen

end FilterSql
