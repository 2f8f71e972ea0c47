import FilterSql.Json.Basic
import FilterSql.Number.Numeral
import FilterSql.Number.Word
/-!
# JSON numerals

A numeral has a sign, whole digits, perhaps digits behind a point and perhaps an exponent. Without
point and exponent it denotes a whole number as long as 64 bits hold it. Otherwise the leading
digits that fit into 64 bits are read exactly and then scaled by powers of ten, each step rounded
once.
-/
namespace FilterSql

/-- The parts of a numeral as they are written; `fraction` and `exponent` are empty if absent. -/
structure JsonNumeral where
  negative : Bool
  whole : List Char
  fraction : List Char
  exponentNegative : Bool
  exponent : List Char
  deriving Repr

namespace JsonNumeral

def takeDigits? (s : List Char) : Option (List Char × List Char) :=
  let digits := s.takeWhile Char.isDigit
  if digits.isEmpty then none else some (digits, s.dropWhile Char.isDigit)

def scanWhole? : List Char → Option (List Char × List Char)
  | '0' :: c :: s => if c.isDigit then none else some (['0'], c :: s)
  | s => takeDigits? s

def scanFraction? : List Char → Option (List Char × List Char)
  | '.' :: s => takeDigits? s
  | s => some ([], s)

def scanExponent? : List Char → Option (Bool × List Char × List Char)
  | c :: s =>
    if c = 'e' || c = 'E' then
      let (negative, s) := takeSign s
      (takeDigits? s).map fun r => (negative, r.1, r.2)
    else some (false, [], c :: s)
  | [] => some (false, [], [])

def scan? (s : List Char) : Option (JsonNumeral × List Char) := do
  let (negative, s) := match s with
    | '-' :: s => (true, s)
    | s => (false, s)
  let (whole, s) ← scanWhole? s
  let (fraction, s) ← scanFraction? s
  let (exponentNegative, exponent, s) ← scanExponent? s
  some (⟨negative, whole, fraction, exponentNegative, exponent⟩, s)

/-- Append digits to a significand while 64 bits hold it; the digits that are left over follow. -/
def absorb (significand : Nat) : List Char → Nat × List Char
  | [] => (significand, [])
  | c :: s =>
    let next := 10 * significand + (c.toNat - '0'.toNat)
    if next < wordBound 64 then absorb next s else (significand, c :: s)

def greatestPower : Nat := 308

/-- Scale by a power of ten, in several steps if the power is too small for the format. A result
beyond the format's range is refused. -/
def scale? (x : Binary) (exponent : Int) : Option Binary :=
  if small : exponent.natAbs ≤ greatestPower then
    if 0 ≤ exponent then
      let y := x.mul (.powerOfTen exponent.toNat)
      if y.isInfinite then none else some y
    else some (x.div (.powerOfTen exponent.natAbs))
  else if x.isZero then some x
  else if large : 0 ≤ exponent then none
  else
    have : (exponent + greatestPower).natAbs < exponent.natAbs := by
      simp only [greatestPower] at *; omega
    scale? (x.div (.powerOfTen greatestPower)) (exponent + greatestPower)
termination_by exponent.natAbs

def scaleWritten? (n : JsonNumeral) (x : Binary) (start : Int) : Option Binary :=
  let e := digitsValue n.exponent
  if e < wordBound 31 then scale? x (if n.exponentNegative then start - e else start + e)
  else if x.isZero || n.exponentNegative then some (.zero false)
  else none

def value? (n : JsonNumeral) : Option Json :=
  let (significand, excess) := absorb 0 n.whole
  if n.fraction.isEmpty && n.exponent.isEmpty && excess.isEmpty
      && (!n.negative || (significand != 0 && significand ≤ wordBound 63)) then
    some (.whole (if n.negative then -(significand : Int) else significand))
  else
    let (significand, unused) := absorb significand n.fraction
    let start : Int := excess.length - (n.fraction.length - unused.length : Nat)
    (n.scaleWritten? (.ofNat significand) start).map fun x =>
      .number (if n.negative then x.neg else x)

end JsonNumeral
end FilterSql
