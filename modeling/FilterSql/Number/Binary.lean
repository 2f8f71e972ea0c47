/-!
# Binary floating-point numbers

A finite number is a sign, a mantissa and an exponent of two. Every operation computes the exact
quotient of two natural numbers and rounds it once: to the nearest number of the format, a tie to
the even mantissa.
-/
namespace FilterSql

/-- A binary format: how many bits a mantissa has, and the exponents of the units in the last
place of its smallest and of its largest numbers. -/
structure BinaryFormat where
  precision : Nat
  lowest : Int
  highest : Int

def BinaryFormat.double : BinaryFormat := ⟨53, -1074, 971⟩

def BinaryFormat.single : BinaryFormat := ⟨24, -149, 104⟩

/-- A number of the 64-bit format. Operations give the mantissa of a finite number its full
precision unless the exponent is the lowest one, so each number has one form; the two zeros have
mantissa zero. -/
inductive Binary where
  | nan
  | infinity (negative : Bool)
  | finite (negative : Bool) (mantissa : Nat) (exponent : Int)
  deriving DecidableEq, Repr

def scaleByTwo (n d : Nat) (e : Int) : Nat × Nat :=
  if 0 ≤ e then (n * Nat.pow 2 e.toNat, d) else (n, d * Nat.pow 2 (-e).toNat)

def scaleByTen (n d : Nat) (e : Int) : Nat × Nat :=
  if 0 ≤ e then (n * Nat.pow 10 e.toNat, d) else (n, d * Nat.pow 10 (-e).toNat)

def roundQuotient (n d : Nat) : Nat :=
  let q := n / d
  let r := n % d
  if 2 * r < d ∨ (2 * r = d ∧ q % 2 = 0) then q else q + 1

def quotientLog (n d : Nat) : Int :=
  let l : Int := (n.log2 : Int) - d.log2
  let (n', d') := scaleByTwo n d (-l)
  if d' ≤ n' then l else l - 1

namespace Binary

def zero (negative : Bool) : Binary := finite negative 0 BinaryFormat.double.lowest

/-- The number of the format that is nearest to `n / d`; too large a quotient gives infinity. -/
def ofQuotient (format : BinaryFormat) (negative : Bool) (n d : Nat) : Binary :=
  if n = 0 then zero negative
  else
    let e := max format.lowest (quotientLog n d - (format.precision - 1 : Nat))
    let (n', d') := scaleByTwo n d (-e)
    let m := roundQuotient n' d'
    let (m, e) := if m = Nat.pow 2 format.precision then (m / 2, e + 1) else (m, e)
    if format.highest < e then infinity negative else finite negative m e

def widen : Binary → Binary
  | finite negative m e =>
    let (n, d) := scaleByTwo m 1 e
    ofQuotient .double negative n d
  | x => x

/-- The number nearest to `digits * 10 ^ exponent`. Exponents far beyond the format's range are
settled without computing the power. -/
def ofDecimal (format : BinaryFormat) (negative : Bool) (digits : Nat) (exponent : Int) : Binary :=
  let magnitude : Int := exponent + (Nat.toDigits 10 digits).length
  if digits = 0 ∨ magnitude < -400 then zero negative
  else if 400 < magnitude then infinity negative
  else
    let (n, d) := scaleByTen digits 1 exponent
    ofQuotient format negative n d

def ofNat (n : Nat) : Binary := ofQuotient .double false n 1

def powerOfTen (n : Nat) : Binary := ofNat (Nat.pow 10 n)

def neg : Binary → Binary
  | nan => nan
  | infinity s => infinity !s
  | finite s m e => finite (!s) m e

def isZero : Binary → Bool
  | finite _ m _ => m == 0
  | _ => false

def isInfinite : Binary → Bool
  | infinity _ => true
  | _ => false

def mul : Binary → Binary → Binary
  | finite s m e, finite t k f =>
    let (n, d) := scaleByTwo (m * k) 1 (e + f)
    ofQuotient .double (s != t) n d
  | _, _ => nan

def div : Binary → Binary → Binary
  | finite s m e, finite t k f =>
    let (n, d) := scaleByTwo m k (e - f)
    ofQuotient .double (s != t) n d
  | _, _ => nan

/-- Equality of numbers: the two zeros are equal, and nothing equals `nan`. -/
def same : Binary → Binary → Bool
  | infinity s, infinity t => s == t
  | finite s m e, finite t k f => (m == 0 && k == 0) || (s == t && m == k && e == f)
  | _, _ => false

end Binary
end FilterSql
