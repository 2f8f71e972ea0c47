import FilterSql.Number.Binary
/-!
# Shortest decimals

Among the decimals that round to a given binary number, those with the fewest digits, and of these
the nearest one. The reals that round to `m * 2 ^ e` form an interval around it, whose ends belong
to it when the mantissa is even; for each count of digits only the two neighbours of the number on
that decimal grid can be the nearest decimal inside.
-/
namespace FilterSql

structure Decimal where
  digits : Nat
  exponent : Int
  deriving DecidableEq, Repr

inductive DecimalTie where
  | up
  | even
  deriving DecidableEq, Repr

def Decimal.trimZeros (x : Decimal) : Decimal :=
  if h : x.digits ≠ 0 ∧ x.digits % 10 = 0 then
    trimZeros ⟨x.digits / 10, x.exponent + 1⟩
  else x
termination_by x.digits
decreasing_by omega

/-- The reals that round to a positive number, in quarters of the unit of its last place:
the number itself, its two ends, and whether the ends belong to it. -/
structure RoundingInterval where
  value : Nat
  low : Nat
  high : Nat
  closed : Bool
  exponent : Int

/-- Below the least number of full precision in a binade the gap is half as wide as above. -/
def RoundingInterval.of (m : Nat) (e : Int) : RoundingInterval :=
  let narrow := m == Nat.pow 2 (BinaryFormat.double.precision - 1) && BinaryFormat.double.lowest < e
  ⟨4 * m, 4 * m - (if narrow then 1 else 2), 4 * m + 2, m % 2 == 0, e - 2⟩

def RoundingInterval.onGrid? (i : RoundingInterval) (tie : DecimalTie) (k : Int) :
    Option Decimal :=
  let (unit, grid) := scaleByTwo 1 1 i.exponent
  let (grid, unit) := scaleByTen grid unit k
  let inside (a b : Nat) : Bool := a < b || (i.closed && a == b)
  let d := i.value * unit / grid
  let below := 0 < d && inside (i.low * unit) (d * grid)
  let above := inside ((d + 1) * grid) (i.high * unit)
  let far := 2 * (i.value * unit)
  let middle := (2 * d + 1) * grid
  let takeAbove := middle < far || (middle == far && (tie == .up || d % 2 == 1))
  match below, above with
  | true, true => some ⟨if takeAbove then d + 1 else d, k⟩
  | true, false => some ⟨d, k⟩
  | false, true => some ⟨d + 1, k⟩
  | false, false => none

def decimalLog (m : Nat) (e : Int) : Int :=
  let guess : Int := ((m.log2 : Int) + e) * 30103 / 100000
  let (n, d) := scaleByTwo m 1 e
  let (n, d) := scaleByTen n d (-(guess + 1))
  if d ≤ n then guess + 1 else guess

/-- The shortest decimal that rounds to the positive number `m * 2 ^ e`. Seventeen digits always
suffice, so the default is not reached. -/
def Decimal.shortest (tie : DecimalTie) (m : Nat) (e : Int) : Decimal :=
  let i := RoundingInterval.of m e
  let top := decimalLog m e
  (((List.range 17).findSome? fun (n : Nat) => i.onGrid? tie (top - n)).getD ⟨m, e⟩).trimZeros

end FilterSql
