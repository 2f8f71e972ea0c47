import FilterSql.Number.Shortest
/-!
# Writing numbers

A layout decides how the digits of a shortest decimal are set out: when an exponent is written,
whether a whole number keeps a `.0`, and what stands for the values that are no numbers.
-/
namespace FilterSql

structure NumberLayout where
  tie : DecimalTie
  /-- The exponents of the leading digit that are written positionally; all if absent. -/
  positional : Option (Int × Int)
  wholeSuffix : String
  infinity : String
  nan : String
  signedInfinity : Bool

def NumberLayout.plain : NumberLayout := ⟨.up, none, "", "inf", "NaN", true⟩

/-- The form of numbers in JSON texts: an exponent from `1e+16` up and from `1e-6` down, a `.0`
after whole numbers, and `null` for what JSON cannot write. -/
def NumberLayout.json : NumberLayout := ⟨.even, some (-5, 15), ".0", "null", "null", false⟩

namespace NumberLayout

def zeros (n : Nat) : String := String.ofList (List.replicate n '0')

def signText (negative : Bool) : String := if negative then "-" else ""

def position (l : NumberLayout) (digits : List Char) (exponent : Int) : String :=
  if 0 ≤ exponent then String.ofList digits ++ zeros exponent.toNat ++ l.wholeSuffix
  else
    let places := (-exponent).toNat
    if places < digits.length then
      String.ofList (digits.take (digits.length - places)) ++ "." ++
        String.ofList (digits.drop (digits.length - places))
    else "0." ++ zeros (places - digits.length) ++ String.ofList digits

def scientific (digits : List Char) (leading : Int) : String :=
  let mantissa := match digits with
    | [] => ""
    | [c] => String.ofList [c]
    | c :: cs => String.ofList [c] ++ "." ++ String.ofList cs
  mantissa ++ "e" ++ (if leading < 0 then "-" else "+") ++ toString leading.natAbs

def decimal (l : NumberLayout) (x : Decimal) : String :=
  let digits := Nat.toDigits 10 x.digits
  let leading : Int := x.exponent + digits.length - 1
  match l.positional with
  | some (low, high) =>
    if low ≤ leading ∧ leading ≤ high then l.position digits x.exponent
    else scientific digits leading
  | none => l.position digits x.exponent

def write (l : NumberLayout) : Binary → String
  | .nan => l.nan
  | .infinity s => signText (l.signedInfinity && s) ++ l.infinity
  | .finite s m e =>
    signText s ++ if m = 0 then "0" ++ l.wholeSuffix else l.decimal (.shortest l.tie m e)

end NumberLayout
end FilterSql
