/-!
# Whole numbers of a fixed width
-/
namespace FilterSql

/-- The least natural number that needs more than the given number of bits. -/
def wordBound (bits : Nat) : Nat := Nat.pow 2 bits

def fitsSigned (n : Int) : Bool := -(wordBound 63 : Int) ≤ n && n < (wordBound 63 : Int)

def word32? (n : Int) : Option UInt32 :=
  if 0 ≤ n ∧ n < (wordBound 32 : Int) then some (UInt32.ofNat n.toNat) else none

def signed64? (n : Int) : Option Int64 :=
  if fitsSigned n then some (Int64.ofInt n) else none

end FilterSql
