import FilterSql.Number.Numeral
/-!
# Timestamps

A calendar date with a time of day, without time zone. The year may have any sign and length; a
second of 60 is a leap second.
-/
namespace FilterSql

structure Timestamp where
  year : Int
  month : Nat
  day : Nat
  hour : Nat
  minute : Nat
  second : Nat
  nanosecond : Nat
  deriving DecidableEq, Repr

namespace Timestamp

def padded (width n : Nat) : String :=
  let digits := Nat.toDigits 10 n
  String.ofList (List.replicate (width - digits.length) '0' ++ digits)

/-- Four digits, and a sign for the years that need it or more digits. -/
def yearText (year : Int) : String :=
  if 0 ≤ year ∧ year ≤ 9999 then padded 4 year.natAbs
  else (if year < 0 then "-" else "+") ++ padded 4 year.natAbs

def date (t : Timestamp) : String :=
  yearText t.year ++ "-" ++ padded 2 t.month ++ "-" ++ padded 2 t.day

def time (t : Timestamp) : String :=
  padded 2 t.hour ++ ":" ++ padded 2 t.minute ++ ":" ++ padded 2 t.second

def display (t : Timestamp) : String := t.date ++ " " ++ t.time

/-- The fraction in three, six or nine places, whichever is enough; no fraction, no places. -/
def fractionText (nanosecond : Nat) : String :=
  if nanosecond = 0 then ""
  else if nanosecond % 1000000 = 0 then "." ++ padded 3 (nanosecond / 1000000)
  else if nanosecond % 1000 = 0 then "." ++ padded 6 (nanosecond / 1000)
  else "." ++ padded 9 nanosecond

def full (t : Timestamp) : String := t.date ++ "T" ++ t.time ++ fractionText t.nanosecond

def isLeap (year : Int) : Bool := year % 4 == 0 && (year % 100 != 0 || year % 400 == 0)

def daysIn (year : Int) (month : Nat) : Nat :=
  match month with
  | 4 | 6 | 9 | 11 => 30
  | 2 => if isLeap year then 29 else 28
  | _ => 31

def isValid (t : Timestamp) : Bool :=
  1 ≤ t.month && t.month ≤ 12 && 1 ≤ t.day && t.day ≤ daysIn t.year t.month &&
    t.hour < 24 && t.minute < 60 && t.second ≤ 60

def takeNumber? (width : Nat) (s : List Char) : Option (Nat × List Char) :=
  let digits := s.take width
  if digits.length = width && digits.all Char.isDigit then some (digitsValue digits, s.drop width)
  else none

def takeMark? (mark : Char) : List Char → Option (List Char)
  | c :: s => if c = mark then some s else none
  | [] => none

def takeYear? (s : List Char) : Option (Int × List Char) :=
  let (negative, s) := takeSign s
  let digits := s.takeWhile Char.isDigit
  if digits.length < 4 then none
  else
    let year : Int := digitsValue digits
    some (if negative then -year else year, s.drop digits.length)

/-- The nanoseconds of a fraction; places beyond the ninth are dropped. -/
def readFraction? : List Char → Option Nat
  | [] => some 0
  | '.' :: digits =>
    if digits.isEmpty || !digits.all Char.isDigit then none
    else some (digitsValue ((digits ++ List.replicate 9 '0').take 9))
  | _ => none

def read? (s : List Char) : Option Timestamp := do
  let (year, s) ← takeYear? s
  let s ← takeMark? '-' s
  let (month, s) ← takeNumber? 2 s
  let s ← takeMark? '-' s
  let (day, s) ← takeNumber? 2 s
  let s ← takeMark? 'T' s
  let (hour, s) ← takeNumber? 2 s
  let s ← takeMark? ':' s
  let (minute, s) ← takeNumber? 2 s
  let s ← takeMark? ':' s
  let (second, s) ← takeNumber? 2 s
  let nanosecond ← readFraction? s
  let t : Timestamp := ⟨year, month, day, hour, minute, second, nanosecond⟩
  if t.isValid then some t else none

end Timestamp
end FilterSql
