import FilterSql.Json.Lexeme
import FilterSql.Number.Word
import FilterSql.Timestamp
import FilterSql.Toml.Basic
/-!
# Numbers and moments in TOML

Whole numbers have 64 bits and may be written to the bases two, eight, ten and sixteen. A single
underscore may stand between two digits. Dates and times are checked against the calendar and the
clock.
-/
namespace FilterSql.Toml

/-- More digits after a first one, without the underscores between them, and the rest. -/
def moreDigits (isDigit : Char → Bool) : List Char → List Char × List Char
  | '_' :: c :: s =>
    if isDigit c then (c :: (moreDigits isDigit s).1, (moreDigits isDigit s).2)
    else ([], '_' :: c :: s)
  | c :: s =>
    if isDigit c then (c :: (moreDigits isDigit s).1, (moreDigits isDigit s).2)
    else ([], c :: s)
  | [] => ([], [])

def takeDigits? (isDigit : Char → Bool) : List Char → Option (List Char × List Char)
  | c :: s => if isDigit c then some (c :: (moreDigits isDigit s).1, (moreDigits isDigit s).2)
    else none
  | [] => none

/-- A sign and decimal digits, of which the first is zero only if it is the only one. -/
def takeDecimal? (s : List Char) : Option (Bool × List Char × List Char) :=
  let (negative, s) := takeSign s
  match s with
  | '0' :: s => some (negative, ['0'], s)
  | s => (takeDigits? Char.isDigit s).map fun r => (negative, r.1, r.2)

def whole? (n : Int) (s : List Char) : Option (Toml × List Char) :=
  if fitsSigned n then some (.whole n, s) else none

def valueInBase (base : Nat) (digits : List Char) : Int :=
  digits.foldl (fun n c => base * n + (hexDigit? c).getD 0) 0

def takeInBase? (base : Nat) (isDigit : Char → Bool) (s : List Char) :
    Option (Toml × List Char) :=
  (takeDigits? isDigit s).bind fun r => whole? (valueInBase base r.1) r.2

def isOctal (c : Char) : Bool := '0' ≤ c && c ≤ '7'

def isHexadecimal (c : Char) : Bool := (hexDigit? c).isSome

def takeWhole? : List Char → Option (Toml × List Char)
  | '0' :: 'x' :: s => takeInBase? 16 isHexadecimal s
  | '0' :: 'o' :: s => takeInBase? 8 isOctal s
  | '0' :: 'b' :: s => takeInBase? 2 (fun c => c == '0' || c == '1') s
  | s => (takeDecimal? s).bind fun (negative, digits, r) =>
    whole? (if negative then -(digitsValue digits : Int) else digitsValue digits) r

def takeFraction? : List Char → Option (List Char × List Char)
  | '.' :: s => takeDigits? Char.isDigit s
  | _ => none

def takeExponent? : List Char → Option (Int × List Char)
  | c :: s =>
    if c = 'e' || c = 'E' then
      let (negative, s) := takeSign s
      (takeDigits? Char.isDigit s).map fun r =>
        (if negative then -(digitsValue r.1 : Int) else digitsValue r.1, r.2)
    else none
  | [] => none

/-- A floating-point number with a fraction, an exponent or both, and the rest. A positive number
beyond the range of the format is refused. -/
def takeFloat? (s : List Char) : Option (Toml × List Char) := do
  let (negative, integral, s) ← takeDecimal? s
  let (fraction, exponent, s) ← match takeFraction? s with
    | some (fraction, s) =>
      match takeExponent? s with
      | some (e, s) => some (fraction, e, s)
      | none => some (fraction, 0, s)
    | none => (takeExponent? s).map fun r => ([], r.1, r.2)
  let x := Binary.ofDecimal .double negative (digitsValue (integral ++ fraction))
    (exponent - fraction.length)
  if x = .infinity false then none else some (number, s)

def takeSpecial? (s : List Char) : Option (Toml × List Char) :=
  match (takeSign s).2 with
  | 'i' :: 'n' :: 'f' :: s => some (number, s)
  | 'n' :: 'a' :: 'n' :: s => some (number, s)
  | _ => none

def dropDate? (s : List Char) : Option (List Char) := do
  let (year, s) ← Timestamp.takeNumber? 4 s
  let s ← Timestamp.takeMark? '-' s
  let (month, s) ← Timestamp.takeNumber? 2 s
  let s ← Timestamp.takeMark? '-' s
  let (day, s) ← Timestamp.takeNumber? 2 s
  let t : Timestamp := ⟨year, month, day, 0, 0, 0, 0⟩
  if t.isValid then some s else none

def dropMinutes? (s : List Char) : Option (List Char) := do
  let (hour, s) ← Timestamp.takeNumber? 2 s
  let s ← Timestamp.takeMark? ':' s
  let (minute, s) ← Timestamp.takeNumber? 2 s
  if hour < 24 ∧ minute < 60 then some s else none

def dropTime? (s : List Char) : Option (List Char) := do
  let s ← Timestamp.takeMark? ':' (← dropMinutes? s)
  let (second, s) ← Timestamp.takeNumber? 2 s
  if second ≤ 60 then
    match s with
    | '.' :: c :: s => some (if c.isDigit then s.dropWhile Char.isDigit else '.' :: c :: s)
    | s => some s
  else none

def dropOffset (s : List Char) : List Char :=
  match s with
  | 'Z' :: r | 'z' :: r => r
  | '+' :: r | '-' :: r => (dropMinutes? r).getD s
  | s => s

def takeMoment? (s : List Char) : Option (Toml × List Char) :=
  match dropDate? s with
  | some s =>
    let withTime : Option (List Char) := match s with
      | 'T' :: r | 't' :: r | ' ' :: r => (dropTime? r).map dropOffset
      | _ => none
    some (moment, withTime.getD s)
  | none => (dropTime? s).map fun s => (moment, s)

def takeNumber? (s : List Char) : Option (Toml × List Char) :=
  (takeMoment? s).or ((takeFloat? s).or ((takeSpecial? s).or (takeWhole? s)))

end FilterSql.Toml
