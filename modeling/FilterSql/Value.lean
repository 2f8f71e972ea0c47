import FilterSql.Entity
import FilterSql.Json.Printer
import FilterSql.Number.Word
import FilterSql.Timestamp
/-!
# Values

The values of filters. Every value has a text, by which it is written into lists and tested for
zero; a value that says nothing lets the filter that carries it disappear.
-/
namespace FilterSql

inductive Value where
  | null
  | bool (b : Bool)
  | int (n : Int64)
  | float (x : Binary)
  | text (s : String)
  | timestamp (t : Timestamp)
  /-- The name of an alternative of an enumeration; it is bound as text. -/
  | choice (name : String)
  deriving Repr

namespace Value

/-- Equality of values: floating-point numbers compare as numbers, and values of two kinds are
never equal. -/
def same : Value → Value → Bool
  | null, null => true
  | bool a, bool b => a == b
  | int a, int b => a == b
  | float a, float b => a.same b
  | text a, text b => a == b
  | timestamp a, timestamp b => a == b
  | choice a, choice b => a == b
  | _, _ => false

def display : Value → String
  | null => "NULL"
  | bool b => if b then "true" else "false"
  | int n => toString n.toInt
  | float x => NumberLayout.plain.write x
  | text s => s
  | timestamp t => t.display
  | choice s => s

def isNull : Value → Bool
  | null => true
  | _ => false

def isNumeric : Value → Bool
  | int _ | float _ => true
  | _ => false

def isVoid : Value → Bool
  | null => true
  | text s | choice s => s.isEmpty
  | _ => false

def toBind : Value → Value
  | choice s => text s
  | v => v

def doubleQuotes (s : List Char) : List Char :=
  s.flatMap fun c => if c = '\'' then ['\'', '\''] else [c]

/-- The value as a literal of SQL; a quoted literal writes each quote inside twice. -/
def literal (quoted : Bool) (v : Value) : String :=
  if quoted then "'" ++ String.ofList (doubleQuotes v.display.toList) ++ "'" else v.display

def isWholeZero (s : List Char) : Bool := readWhole? (s.takeWhile (· != '.')) == some 0

def isNumeralZero (s : List Char) : Bool := (Binary.read? .double s).any Binary.isZero

def looksNumeric (s : List Char) : Bool :=
  let digits := match s with
    | '-' :: s => s
    | s => s
  !digits.isEmpty && digits.all (fun c => c.isDigit || c == '.') && digits.count '.' ≤ 1

/-- Whether a value cannot be told from an unset property. A numeric or boolean property that may
not be absent is unset when it is zero; of a property without declaration any numeral of zero
says as much. -/
def isUnset (v : Value) (field : Option Field) : Bool :=
  let s := v.display.toList
  match field with
  | none => looksNumeric s && isNumeralZero s
  | some f =>
    !f.nullable &&
      match f.kind with
      | .int | .long | .short | .byte => isWholeZero s
      | .float | .double => isNumeralZero s
      | .bool =>
        match v with
        | bool b => !b
        | _ => isWholeZero s
      | .text | .timestamp | .decimal | .other => false

def ofJson : Json → Value
  | .null => null
  | .flag b => bool b
  | .whole n =>
    match signed64? n with
    | some i => int i
    | none => float (.ofNat n.natAbs)
  | .number x => float x
  | .text s => text s
  | j => text j.normalize.compact

def toJson : Value → Json
  | null => .null
  | bool b => .flag b
  | int n => .whole n.toInt
  | float x => .number x
  | text s => .text s
  | timestamp t => .text t.full
  | choice s => .text s

end Value
end FilterSql
