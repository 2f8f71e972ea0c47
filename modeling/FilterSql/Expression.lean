import FilterSql.Error
import FilterSql.Sql.Token
import FilterSql.Text.Blank
import FilterSql.Text.Replace
/-!
# Projections

Two spellings of a projection. An expression is compact, without blanks: `Order->id`,
`Order.id:oid`, `sum[Order->total].as.total`. A plain projection is a path with an optional alias
behind `as`. Both become the text that stands in the select list.
-/
namespace FilterSql

open Sql

/-- A projection expression: a reference, perhaps inside a function, perhaps with an alias. -/
structure Expression where
  function : Option String
  entity : Option String
  property : String
  aliasName : Option String
  deriving DecidableEq, Repr

/-- In references an arrow is another way to write the point. -/
def arrowsToPoints : List Char → List Char
  | '-' :: '>' :: s => '.' :: arrowsToPoints s
  | c :: s => c :: arrowsToPoints s
  | [] => []

namespace Expression

def reference (x : Expression) : String :=
  match x.entity with
  | some e => e ++ "." ++ x.property
  | none => x.property

def sql (x : Expression) : String :=
  (match x.function with
    | some f => f ++ "(" ++ x.reference ++ ")"
    | none => x.reference) ++
  (match x.aliasName with
    | some a => " AS " ++ a
    | none => "")

/-- The second name of a reference behind an arrow or a point, and the rest. What starts with
`.as.` is an alias and no second name. -/
def takeSecond : List Char → Option (List Char) × List Char
  | '.' :: 'a' :: 's' :: '.' :: s => (none, '.' :: 'a' :: 's' :: '.' :: s)
  | '-' :: '>' :: s => match takeName? s with
    | some (n, r) => (some n, r)
    | none => (none, '-' :: '>' :: s)
  | '.' :: s => match takeName? s with
    | some (n, r) => (some n, r)
    | none => (none, '.' :: s)
  | s => (none, s)

def takeReference? (s : List Char) :
    Option ((List Char × Option (List Char)) × List Char) := do
  let (first, s) ← takeName? s
  let (second, s) := takeSecond s
  some ((first, second), s)

def takeCall? (s : List Char) :
    Option ((List Char × List Char × Option (List Char)) × List Char) := do
  let (function, s) ← takeName? s
  let s ← match s with
    | '[' :: s => some s
    | _ => none
  let (reference, s) ← takeReference? s
  match s with
  | ']' :: s => some ((function, reference), s)
  | _ => none

def takeBody? (s : List Char) :
    Option ((Option (List Char) × List Char × Option (List Char)) × List Char) :=
  match takeCall? s with
  | some ((function, reference), r) => some ((some function, reference), r)
  | none => (takeReference? s).map fun r => ((none, r.1), r.2)

/-- The alias that makes up the rest of a text: nothing, or a name behind `.as.` or a colon. -/
def readAlias? : List Char → Option (Option (List Char))
  | [] => some none
  | '.' :: 'a' :: 's' :: '.' :: s | ':' :: s => match takeName? s with
    | some (n, []) => some (some n)
    | _ => none
  | _ => none

def ofChars? (s : List Char) : Option Expression := do
  let ((function, first, second), s) ← takeBody? s
  let aliasName ← readAlias? s
  let text (s : List Char) := String.ofList s
  some {
    function := function.map text
    entity := second.map fun _ => text first
    property := text (second.getD first)
    aliasName := aliasName.map text }

def parse (s : String) : Except Error Expression :=
  match ofChars? s.toList with
  | some x => .ok x
  | none => .error (.malformedExpression s)

end Expression

namespace Projection

def isGap (c : Char) : Bool := c == ' ' || c == '\t' || c == '\r' || c == '\n'

def dropGap? : List Char → Option (List Char)
  | c :: s => if isGap c then some (s.dropWhile isGap) else none
  | [] => none

def readAlias? (s : List Char) : Option (Option (List Char)) :=
  if s.isEmpty then some none
  else do
    let s ← dropGap? s
    let s ← match s with
      | 'a' :: 's' :: s | 'A' :: 'S' :: s => dropGap? s
      | _ => none
    match takeName? s with
    | some (n, []) => some (some n)
    | _ => none

def ofChars? (s : List Char) : Option String := do
  let (path, s) ← takePath? (arrowsToPoints (Text.trim s))
  let aliasName ← readAlias? s
  some (String.ofList path ++ match aliasName with
    | some a => " AS " ++ String.ofList a
    | none => "")

def parse (s : String) : Except Error String :=
  match ofChars? s.toList with
  | some p => .ok p
  | none => .error (.malformedExpression s)

end Projection
end FilterSql
