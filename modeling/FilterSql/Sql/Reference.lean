import FilterSql.Sql.Token
import FilterSql.Text.Blank
import FilterSql.Text.Replace
/-!
# References in SQL texts

A path refers to a name unless it is the word `AS` or stands behind it as an alias. Resolving
replaces the references of a text and leaves all its other tokens as they are.
-/
namespace FilterSql.Sql

def Token.isAs (t : Token) : Bool := t.kind == .path && Text.sameLetters t.chars ['A', 'S']

/-- Whether a token keeps an alias waiting: only blanks may stand between it and `AS`. -/
def Token.isGap (t : Token) : Bool := t.kind == .other && t.chars.all Text.isBlank

/-- Each token with a mark that says whether it is a reference. `aliased` says that the next path
is an alias. -/
def markReferences (aliased : Bool) : List Token → List (Bool × Token)
  | [] => []
  | t :: ts =>
    if t.kind = .path then
      if aliased then (false, t) :: markReferences false ts
      else if t.isAs then (false, t) :: markReferences true ts
      else (true, t) :: markReferences false ts
    else (false, t) :: markReferences (aliased && t.isGap) ts

def replaceReference (f : String → Option String) : Bool × Token → Token
  | (true, t) => match f t.text with
    | some s => { t with chars := s.toList }
    | none => t
  | (false, t) => t

def resolve (f : String → Option String) (sql : String) : String :=
  String.ofList (concat ((markReferences false (tokenize sql)).map (replaceReference f)))

def references (sql : String) : List String :=
  (markReferences false (tokenize sql)).filterMap fun m => if m.1 then some m.2.text else none

def splitPath? (path : List Char) : Option (String × String) :=
  match Text.cutAt '.' path with
  | some (entity, property) =>
    if property.contains '.' then none else some (String.ofList entity, String.ofList property)
  | none => none

def qualifiedPaths (sql : String) : List (String × String) :=
  (tokenize sql).filterMap fun t => if t.kind = .path then splitPath? t.chars else none

end FilterSql.Sql
