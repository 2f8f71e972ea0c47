/-!
# Operators

The comparison operators of filters, the words that join filters, and the directions of a sort.
Each has a word in SQL and a name in documents.
-/
namespace FilterSql

inductive Predicate where
  | eq
  | lt
  | lte
  | gt
  | gte
  | not
  | like
  | between
  | among
  | notAmong
  | group
  deriving DecidableEq, Repr

namespace Predicate

/-- All predicates in the order of their declaration, by which documents may number them. -/
def all : List Predicate :=
  [eq, lt, lte, gt, gte, not, like, between, among, notAmong, group]

def name : Predicate → String
  | eq => "eq"
  | lt => "lt"
  | lte => "lte"
  | gt => "gt"
  | gte => "gte"
  | not => "not"
  | like => "like"
  | between => "between"
  | among => "in"
  | notAmong => "not_in"
  | group => "group"

def ofName? (s : String) : Option Predicate := all.find? (·.name == s)

def sql : Predicate → String
  | eq => "="
  | lt => "<"
  | lte => "<="
  | gt => ">"
  | gte => ">="
  | not => "!="
  | like => "LIKE"
  | between => "BETWEEN"
  | among => "IN"
  | notAmong => "NOT IN"
  | group => ""

def isBinary : Predicate → Bool
  | eq | lt | lte | gt | gte | not | like => true
  | _ => false

end Predicate

/-- What stands between a node and its left sibling. Two of them say what a node is for instead:
a grouping column or a sort. -/
inductive Conjunction where
  | and
  | or
  | groupBy
  | orderBy
  deriving DecidableEq, Repr

namespace Conjunction

def all : List Conjunction := [and, or, groupBy, orderBy]

def name : Conjunction → String
  | and => "and"
  | or => "or"
  | groupBy => "group_by"
  | orderBy => "order_by"

def ofName? (s : String) : Option Conjunction := all.find? (·.name == s)

def sql : Conjunction → String
  | and => "AND"
  | or => "OR"
  | groupBy => "GROUP BY"
  | orderBy => "ORDER BY"

end Conjunction

inductive Connective where
  | and
  | or
  deriving DecidableEq, Repr

namespace Connective

def toConjunction : Connective → Conjunction
  | and => .and
  | or => .or

def ofConjunction? : Conjunction → Option Connective
  | .and => some and
  | .or => some or
  | _ => none

end Connective

inductive Direction where
  | asc
  | desc
  deriving DecidableEq, Repr

namespace Direction

def all : List Direction := [asc, desc]

def name : Direction → String
  | asc => "asc"
  | desc => "desc"

def ofName? (s : String) : Option Direction := all.find? (·.name == s)

def sql : Direction → String
  | asc => "ASC"
  | desc => "DESC"

end Direction
end FilterSql
