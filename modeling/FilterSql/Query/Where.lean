import FilterSql.Node
/-!
# The WHERE clause

Nodes are written in their order. Every rendered node but the first of its siblings stands behind
its conjunction. Lists are written out; all other values are bound to placeholders. A node that has
nothing to say, such as a group without rendered children, is left out with its conjunction.
-/
namespace FilterSql

/-- The literals of a list, with quotes unless the first value is a number. -/
def listLiterals (vs : List Value) : String :=
  ",".intercalate (vs.map (Value.literal !(vs.head?.any Value.isNumeric)))

def joinClauses : List (Conjunction × String) → String
  | [] => ""
  | c :: cs => c.2 ++ String.join (cs.map fun d => " " ++ d.1.sql ++ " " ++ d.2)

namespace Node

mutual

def renders : Node → Bool
  | scalar .. | range .. => true
  | list _ vs => !vs.isEmpty
  | group _ ns => anyRenders ns
  | marker _ => false

def anyRenders : List Node → Bool
  | [] => false
  | n :: ns => renders n || anyRenders ns

end

mutual

def sql : Node → String
  | scalar l _ => l.key ++ " " ++ l.predicate.sql ++ " ?"
  | range l _ _ => l.key ++ " " ++ l.predicate.sql ++ " ? AND ?"
  | list l vs => l.key ++ " " ++ l.predicate.sql ++ " (" ++ listLiterals vs ++ ")"
  | group _ ns => "(" ++ joinClauses (clauses ns) ++ ")"
  | marker _ => ""

def clauses : List Node → List (Conjunction × String)
  | [] => []
  | n :: ns => if n.renders then (n.conjunction, n.sql) :: clauses ns else clauses ns

end

mutual

def binds : Node → List Value
  | scalar _ v => [v.toBind]
  | range _ min max => [min.toBind, max.toBind]
  | list _ _ => []
  | group _ ns => bindsList ns
  | marker _ => []

def bindsList : List Node → List Value
  | [] => []
  | n :: ns => binds n ++ bindsList ns

end

/-- The nodes of a forest that are conditions: grouping columns at the top level are not. -/
def conditions (ns : List Node) : List Node := ns.filter (!·.isGroupBy)

def whereClause (ns : List Node) : String :=
  let cs := clauses (conditions ns)
  if cs.isEmpty then "" else " WHERE " ++ joinClauses cs

/-- The grouping column that counts: the last one at the top level. -/
def groupingKey? (ns : List Node) : Option String := (ns.filter isGroupBy).getLast?.map key

end Node
end FilterSql
