import FilterSql.Operator
import FilterSql.Value
/-!
# Predicate nodes

A criteria is a forest of nodes: comparisons with one value, two values or a list, parenthesized
groups, and markers that name a grouping column.
-/
namespace FilterSql

structure Label where
  conjunction : Conjunction
  predicate : Predicate
  /-- The reference to a property, as it was given. -/
  key : String
  deriving DecidableEq, Repr

inductive Node where
  | scalar (label : Label) (value : Value)
  | range (label : Label) (min max : Value)
  | list (label : Label) (values : List Value)
  | group (label : Label) (children : List Node)
  | marker (label : Label)
  deriving Repr

namespace Node

def label : Node → Label
  | scalar l _ | range l _ _ | list l _ | group l _ | marker l => l

def conjunction (n : Node) : Conjunction := n.label.conjunction

def predicate (n : Node) : Predicate := n.label.predicate

def key (n : Node) : String := n.label.key

def grouped (c : Conjunction) (children : List Node) : Node := group ⟨c, .group, ""⟩ children

def groupingColumn (key : String) : Node := marker ⟨.groupBy, .eq, key⟩

def isGroupBy (n : Node) : Bool := n.conjunction == .groupBy

def children? : Node → Option (List Node)
  | group _ children => some children
  | _ => none

mutual

/-- How deep groups are nested: nothing for a node without children. -/
def depth : Node → Nat
  | group _ children => 1 + greatestDepth children
  | _ => 0

def greatestDepth : List Node → Nat
  | [] => 0
  | n :: ns => max (depth n) (greatestDepth ns)

end

def labelled (l : Label) (value : Json) : Json :=
  .record [("conjunction", .text l.conjunction.name), ("predicate", .text l.predicate.name),
    ("key", .text l.key), ("value", value)]

mutual

def toJson : Node → Json
  | scalar l v => labelled l (.record [("Scalar", v.toJson)])
  | range l a b =>
    labelled l (.record [("Range", .record [("min", a.toJson), ("max", b.toJson)])])
  | list l vs => labelled l (.record [("List", .list (vs.map Value.toJson))])
  | group l ns => labelled l (.record [("Group", .list (toJsonList ns))])
  | marker l => labelled l (.text "Marker")

def toJsonList : List Node → List Json
  | [] => []
  | n :: ns => toJson n :: toJsonList ns

end

end Node
end FilterSql
