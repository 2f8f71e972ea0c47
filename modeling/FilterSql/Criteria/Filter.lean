import FilterSql.Criteria.Basic
import FilterSql.Error
import FilterSql.Expression
/-!
# Filters

A filter is a condition on one property, stated by a caller. Applied to a target it is an error, a
node, or nothing at all: a filter whose value says nothing is dropped, so that optional conditions
can be stated without asking first.
-/
namespace FilterSql

inductive Comparison where
  | eq
  | lt
  | lte
  | gt
  | gte
  | not
  deriving DecidableEq, Repr

def Comparison.predicate : Comparison → Predicate
  | eq => .eq
  | lt => .lt
  | lte => .lte
  | gt => .gt
  | gte => .gte
  | not => .not

inductive Condition where
  | compare (comparison : Comparison) (value : Value)
  | like (value : Value)
  | between (min max : Value)
  | among (negated : Bool) (values : List Value)
  deriving Repr

structure Filter where
  property : String
  condition : Condition
  deriving Repr

/-- What the filters of a criteria are checked against: an entity, and whether references may go
beyond it, as they may in fetch mode. -/
structure Target where
  entity : Entity
  fetch : Bool

def Criteria.target (c : Criteria) : Target := ⟨c.entity, c.isFetch⟩

namespace Target

/-- The key under which a reference is stored. Outside fetch mode the entity has to declare the
property. -/
def key (t : Target) (property : String) : Except Error String :=
  if t.fetch then .ok (String.ofList (arrowsToPoints property.toList))
  else if (t.entity.field? property).isSome then .ok property
  else .error (.unknownProperty property t.entity.name)

/-- The second name of a reference up to its first blank, or its only name. -/
def trailingName (property : String) : String :=
  let head := arrowsToPoints (property.toList.takeWhile (· != ' '))
  String.ofList <|
    match head.splitOn '.' with
    | _ :: second :: _ => second
    | _ => head

def drops (t : Target) (property : String) (v : Value) : Bool :=
  v.isVoid || v.isUnset (t.entity.field? (trailingName property))

end Target

/-- The values that say something, each once: a value equal to an earlier one is left out. -/
def distinctValues (vs : List Value) : List Value :=
  vs.foldl (fun kept v => if v.isVoid || kept.any (·.same v) then kept else kept ++ [v]) []

namespace Condition

def pattern (v : Value) : Value := .text ("%" ++ v.display ++ "%")

def node? (t : Target) (property key : String) (c : Conjunction) : Condition → Option Node
  | compare op v => if t.drops property v then none else some (.scalar ⟨c, op.predicate, key⟩ v)
  | like v => if t.drops property v then none else some (.scalar ⟨c, .like, key⟩ (pattern v))
  | between min max =>
    if t.drops property min || t.drops property max then none
    else some (.range ⟨c, .between, key⟩ min max)
  | among negated values =>
    let values := distinctValues values
    if values.isEmpty then none
    else some (.list ⟨c, if negated then .notAmong else .among, key⟩ values)

end Condition

def Filter.node? (t : Target) (c : Conjunction) (f : Filter) : Except Error (Option Node) :=
  (t.key f.property).map fun key => f.condition.node? t f.property key c

end FilterSql
