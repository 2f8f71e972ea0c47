import FilterSql.Node
import FilterSql.Paging
/-!
# Criteria

A query about one entity as data: the forest of predicate nodes, the sort, the page and, in fetch
mode, the select list and perhaps a source of several tables.
-/
namespace FilterSql

structure OrderBy where
  property : String
  direction : Direction
  deriving DecidableEq, Repr

structure Criteria where
  entity : Entity
  nodes : List Node := []
  orderBy : Option OrderBy := none
  paging : Option Paging := none
  /-- What stands behind `FROM` instead of the entity's table. -/
  source : Option String := none
  projections : Option (List String) := none

namespace Criteria

def isFetch (c : Criteria) : Bool := c.projections.isSome

def projectionList (c : Criteria) : List String := c.projections.getD []

def groupBy? (c : Criteria) : Option Node := c.nodes.find? Node.isGroupBy

def fromClause (c : Criteria) : String := " FROM " ++ c.source.getD c.entity.table

def selectList (c : Criteria) : String :=
  if c.projectionList.isEmpty then "*" else ", ".intercalate c.projectionList

end Criteria
end FilterSql
