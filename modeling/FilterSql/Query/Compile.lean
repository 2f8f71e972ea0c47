import FilterSql.Criteria.Basic
import FilterSql.Names
import FilterSql.Query.GroupedCount
import FilterSql.Query.Where
/-!
# Compiling criteria

A criteria becomes three statements that share one list of bound values: the data query, a query
that counts its rows, and a template of the data query that leaves the select list open. They are
written with logical names and then resolved to tables and columns.
-/
namespace FilterSql

structure Query where
  count : String
  data : String
  template : String
  /-- The values of the placeholders, the same for all three statements. -/
  binds : List Value
  names : Option NameTable

def projectionTag : String := "$\x7bPROJECTION\x7d"

def fillTemplate (template selectList : String) : String :=
  String.ofList (Text.replace projectionTag.toList selectList.toList template.toList)

namespace Criteria

def orderClause (c : Criteria) : String :=
  match c.orderBy with
  | some o => " ORDER BY " ++ o.property ++ " " ++ o.direction.sql
  | none => ""

def tail (c : Criteria) : String := c.fromClause ++ Node.whereClause c.nodes ++ c.orderClause

def template (c : Criteria) : String := "SELECT " ++ projectionTag ++ c.tail

/-- How logical names are resolved, and the names found. A criteria with a source is about all
the entities that its data query refers to, any other about its own entity alone. -/
def resolver (c : Criteria) (provider : Provider) (data : String) :
    Except Error ((String → String) × Option NameTable) := do
  match c.source with
  | some _ =>
    let r ← Resolution.ofSql provider data
    return (r.resolve, some r.names)
  | none =>
    let e ← provider c.entity.name
    return (e.resolve, none)

def compile (c : Criteria) (provider : Provider) : Except Error Query := do
  let data := fillTemplate c.template c.selectList
  let count := fillTemplate c.template "COUNT(*) count"
  let (resolve, names) ← c.resolver provider data
  return {
    count := match Node.groupingKey? c.nodes with
      | some key => GroupedCount.sql (resolve data) (resolve key)
      | none => resolve count
    data := resolve data
    template := resolve c.template
    binds := Node.bindsList (Node.conditions c.nodes)
    names := names }

end Criteria

def Query.paged (q : Query) (p : Paging) : String :=
  q.data ++ " LIMIT " ++ toString p.limit ++ " OFFSET " ++ toString p.offset

end FilterSql
