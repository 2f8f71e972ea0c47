import FilterSql.Criteria.Build
import FilterSql.Document.JsonFormat
/-!
# Query documents

A query document describes a criteria as JSON, to be built and compiled later. A document with
result keys, a select list or a source builds a criteria in fetch mode.
-/
namespace FilterSql

inductive FilterEntry where
  | condition (conjunction : Conjunction) (filter : Filter)
  | group (conjunction : Conjunction) (filters : List FilterEntry)

structure QueryDocument where
  entity : String
  fetch : Option FetchRequest := none
  select : List String := []
  source : Option String := none
  filters : List FilterEntry := []
  groupBy : Option String := none
  orderBy : Option OrderBy := none
  paging : Option Paging := none

namespace FilterEntry

def single? {α : Type} (fields : List (String × α)) (name : String) : Option (Option α) :=
  match fields.filter fun f => f.1 == name with
  | [] => some none
  | [f] => some (some f.2)
  | _ => none

def given? {α : Type} (fields : List (String × α)) (name : String) : Option α :=
  (single? fields name).bind id

/-- A conjunction by its name, or by a record that has the name as its only key. Inside a group
the key may come with an empty record as well as with null. -/
def conjunction? (nested : Bool) : Json → Option Conjunction
  | .text s => Conjunction.ofName? s
  | .record [(k, .null)] => Conjunction.ofName? k
  | .record [(k, .record [])] => if nested then Conjunction.ofName? k else none
  | _ => none

def predicate? : Json → Option Predicate
  | .text s => Predicate.ofName? s
  | .whole n => if 0 ≤ n then Predicate.all[n.toNat]? else none
  | _ => none

def textOf? : Json → Option String
  | .text s => some s
  | _ => none

def valuesOf? : Json → Option (List Value)
  | .list items => some (items.map Value.ofJson)
  | _ => none

def condition? (fields : List (String × Json)) (p : Predicate) : Option Condition :=
  let value := (given? fields "value").map Value.ofJson
  let bound (name : String) := (given? fields name).map Value.ofJson
  let values := (given? fields "values").bind valuesOf?
  match p with
  | .eq => value.map (.compare .eq)
  | .lt => value.map (.compare .lt)
  | .lte => value.map (.compare .lte)
  | .gt => value.map (.compare .gt)
  | .gte => value.map (.compare .gte)
  | .not => value.map (.compare .not)
  | .like => value.map .like
  | .between => do some (.between (← bound "min") (← bound "max"))
  | .among => values.map (.among false)
  | .notAmong => values.map (.among true)
  | .group => none

structure Part where
  json : Json
  filters : Option (List FilterEntry)

def ofParts? (nested : Bool) (parts : List (String × Part)) : Option FilterEntry := do
  let fields := parts.map fun p => (p.1, p.2.json)
  let c ← match ← single? fields "conjunction" with
    | none => some .and
    | some j => conjunction? nested j
  let p ← (given? fields "op").bind predicate?
  if p = .group then
    let filters ← (given? parts "filters").bind (·.filters)
    some (.group c filters)
  else
    let property ← (given? fields "property").bind textOf?
    let condition ← condition? fields p
    some (.condition c ⟨property, condition⟩)

mutual

def ofJson? (nested : Bool) : Json → Option FilterEntry
  | .record fields => ofParts? nested (partsOf fields)
  | _ => none

def partsOf : List (String × Json) → List (String × Part)
  | [] => []
  | (k, j) :: fs => (k, ⟨j, listOf? j⟩) :: partsOf fs

def listOf? : Json → Option (List FilterEntry)
  | .list items => allOf? items
  | _ => none

def allOf? : List Json → Option (List FilterEntry)
  | [] => some []
  | j :: js => do
    let f ← ofJson? true j
    let fs ← allOf? js
    some (f :: fs)

end

/-- The filter of a text inside a document, where two lists or records are open already. -/
def ofText? (t : JsonText) : Option FilterEntry :=
  (t.read? (JsonText.nestingLimit - 2)).bind (ofJson? false)

def connective (c : Conjunction) : Except Error Connective :=
  match Connective.ofConjunction? c with
  | some k => .ok k
  | none => .error (.badConnective c)

mutual

def nodes (t : Target) : FilterEntry → Except Error (List Node)
  | condition c f => do
    let k ← connective c
    (f.node? t k.toConjunction).map Option.toList
  | group c fs => do
    let k ← connective c
    (nodesList t fs).map (Scope.closed k)

def nodesList (t : Target) : List FilterEntry → Except Error (List Node)
  | [] => .ok []
  | f :: fs => do
    let ns ← nodes t f
    let rest ← nodesList t fs
    return ns ++ rest

end

end FilterEntry

section

variable {α : Type} [DocumentFormat α]

open Document

def Paging.ofDocument? (a : α) : Option Paging := do
  match ← slots? [["page"], ["rows"]] a with
  | [page, rows] => some ⟨← page.required? word?, ← rows.required? word?⟩
  | _ => none

def FetchRequest.ofDocument? (a : α) : Option FetchRequest := do
  match ← slots? [["result_keys"], ["page"], ["rows"]] a with
  | [keys, page, rows] =>
    some ⟨← keys.withDefault? (items? text?) [], ← page.optional? word?, ← rows.optional? word?⟩
  | _ => none

def direction? (a : α) : Option Direction :=
  (DocumentFormat.alternative? a).bind Direction.ofName?

def OrderBy.ofDocument? (a : α) : Option OrderBy := do
  match ← slots? [["property"], ["direction"]] a with
  | [property, direction] =>
    some ⟨← property.required? text?, ← direction.withDefault? direction? .asc⟩
  | _ => none

end

namespace QueryDocument

open Document in
def ofText? (t : JsonText) : Option QueryDocument := do
  match ← slots? [["entity"], ["fetch"], ["select"], ["source"], ["filters"], ["group_by"],
      ["order_by"], ["paging"]] t with
  | [entity, fetch, select, source, filters, groupBy, orderBy, paging] =>
    some {
      entity := ← entity.required? text?
      fetch := ← fetch.withDefault? (optional? FetchRequest.ofDocument?) none
      select := ← select.withDefault? (items? text?) []
      source := ← source.withDefault? (optional? text?) none
      filters := ← filters.withDefault? (items? FilterEntry.ofText?) []
      groupBy := ← groupBy.withDefault? (optional? text?) none
      orderBy := ← orderBy.withDefault? (optional? OrderBy.ofDocument?) none
      paging := ← paging.withDefault? (optional? Paging.ofDocument?) none }
  | _ => none

def parse (s : String) : Except Error QueryDocument :=
  match (JsonText.parse? s.toList).bind ofText? with
  | some d => .ok d
  | none => .error .badDocument

def isFetch (d : QueryDocument) : Bool :=
  d.fetch.isSome || d.source.isSome || !d.select.isEmpty

/-- Build the criteria that a document describes. The first failure ends the build: the entity is
looked up first, then come the result keys, the select list, the filters, the grouping column and
the sort. -/
def build (d : QueryDocument) (provider : Provider) : Except Error Criteria := do
  let c ←
    if d.isFetch then Criteria.fetch provider d.entity d.fetch
    else Criteria.ofName provider d.entity
  let c ← d.select.foldlM Criteria.select c
  let c := { c with source := d.source.or c.source }
  let ns ← FilterEntry.nodesList c.target d.filters
  let c := { c with nodes := c.nodes ++ ns }
  let c ← match d.groupBy with
    | some property => c.groupBy property
    | none => pure c
  let c ← match d.orderBy with
    | some o => c.sortBy o.property o.direction
    | none => pure c
  return { c with paging := d.paging.or c.paging }

end QueryDocument
end FilterSql
