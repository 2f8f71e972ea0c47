import FilterSql.Criteria.Filter
import FilterSql.Registry
/-!
# Building criteria

A criteria is built by steps. A step may add a filter, a group of steps or a finished node to the
place where it stands, and at the top level it may also set the other parts of the criteria. A step
that fails leaves everything as it was. `run` goes on after a failed step and records what happened;
`applyAll` stops at the first failure.
-/
namespace FilterSql

/-- A step that adds nodes: it may stand at the top level and inside groups. -/
inductive Step where
  | filter (connective : Connective) (filter : Filter)
  | group (connective : Connective) (steps : List Step)
  | push (node : Node)

/-- The place where steps add nodes: the nodes so far, and how many groups are around it. -/
structure Scope where
  target : Target
  depth : Nat := 0
  nodes : List Node := []

inductive Outcome where
  | nodes (count : Nat) (last : Option Node)
  | failed (error : Error)
  | group (connective : Connective) (depth : Nat) (steps : List Outcome) (count : Nat)
    (last : Option Node)

namespace Scope

def add (s : Scope) (ns : List Node) : Scope := { s with nodes := s.nodes ++ ns }

def inner (s : Scope) : Scope := ⟨s.target, s.depth + 1, []⟩

def closed (c : Connective) (children : List Node) : List Node :=
  if children.isEmpty then [] else [.grouped c.toConjunction children]

def outcome (s : Scope) : Outcome := .nodes s.nodes.length s.nodes.getLast?

end Scope

mutual

def Step.run (s : Scope) : Step → Scope × Outcome
  | .filter c f =>
    match f.node? s.target c.toConjunction with
    | .ok n =>
      let s := s.add n.toList
      (s, s.outcome)
    | .error e => (s, .failed e)
  | .push n =>
    let s := s.add [n]
    (s, s.outcome)
  | .group c steps =>
    let r := Step.runList s.inner steps
    let after := s.add (Scope.closed c r.1.nodes)
    (after, .group c s.inner.depth r.2 after.nodes.length after.nodes.getLast?)

def Step.runList (s : Scope) : List Step → Scope × List Outcome
  | [] => (s, [])
  | t :: ts =>
    let r := Step.run s t
    let rs := Step.runList r.1 ts
    (rs.1, r.2 :: rs.2)

end

mutual

def Step.nodes (t : Target) : Step → Except Error (List Node)
  | .filter c f => (f.node? t c.toConjunction).map Option.toList
  | .push n => .ok [n]
  | .group c steps => (Step.nodesList t steps).map (Scope.closed c)

def Step.nodesList (t : Target) : List Step → Except Error (List Node)
  | [] => .ok []
  | s :: ss => do
    let ns ← Step.nodes t s
    let rest ← Step.nodesList t ss
    return ns ++ rest

end

inductive Operation where
  | step (step : Step)
  | select (projection : String)
  | selectExpression (expression : String)
  | source (script : String)
  | groupBy (property : String)
  | orderBy (property : String) (direction : Direction)
  | paged (paging : Paging)

namespace Criteria

def plain (e : Entity) : Criteria := { entity := e }

def fetching (e : Entity) : Criteria := { entity := e, projections := some [] }

def scope (c : Criteria) : Scope := { target := c.target, nodes := c.nodes }

def project (c : Criteria) (projection : String) : Except Error Criteria :=
  match c.projections with
  | some ps => .ok { c with projections := some (ps ++ [projection]) }
  | none => .error (.noProjectionList c.entity.name)

def select (c : Criteria) (text : String) : Except Error Criteria := do
  c.project (← Projection.parse text)

def selectExpression (c : Criteria) (text : String) : Except Error Criteria := do
  c.project (← Expression.parse text).sql

/-- There is one grouping column: the last one takes the place of all others. -/
def groupBy (c : Criteria) (property : String) : Except Error Criteria := do
  let key ← c.target.key property
  return { c with nodes := c.nodes.filter (!·.isGroupBy) ++ [.groupingColumn key] }

def sortBy (c : Criteria) (property : String) (direction : Direction) : Except Error Criteria := do
  let key ← c.target.key property
  return { c with orderBy := some ⟨key, direction⟩ }

def addStep (c : Criteria) (s : Step) : Except Error Criteria := do
  let ns ← s.nodes c.target
  return { c with nodes := c.nodes ++ ns }

def apply (c : Criteria) : Operation → Except Error Criteria
  | .step s => c.addStep s
  | .select text => c.select text
  | .selectExpression text => c.selectExpression text
  | .source script => .ok { c with source := some script }
  | .groupBy property => c.groupBy property
  | .orderBy property direction => c.sortBy property direction
  | .paged paging => .ok { c with paging := some paging }

def applyAll (c : Criteria) (os : List Operation) : Except Error Criteria := os.foldlM apply c

/-- Carry out a step and go on after failures, also after those inside a group. -/
def runStep (c : Criteria) (s : Step) : Criteria × Outcome :=
  let r := s.run c.scope
  ({ c with nodes := r.1.nodes }, r.2)

inductive Answer where
  | added (outcome : Outcome)
  | changed (criteria : Criteria)
  | failed (error : Error)

/-- Carry out an operation; one that fails changes nothing. -/
def run (c : Criteria) : Operation → Criteria × Answer
  | .step s => let r := c.runStep s; (r.1, .added r.2)
  | o =>
    match c.apply o with
    | .ok c' => (c', .changed c')
    | .error e => (c, .failed e)

def ofName (provider : Provider) (name : String) : Except Error Criteria :=
  (provider name).map plain

def fetch (provider : Provider) (name : String) (request : Option FetchRequest) :
    Except Error Criteria := do
  let c := fetching (← provider name)
  match request with
  | none => return c
  | some r =>
    let c ← r.resultKeys.foldlM selectExpression c
    return { c with paging := r.paging }

end Criteria
end FilterSql
