import FilterSql.Document.Query
import FilterSql.Proofs.Criteria.WellFormed
/-!
# What a document's values decide

The values of a document's filters decide which filters are dropped and nothing else. Checking a
document gives a plan, in which every filter has its place, its label and perhaps an operand; plans
of documents that differ in values alone have one outline, and the forest of a criteria is read off
its plan.
-/
namespace FilterSql

open Node

def Condition.bare : Condition → Condition
  | compare op _ => .compare op .null
  | like _ => .like .null
  | between _ _ => .between .null .null
  | among negated _ => .among negated []

namespace FilterEntry

mutual

def bare : FilterEntry → FilterEntry
  | condition c f => .condition c { f with condition := f.condition.bare }
  | group c fs => .group c (bareList fs)

def bareList : List FilterEntry → List FilterEntry
  | [] => []
  | f :: fs => bare f :: bareList fs

end

theorem bareList_eq (fs : List FilterEntry) : bareList fs = fs.map bare := by
  induction fs with
  | nil => rfl
  | cons f fs ih => rw [bareList, ih, List.map_cons]

@[elab_as_elim]
theorem inductionOn {motive : FilterEntry → Prop}
    (condition : ∀ c f, motive (condition c f))
    (group : ∀ c fs, (∀ f ∈ fs, motive f) → motive (group c fs)) (f : FilterEntry) : motive f :=
  FilterEntry.rec (motive_1 := motive) (motive_2 := fun fs => ∀ f ∈ fs, motive f)
    condition group (fun _ h => absurd h List.not_mem_nil)
    (fun _ _ h hs => List.forall_mem_cons.2 ⟨h, hs⟩) f

end FilterEntry

/-- A document with every `value`, `min`, `max` and `values` of its filters taken out. -/
def QueryDocument.bare (d : QueryDocument) : QueryDocument :=
  { d with filters := d.filters.map FilterEntry.bare }

inductive Operand where
  | one (value : Value)
  | two (min max : Value)
  | many (values : List Value)

def Operand.node (l : Label) : Operand → Node
  | one v => .scalar l v
  | two a b => .range l a b
  | many vs => .list l vs

namespace Condition

def predicate : Condition → Predicate
  | compare op _ => op.predicate
  | like _ => .like
  | between _ _ => .between
  | among negated _ => if negated then .notAmong else .among

/-- The operand of a condition on a property of the target, unless the condition is dropped. -/
def operand? (t : Target) (property : String) : Condition → Option Operand
  | compare _ v => if t.drops property v then none else some (.one v)
  | like v => if t.drops property v then none else some (.one (pattern v))
  | between min max =>
    if t.drops property min || t.drops property max then none else some (.two min max)
  | among _ values =>
    let values := distinctValues values
    if values.isEmpty then none else some (.many values)

theorem predicate_bare (x : Condition) : x.bare.predicate = x.predicate := by
  cases x <;> rfl

theorem node?_eq (t : Target) (property key : String) (c : Conjunction) (x : Condition) :
    x.node? t property key c =
      (x.operand? t property).map (Operand.node ⟨c, x.predicate, key⟩) := by
  cases x <;> simp only [node?, operand?, predicate, apply_ite (Option.map _), Option.map_none,
    Option.map_some, Operand.node]

end Condition

/-- A checked filter: its label, and its operand if it is kept, or the plans inside a group. -/
inductive Plan where
  | leaf (label : Label) (operand : Option Operand)
  | group (connective : Connective) (children : List Plan)

namespace Plan

mutual

def nodes : Plan → List Node
  | leaf l o => (o.map (Operand.node l)).toList
  | group c ps => Scope.closed c (nodesList ps)

def nodesList : List Plan → List Node
  | [] => []
  | p :: ps => nodes p ++ nodesList ps

end

mutual

def outline : Plan → Plan
  | leaf l _ => .leaf l none
  | group c ps => .group c (outlineList ps)

def outlineList : List Plan → List Plan
  | [] => []
  | p :: ps => outline p :: outlineList ps

end

end Plan

namespace FilterEntry

mutual

def plan (t : Target) : FilterEntry → Except Error Plan
  | condition c f => do
    let k ← connective c
    let key ← t.key f.property
    return .leaf ⟨k.toConjunction, f.condition.predicate, key⟩ (f.condition.operand? t f.property)
  | group c fs => do
    let k ← connective c
    (planList t fs).map (.group k)

def planList (t : Target) : List FilterEntry → Except Error (List Plan)
  | [] => .ok []
  | f :: fs => do
    let p ← plan t f
    let ps ← planList t fs
    return p :: ps

end

theorem nodesList_of_nodes {t : Target} {fs : List FilterEntry}
    (h : ∀ f ∈ fs, f.nodes t = (f.plan t).map Plan.nodes) :
    nodesList t fs = (planList t fs).map Plan.nodesList := by
  induction fs with
  | nil => rfl
  | cons f fs ih =>
    rw [List.forall_mem_cons] at h
    rw [nodesList, planList, h.1, ih h.2]
    cases f.plan t with
    | error x => rfl
    | ok p => cases planList t fs <;> rfl

theorem nodes_eq_plan (t : Target) (f : FilterEntry) : f.nodes t = (f.plan t).map Plan.nodes := by
  induction f using inductionOn with
  | condition c f =>
    rw [nodes, plan]
    cases connective c with
    | error x => rfl
    | ok k =>
      change (f.node? t k.toConjunction).map Option.toList = _
      rw [Filter.node?]
      cases t.key f.property with
      | error x => rfl
      | ok key => exact congrArg (fun n => Except.ok n.toList) (f.condition.node?_eq ..)
  | group c fs ih =>
    rw [nodes, plan, nodesList_of_nodes ih]
    cases connective c with
    | error x => rfl
    | ok k => cases planList t fs <;> rfl

theorem nodesList_eq_plan (t : Target) (fs : List FilterEntry) :
    nodesList t fs = (planList t fs).map Plan.nodesList :=
  nodesList_of_nodes fun f _ => f.nodes_eq_plan t

theorem outlineList_of_outline {t : Target} {fs : List FilterEntry}
    (h : ∀ f ∈ fs, (f.bare.plan t).map Plan.outline = (f.plan t).map Plan.outline) :
    (planList t (fs.map bare)).map Plan.outlineList = (planList t fs).map Plan.outlineList := by
  induction fs with
  | nil => rfl
  | cons f fs ih =>
    rw [List.forall_mem_cons] at h
    rw [List.map_cons, planList, planList]
    obtain ⟨p, q, hp, hq, ho⟩ | ⟨x, hx, hx'⟩ := cases_of_map_eq h.1
    · rw [hp, hq]
      obtain ⟨ps, qs, hps, hqs, hos⟩ | ⟨x, hx, hx'⟩ := cases_of_map_eq (ih h.2)
      · rw [hps, hqs]
        exact congrArg Except.ok (congrArg₂ List.cons ho hos)
      · rw [hx, hx']
        rfl
    · rw [hx, hx']
      rfl

/-- Neither the error of a plan nor its outline depends on values. -/
theorem outline_bare (t : Target) (f : FilterEntry) :
    (f.bare.plan t).map Plan.outline = (f.plan t).map Plan.outline := by
  induction f using inductionOn with
  | condition c f =>
    rw [bare, plan, plan, f.condition.predicate_bare]
    cases connective c with
    | error x => rfl
    | ok k => cases t.key f.property <;> rfl
  | group c fs ih =>
    rw [bare, bareList_eq, plan, plan]
    cases connective c with
    | error x => rfl
    | ok k =>
      change ((planList t (fs.map bare)).map (Plan.group k)).map _ =
        ((planList t fs).map (Plan.group k)).map _
      obtain ⟨ps, qs, hps, hqs, ho⟩ | ⟨x, hx, hx'⟩ :=
        cases_of_map_eq (outlineList_of_outline ih)
      · rw [hps, hqs]
        exact congrArg (fun os => Except.ok (Plan.group k os)) ho
      · rw [hx, hx']

theorem isGroupBy_plan {t : Target} {f : FilterEntry} {p : Plan} (h : f.plan t = .ok p) :
    ∀ n ∈ p.nodes, n.isGroupBy = false := by
  intro n hn
  cases f with
  | condition c f =>
    rw [plan] at h
    obtain ⟨k, -, h⟩ := bind_eq_ok h
    obtain ⟨key, -, h⟩ := bind_eq_ok h
    obtain rfl := Except.ok.inj h
    rw [Plan.nodes, Option.mem_toList, Option.map_eq_some_iff] at hn
    obtain ⟨o, -, rfl⟩ := hn
    cases o <;> cases k <;> rfl
  | group c fs =>
    rw [plan] at h
    obtain ⟨k, -, h⟩ := bind_eq_ok h
    obtain ⟨ps, -, rfl⟩ := map_eq_ok h
    rw [Plan.nodes, Scope.closed] at hn
    split at hn
    next => cases hn
    next =>
      rw [List.mem_singleton.1 hn]
      cases k <;> rfl

theorem isGroupBy_planList {t : Target} {fs : List FilterEntry} {ps : List Plan}
    (h : planList t fs = .ok ps) : ∀ n ∈ Plan.nodesList ps, n.isGroupBy = false := by
  induction fs generalizing ps with
  | nil =>
    obtain rfl := Except.ok.inj h
    exact nofun
  | cons f fs ih =>
    rw [planList] at h
    obtain ⟨p, hp, h⟩ := bind_eq_ok h
    obtain ⟨ps, hps, h⟩ := bind_eq_ok h
    obtain rfl := Except.ok.inj h
    exact List.forall_mem_append.2 ⟨isGroupBy_plan hp, ih hps⟩

end FilterEntry

def Criteria.inFront (c : Criteria) (ns : List Node) : Criteria := { c with nodes := ns ++ c.nodes }

theorem Criteria.target_inFront (c : Criteria) (ns : List Node) :
    (c.inFront ns).target = c.target := rfl

/-- Two criteria differ in their conditions alone. -/
structure Criteria.SameFrame (c c' : Criteria) : Prop where
  entity : c.entity = c'.entity
  projections : c.projections = c'.projections
  source : c.source = c'.source
  orderBy : c.orderBy = c'.orderBy
  paging : c.paging = c'.paging
  grouping : c.groupBy? = c'.groupBy?

namespace Criteria

variable (c : Criteria) {ns ms : List Node}

theorem conditions_inFront (hc : conditions c.nodes = []) (hns : ∀ n ∈ ns, n.isGroupBy = false) :
    conditions (c.inFront ns).nodes = ns := by
  change conditions (ns ++ c.nodes) = ns
  rw [conditions_append, conditions_eq_self hns, hc, List.append_nil]

theorem groupBy?_inFront (hns : ∀ n ∈ ns, n.isGroupBy = false) :
    (c.inFront ns).groupBy? = c.groupBy? := by
  have hnone : ns.find? isGroupBy = none := List.find?_eq_none.2 fun n hn => by simp [hns n hn]
  change (ns ++ c.nodes).find? isGroupBy = _
  rw [List.find?_append, hnone]
  rfl

theorem sameFrame_inFront (hns : ∀ n ∈ ns, n.isGroupBy = false)
    (hms : ∀ n ∈ ms, n.isGroupBy = false) : (c.inFront ns).SameFrame (c.inFront ms) := by
  refine ⟨rfl, rfl, rfl, rfl, rfl, ?_⟩
  rw [c.groupBy?_inFront hns, c.groupBy?_inFront hms]

end Criteria

namespace QueryDocument

def started (d : QueryDocument) (provider : Provider) : Except Error Criteria :=
  if d.isFetch then Criteria.fetch provider d.entity d.fetch
  else Criteria.ofName provider d.entity

/-- The criteria of a document before its filters. -/
def opened (d : QueryDocument) (provider : Provider) : Except Error Criteria := do
  let c ← d.started provider
  let c ← d.select.foldlM Criteria.select c
  return { c with source := d.source.or c.source }

def grouped (d : QueryDocument) (c : Criteria) : Except Error Criteria :=
  match d.groupBy with
  | some property => c.groupBy property
  | none => .ok c

def sorted (d : QueryDocument) (c : Criteria) : Except Error Criteria :=
  match d.orderBy with
  | some o => c.sortBy o.property o.direction
  | none => .ok c

def finished (d : QueryDocument) (c : Criteria) : Except Error Criteria := do
  let c ← d.grouped c
  let c ← d.sorted c
  return { c with paging := d.paging.or c.paging }

theorem build_eq (d : QueryDocument) (provider : Provider) :
    d.build provider = (do
      let c ← d.opened provider
      let ns ← FilterEntry.nodesList c.target d.filters
      d.finished { c with nodes := c.nodes ++ ns }) := by
  simp only [build, opened, started, finished, grouped, sorted, bind_assoc, pure_bind]
  cases d.isFetch <;> cases d.groupBy <;> cases d.orderBy <;> rfl

theorem nodes_opened {d : QueryDocument} {provider : Provider} {c : Criteria}
    (h : d.opened provider = .ok c) : c.nodes = [] := by
  obtain ⟨c₀, h₀, h⟩ := bind_eq_ok h
  obtain ⟨c₁, h₁, h⟩ := bind_eq_ok h
  obtain rfl := Except.ok.inj h
  have hfresh : c₀.IsFresh := by
    rw [started] at h₀
    split at h₀
    next => exact Criteria.isFresh_fetch h₀
    next =>
      obtain ⟨e, -, rfl⟩ := map_eq_ok h₀
      exact Criteria.isFresh_plain e
  exact (Criteria.IsFresh.foldlM .select hfresh h₁).nodes

theorem grouped_inFront (d : QueryDocument) (c : Criteria) {ns : List Node}
    (hns : ∀ n ∈ ns, n.isGroupBy = false) :
    d.grouped (c.inFront ns) = (d.grouped c).map (·.inFront ns) := by
  rw [grouped, grouped]
  cases d.groupBy with
  | none => rfl
  | some property =>
    change (c.inFront ns).groupBy property = (c.groupBy property).map (·.inFront ns)
    rw [Criteria.groupBy, Criteria.groupBy, Criteria.target_inFront]
    cases c.target.key property with
    | error x => rfl
    | ok key =>
      have hnodes : conditions (ns ++ c.nodes) ++ [groupingColumn key] =
          ns ++ (conditions c.nodes ++ [groupingColumn key]) := by
        rw [conditions_append, conditions_eq_self hns, List.append_assoc]
      exact congrArg (fun ms => Except.ok { c with nodes := ms }) hnodes

theorem sorted_inFront (d : QueryDocument) (c : Criteria) (ns : List Node) :
    d.sorted (c.inFront ns) = (d.sorted c).map (·.inFront ns) := by
  rw [sorted, sorted]
  cases d.orderBy with
  | none => rfl
  | some o =>
    change (c.inFront ns).sortBy o.property o.direction =
      (c.sortBy o.property o.direction).map (·.inFront ns)
    rw [Criteria.sortBy, Criteria.sortBy, Criteria.target_inFront]
    cases c.target.key o.property <;> rfl

/-- What is set behind conditions is what would be set without them. -/
theorem finished_inFront (d : QueryDocument) (c : Criteria) {ns : List Node}
    (hns : ∀ n ∈ ns, n.isGroupBy = false) :
    d.finished (c.inFront ns) = (d.finished c).map (·.inFront ns) := by
  rw [finished, finished, d.grouped_inFront c hns]
  cases d.grouped c with
  | error x => rfl
  | ok g =>
    change (d.sorted (g.inFront ns) >>= fun c => _) = (d.sorted g >>= fun c => _).map _
    rw [sorted_inFront]
    cases d.sorted g <;> rfl

theorem grouped_keeps {d : QueryDocument} {c g : Criteria} (h : d.grouped c = .ok g) :
    g.target = c.target ∧ conditions g.nodes = conditions c.nodes := by
  rw [grouped] at h
  split at h
  next =>
    obtain ⟨key, -, rfl⟩ := Criteria.groupBy_eq_ok h
    refine ⟨rfl, ?_⟩
    rw [conditions_append, conditions_conditions]
    exact List.append_nil _
  next =>
    obtain rfl := Except.ok.inj h
    exact ⟨rfl, rfl⟩

theorem sorted_keeps {d : QueryDocument} {c s : Criteria} (h : d.sorted c = .ok s) :
    s.target = c.target ∧ s.nodes = c.nodes := by
  rw [sorted] at h
  split at h
  next =>
    obtain ⟨key, -, rfl⟩ := Criteria.sortBy_eq_ok h
    exact ⟨rfl, rfl⟩
  next =>
    obtain rfl := Except.ok.inj h
    exact ⟨rfl, rfl⟩

theorem finished_keeps {d : QueryDocument} {c f : Criteria} (h : d.finished c = .ok f) :
    f.target = c.target ∧ conditions f.nodes = conditions c.nodes := by
  obtain ⟨g, hg, h⟩ := bind_eq_ok h
  obtain ⟨s, hs, h⟩ := bind_eq_ok h
  obtain rfl := Except.ok.inj h
  obtain ⟨hgtarget, hgnodes⟩ := grouped_keeps hg
  obtain ⟨hstarget, hsnodes⟩ := sorted_keeps hs
  exact ⟨hstarget.trans hgtarget, (congrArg conditions hsnodes).trans hgnodes⟩

/-- A document is built by planning its filters between two steps that do not see them. -/
theorem build_eq_plan (d : QueryDocument) (provider : Provider) :
    d.build provider = (do
      let c ← d.opened provider
      let ps ← FilterEntry.planList c.target d.filters
      (d.finished c).map (·.inFront (Plan.nodesList ps))) := by
  rw [build_eq]
  refine bind_congr_ok fun c hc => ?_
  rw [FilterEntry.nodesList_eq_plan]
  cases hps : FilterEntry.planList c.target d.filters with
  | error x => rfl
  | ok ps =>
    have hnodes : c.nodes ++ Plan.nodesList ps = Plan.nodesList ps ++ c.nodes := by
      rw [nodes_opened hc, List.nil_append, List.append_nil]
    change d.finished { c with nodes := c.nodes ++ Plan.nodesList ps } = _
    rw [hnodes]
    exact d.finished_inFront c (FilterEntry.isGroupBy_planList hps)

theorem opened_bare (d : QueryDocument) : d.bare.opened = d.opened := rfl

theorem finished_bare (d : QueryDocument) : d.bare.finished = d.finished := rfl

theorem outline_of_bare_eq {d d' : QueryDocument} (h : d.bare = d'.bare) (t : Target) :
    (FilterEntry.planList t d.filters).map Plan.outlineList =
      (FilterEntry.planList t d'.filters).map Plan.outlineList := by
  have hbare (fs : List FilterEntry) : (FilterEntry.planList t (fs.map FilterEntry.bare)).map
      Plan.outlineList = (FilterEntry.planList t fs).map Plan.outlineList :=
    FilterEntry.outlineList_of_outline fun f _ => f.outline_bare t
  calc (FilterEntry.planList t d.filters).map Plan.outlineList
      = (FilterEntry.planList t d.bare.filters).map Plan.outlineList := (hbare d.filters).symm
    _ = (FilterEntry.planList t d'.bare.filters).map Plan.outlineList := by rw [h]
    _ = (FilterEntry.planList t d'.filters).map Plan.outlineList := hbare d'.filters

/-- Two documents that differ in the values of their filters alone give the same error or two
criteria that differ in their conditions alone. Which conditions there are is read off two plans of
one outline: a filter that is kept in both has one label, in the same groups. -/
theorem build_of_bare_eq {d d' : QueryDocument} (h : d.bare = d'.bare) (provider : Provider) :
    (∃ x, d.build provider = .error x ∧ d'.build provider = .error x) ∨
      ∃ c c' ps ps', d.build provider = .ok c ∧ d'.build provider = .ok c' ∧ c.SameFrame c' ∧
        FilterEntry.planList c.target d.filters = .ok ps ∧
        FilterEntry.planList c'.target d'.filters = .ok ps' ∧
        Plan.outlineList ps = Plan.outlineList ps' ∧
        conditions c.nodes = Plan.nodesList ps ∧ conditions c'.nodes = Plan.nodesList ps' := by
  -- neither what is set in front of the filters nor what is set behind them reads a value
  have hopened : d'.opened provider = d.opened provider := by
    rw [← d'.opened_bare, ← h, d.opened_bare]
  have hfinished : d'.finished = d.finished := by
    rw [← d'.finished_bare, ← h, d.finished_bare]
  rw [build_eq_plan, build_eq_plan, hopened, hfinished]
  cases hc : d.opened provider with
  | error x => exact Or.inl ⟨x, rfl, rfl⟩
  | ok c =>
    simp only [ok_bind]
    obtain ⟨ps, ps', hps, hps', ho⟩ | ⟨x, hx, hx'⟩ :=
      cases_of_map_eq (outline_of_bare_eq h c.target)
    · rw [hps, hps']
      cases hf : d.finished c with
      | error x => exact Or.inl ⟨x, rfl, rfl⟩
      | ok f =>
        obtain ⟨htarget, hconditions⟩ := finished_keeps hf
        rw [nodes_opened hc] at hconditions
        have hns := FilterEntry.isGroupBy_planList hps
        have hns' := FilterEntry.isGroupBy_planList hps'
        refine Or.inr ⟨_, _, ps, ps', rfl, rfl, f.sameFrame_inFront hns hns', ?_, ?_, ho,
          f.conditions_inFront hconditions hns, f.conditions_inFront hconditions hns'⟩
        · rw [Criteria.target_inFront, htarget, hps]
        · rw [Criteria.target_inFront, htarget, hps']
    · rw [hx, hx']
      exact Or.inl ⟨x, rfl, rfl⟩

end QueryDocument

def searchDocument (name least : Value) (names : List Value) : QueryDocument :=
  { entity := "User"
    filters := [.condition .and ⟨"name", .like name⟩,
      .group .or [.condition .or ⟨"id", .between least (.int 9)⟩,
        .condition .and ⟨"name", .among true names⟩]]
    groupBy := some "name"
    orderBy := some ⟨"id", .desc⟩ }

theorem build_searchDocument :
    (searchDocument (.text "a") (.int 1) [.text "b"]).bare =
        (searchDocument .null .null [.text "c", .null]).bare ∧
      ∃ c c', (searchDocument (.text "a") (.int 1) [.text "b"]).build
          (Registry.ofList [userEntity]).resolve = .ok c ∧
        (searchDocument .null .null [.text "c", .null]).build
          (Registry.ofList [userEntity]).resolve = .ok c' ∧
        c.SameFrame c' ∧ conditions c.nodes =
          [.scalar ⟨.and, .like, "name"⟩ (.text "%a%"),
            .grouped .or [.range ⟨.or, .between, "id"⟩ (.int 1) (.int 9),
              .list ⟨.and, .notAmong, "name"⟩ [.text "b"]]] ∧
        conditions c'.nodes = [.grouped .or [.list ⟨.and, .notAmong, "name"⟩ [.text "c"]]] := by
  have hbare : (searchDocument (.text "a") (.int 1) [.text "b"]).bare =
      (searchDocument .null .null [.text "c", .null]).bare := rfl
  refine ⟨hbare, ?_⟩
  obtain ⟨x, hx, -⟩ | ⟨c, c', -, -, hc, hc', hsame, -⟩ :=
    QueryDocument.build_of_bare_eq hbare (Registry.ofList [userEntity]).resolve
  · cases hx
  · obtain rfl := Except.ok.inj hc
    obtain rfl := Except.ok.inj hc'
    exact ⟨_, _, hc, hc', hsame, rfl, rfl⟩

end FilterSql
