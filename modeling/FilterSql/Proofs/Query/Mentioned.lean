import FilterSql.Proofs.Query.Clauses
import FilterSql.Proofs.Query.Entities
import FilterSql.Proofs.Query.GroupedCount
import FilterSql.Proofs.Query.Template
/-!
# What the data query mentions

A criteria with a source knows the entities that stand in its data query in front of a point, and
no others. So an entity's own name is its table where some path of the data query starts with this
very name, and the grouping column, which is not part of the data query, is the declared column only
where the data query happens to have the same path.
-/
namespace FilterSql

open Sql Text

theorem GroupedCount.sql_point (data s : String) {column : String} (hn : '.' ∉ column.toList) :
    sql data (s ++ "." ++ column) = "SELECT COUNT(tc." ++ column ++ ") count FROM (" ++
      String.ofList (inner data.toList) ++ ") tc" := by
  have hpath : (s ++ "." ++ column).toList = s.toList ++ '.' :: column.toList := by
    simp
  have hcolumn : String.ofList column.toList = column := String.ofList_toList
  unfold sql
  rw [hpath, lastName_point _ hn, hcolumn]

theorem resolve_reference (f : String → Option String) {p : String} (hp : IsPath p.toList)
    (ha : isAsWord p.toList = false) : Sql.resolve f p = (f p).getD p := by
  apply String.toList_inj.1
  have hpath : resolveFrom f false (p.toList ++ []) = _ := resolveFrom_path hp rfl
  rw [List.append_nil, resolveFrom_nil, List.append_nil, ha] at hpath
  rw [toList_resolve, hpath, replaced, String.ofList_toList]
  cases f p <;> rfl

namespace Resolution

variable {provider : Provider} {ts : List Token} {r : Resolution} {name p : String}

theorem Records.replacement?_qualified (h : r.Records provider ts) {e : Entity}
    (hm : Mentions ts name p) (he : provider name = .ok e) :
    r.replacement? (name ++ "." ++ p) = some (e.table ++ "." ++ e.columnOf p) := by
  rw [replacement?, if_pos (by simp)]
  exact (h.names _ _).2 ⟨name, p, e, hm, he, rfl, rfl⟩

theorem Records.replacement?_unmentioned (h : r.Records provider ts) (hn : '.' ∉ name.toList)
    (hm : ¬ Mentions ts name p) : r.replacement? (name ++ "." ++ p) = none := by
  rw [replacement?, if_pos (by simp), Option.eq_none_iff_forall_ne_some]
  intro s hs
  obtain ⟨name', p', e, hm', -, hk, -⟩ := (h.names _ _).1 hs
  obtain ⟨rfl, rfl⟩ := qualified_inj hn hm'.point hk
  exact hm hm'

end Resolution

namespace Criteria

variable {c : Criteria} {provider : Provider} {q : Query} {script : String}

theorem compile_source (hs : c.source = some script) :
    c.compile provider =
      (Resolution.ofSql provider (fillTemplate c.template c.selectList)).map fun r =>
        { count := match Node.groupingKey? c.nodes with
            | some key => GroupedCount.sql (r.resolve (fillTemplate c.template c.selectList))
                (r.resolve key)
            | none => r.resolve (fillTemplate c.template "COUNT(*) count")
          data := r.resolve (fillTemplate c.template c.selectList)
          template := r.resolve c.template
          binds := Node.bindsList (Node.conditions c.nodes)
          names := some r.names } := by
  rw [compile, resolver, hs]
  cases Resolution.ofSql provider (fillTemplate c.template c.selectList) <;> rfl

/-- The entities of the data query have to be known for a criteria to be compiled, and nothing else
has. Its grouping column is the declared one if the data query has the same path. If not, it is the
property as it was given, of whatever entity. -/
theorem compile_groupingColumn (hs : c.source = some script) {entity property : String}
    (he : isName entity.toList = true) (hp : isName property.toList = true)
    (hkey : Node.groupingKey? c.nodes = some (entity ++ "." ++ property)) :
    ((∃ q, c.compile provider = .ok q) ↔
      ∀ name p, Mentions (tokenize (fillTemplate c.template c.selectList)) name p →
        ∃ e, provider name = .ok e) ∧
    (∀ x, c.compile provider = .error x ↔
      Resolution.FailsFirst provider (tokenize (fillTemplate c.template c.selectList)) x) ∧
    ∀ q, c.compile provider = .ok q →
      (∀ e, Mentions (tokenize (fillTemplate c.template c.selectList)) entity property →
        provider entity = .ok e → isName (e.columnOf property).toList = true →
        q.count = "SELECT COUNT(tc." ++ e.columnOf property ++ ") count FROM (" ++
          String.ofList (GroupedCount.inner q.data.toList) ++ ") tc") ∧
      (¬ Mentions (tokenize (fillTemplate c.template c.selectList)) entity property →
        q.count = "SELECT COUNT(tc." ++ property ++ ") count FROM (" ++
          String.ofList (GroupedCount.inner q.data.toList) ++ ") tc") := by
  have hpath : IsPath (entity ++ "." ++ property).toList := by
    rw [String.toList_append, String.toList_append, List.append_assoc]
    exact .qualified he (.name hp)
  have hpoint : isAsWord (entity ++ "." ++ property).toList = false :=
    isAsWord_of_point (by simp)
  rw [compile_source hs, hkey]
  refine ⟨?_, fun x => ?_, fun q hq => ?_⟩
  · rw [← (Resolution.ofSql_exact provider _).1]
    cases Resolution.ofSql provider (fillTemplate c.template c.selectList) with
    | ok r => exact iff_of_true ⟨_, rfl⟩ ⟨r, rfl⟩
    | error x => exact iff_of_false nofun nofun
  · rw [← (Resolution.ofSql_exact provider _).2.1]
    cases Resolution.ofSql provider (fillTemplate c.template c.selectList) with
    | ok r => exact iff_of_false nofun nofun
    | error y =>
      exact ⟨fun h => congrArg _ (Except.error.inj h), fun h => congrArg _ (Except.error.inj h)⟩
  · obtain ⟨r, hr, rfl⟩ := map_eq_ok hq
    have hrecords := Resolution.records_of_ofSql hr
    refine ⟨fun e hm he' hcolumn => ?_, fun hm => ?_⟩
    · have hcount : r.resolve (entity ++ "." ++ property) =
          e.table ++ "." ++ e.columnOf property := by
        rw [Resolution.resolve, resolve_reference _ hpath hpoint,
          hrecords.replacement?_qualified hm he']
        rfl
      dsimp only
      rw [hcount, GroupedCount.sql_point _ _ (not_mem_of_isName hcolumn)]
    · have hcount : r.resolve (entity ++ "." ++ property) = entity ++ "." ++ property := by
        rw [Resolution.resolve, resolve_reference _ hpath hpoint,
          hrecords.replacement?_unmentioned (not_mem_of_isName he) hm]
        rfl
      dsimp only
      rw [hcount, GroupedCount.sql_point _ _ (not_mem_of_isName hp)]

theorem exists_filled_source (hs : c.source = some script) (selectList : String) :
    ∃ rest, fillTemplate c.template selectList =
      "SELECT " ++ selectList ++ " FROM " ++ fillTemplate script selectList ++ rest := by
  have hfrom : Unreplaced projectionTag.toList selectList.toList " FROM " :=
    unreplaced_of_not_mem (by decide)
  have hfilled := toList_fillTemplate c selectList
  rw [toList_tail, hs, hfrom] at hfilled
  obtain ⟨rest, hrest⟩ : ∃ rest, replace projectionTag.toList selectList.toList
      (script.toList ++ (Node.whereClause c.nodes ++ c.orderClause).toList) =
        replace projectionTag.toList selectList.toList script.toList ++ rest := by
    rcases c.tail_cases with hnil | ⟨w, -, t, hblank⟩
    · rw [hnil, String.toList_empty, List.append_nil]
      exact ⟨[], (List.append_nil _).symm⟩
    · rw [hblank, String.toList_append]
      exact ⟨_, replace_append_stop (m := ' ') (by decide) _ _⟩
  refine ⟨String.ofList rest, String.toList_inj.1 ?_⟩
  rw [hfilled, Option.getD_some, hrest, fillTemplate]
  simp only [String.toList_append, String.toList_ofList, List.append_assoc]

/-- In the data query, the source in it included, a name that is no alias is the table of an entity
if some path of the data query starts with the same name. If none does, it stays, whether or not
there is such an entity. -/
theorem compile_bareName (hs : c.source = some script) (h : c.compile provider = .ok q) :
    (∃ rest, fillTemplate c.template c.selectList = "SELECT " ++ c.selectList ++ " FROM " ++
      fillTemplate script c.selectList ++ rest) ∧
    ∃ r, Resolution.ofSql provider (fillTemplate c.template c.selectList) = .ok r ∧
      ∀ before t after,
        tokenize (fillTemplate c.template c.selectList) = before ++ t :: after →
        t.kind = .path → '.' ∉ t.chars → t.isAs = false → behindAs before.reverse = false →
        ∃ written : String,
          q.data.toList = resolveTokens r.replacement? false before ++ (written.toList ++
            resolveTokens r.replacement? false after) ∧
          (∀ p e, Mentions (tokenize (fillTemplate c.template c.selectList)) t.text p →
            provider t.text = .ok e → written = e.table) ∧
          ((∀ p, ¬ Mentions (tokenize (fillTemplate c.template c.selectList)) t.text p) →
            written = t.text) := by
  rw [compile_source hs] at h
  obtain ⟨r, hr, rfl⟩ := map_eq_ok h
  have hrecords := Resolution.records_of_ofSql hr
  refine ⟨exists_filled_source hs _, r, hr, fun before t after hsplit hk hpoint has hbehind => ?_⟩
  have hreference : t.isReference (aliasedAfter false before) = true := by
    rw [isReference_eq hsplit, hk, hbehind, has]
    rfl
  have hafter : t.awaitsAlias (aliasedAfter false before) = false := by
    rw [Token.awaitsAlias, if_pos hk, has, Bool.and_false]
  have hname : '.' ∉ t.text.toList := by rwa [Token.text, String.toList_ofList]
  refine ⟨(r.replacement? t.text).getD t.text, ?_, fun p e hm he => ?_, fun hm => ?_⟩
  · have hdata : (r.resolve (fillTemplate c.template c.selectList)).toList =
        resolveTokens r.replacement? false (before ++ t :: after) := by
      rw [Resolution.resolve, toList_resolve, resolveFrom, ← hsplit, tokenize]
    have hchars : (replaceReference r.replacement? (true, t)).chars =
        ((r.replacement? t.text).getD t.text).toList := by
      rw [← Resolution.text_replaceReference, Token.text, String.toList_ofList]
    dsimp only
    rw [hdata, resolveTokens_append, resolveTokens_cons, hreference, hafter, hchars]
  · rw [Resolution.replacement?_name hname, (hrecords.entities _ e).2 ⟨⟨p, hm⟩, he⟩]
    rfl
  · rw [hrecords.replacement?_eq_none hname hm]
    rfl

end Criteria

def shopOrder : Entity :=
  { name := "Order", table := "t_order"
    fields := .ofList [("id", ⟨"order_id", .int, false⟩),
      ("customerId", ⟨"customer_id", .int, false⟩)] }

def shopCustomer : Entity :=
  { name := "Customer", table := "t_customer"
    fields := .ofList [("id", ⟨"customer_no", .int, false⟩),
      ("name", ⟨"full_name", .text, false⟩)] }

def shop : Provider := (Registry.ofList [shopOrder, shopCustomer]).resolve

def shopCriteria (source : String) (key : Option String) : Criteria :=
  ((Criteria.fetching shopOrder).runAll
    ([.select "Order.id", .source source] ++ key.toList.map .groupBy)).1

def joinedOrders : String := "Order INNER JOIN Customer ON Order.customerId = Customer.id"

theorem compile_joinedOrders : ∃ q q',
    (shopCriteria joinedOrders (some "Customer.id")).compile shop = .ok q ∧
      q.count = "SELECT COUNT(tc." ++ "customer_no" ++ ") count FROM (" ++
        String.ofList (GroupedCount.inner q.data.toList) ++ ") tc" ∧
    (shopCriteria joinedOrders (some "Customer.name")).compile shop = .ok q' ∧
      q'.count = "SELECT COUNT(tc." ++ "name" ++ ") count FROM (" ++
        String.ofList (GroupedCount.inner q'.data.toList) ++ ") tc" := by
  have hcolumn : shopCustomer.columnOf "id" = "customer_no" := by decide +kernel
  obtain ⟨q, hq⟩ := exists_of_isOk
    (r := (shopCriteria joinedOrders (some "Customer.id")).compile shop) (by decide +kernel)
  obtain ⟨q', hq'⟩ := exists_of_isOk
    (r := (shopCriteria joinedOrders (some "Customer.name")).compile shop) (by decide +kernel)
  have hid : Node.groupingKey? (shopCriteria joinedOrders (some "Customer.id")).nodes =
      some ("Customer" ++ "." ++ "id") := rfl
  have hname : Node.groupingKey? (shopCriteria joinedOrders (some "Customer.name")).nodes =
      some ("Customer" ++ "." ++ "name") := rfl
  have hknown := (Criteria.compile_groupingColumn rfl (by decide) (by decide) hid).2.2 q hq
  have hunknown := (Criteria.compile_groupingColumn rfl (by decide) (by decide) hname).2.2 q' hq'
  refine ⟨q, q', hq, ?_, hq', ?_⟩
  · rw [← hcolumn]
    exact hknown.1 shopCustomer (mentions_iff.2 (by decide +kernel)) rfl (by decide +kernel)
  · exact hunknown.2 (mt mentions_iff.1 (by decide +kernel))

/-- The grouping column is not resolved where the data query does not have the same path: neither
is the declared column counted, nor is an entity missed that is not known. -/
theorem not_countsColumn_joinedOrders :
    shop "Customer" = .ok shopCustomer ∧ shopCustomer.columnOf "name" = "full_name" ∧
    ((shopCriteria joinedOrders (some "Customer.name")).compile shop).toOption.map (·.count) =
      some ("SELECT COUNT(tc.name) count FROM (SELECT t_order.order_id FROM t_order " ++
        "INNER JOIN t_customer ON t_order.customer_id = t_customer.customer_no) tc") ∧
    (shop "Invoice").isOk = false ∧
    ((shopCriteria "Order" (some "Invoice.id")).compile shop).toOption.map (·.count) =
      some "SELECT COUNT(tc.id) count FROM (SELECT t_order.order_id FROM t_order) tc" := by
  refine ⟨rfl, ?_, ?_, ?_, ?_⟩ <;> decide +kernel

def crossedOrders : String := "Order CROSS JOIN Customer"

theorem compile_crossedOrders : ∃ q f,
    (shopCriteria crossedOrders none).compile shop = .ok q ∧
      q.data.toList = resolveTokens f false (tokenize "SELECT Order.id FROM ") ++
        ("t_order".toList ++ resolveTokens f false (tokenize " CROSS JOIN Customer")) ∧
      q.data.toList = resolveTokens f false (tokenize "SELECT Order.id FROM Order CROSS JOIN ") ++
        ("Customer".toList ++ resolveTokens f false []) := by
  obtain ⟨q, hq⟩ := exists_of_isOk (r := (shopCriteria crossedOrders none).compile shop)
    (by decide +kernel)
  obtain ⟨-, r, -, hnames⟩ := Criteria.compile_bareName rfl hq
  obtain ⟨w, hdata, hw, -⟩ := hnames (tokenize "SELECT Order.id FROM ") ⟨.path, "Order".toList⟩
    (tokenize " CROSS JOIN Customer") (by decide +kernel) rfl (by decide) (by decide)
    (by decide +kernel)
  obtain ⟨w', hdata', -, hw'⟩ := hnames (tokenize "SELECT Order.id FROM Order CROSS JOIN ")
    ⟨.path, "Customer".toList⟩ [] (by decide +kernel) rfl (by decide) (by decide)
    (by decide +kernel)
  have hpaths : ∀ x ∈ qualifiedPaths (fillTemplate (shopCriteria crossedOrders none).template
      (shopCriteria crossedOrders none).selectList), x.1 ≠ "Customer" := by decide +kernel
  have horder : w = "t_order" := hw "id" shopOrder (mentions_iff.2 (by decide +kernel)) rfl
  have hcustomer : w' = "Customer" := hw' fun p hp => hpaths _ (mentions_iff.1 hp) rfl
  rw [horder] at hdata
  rw [hcustomer] at hdata'
  exact ⟨q, r.replacement?, hq, hdata, hdata'⟩

/-- An entity that is named in the source only is not replaced by its table. -/
theorem not_writesTables_crossedOrders :
    shop "Customer" = .ok shopCustomer ∧ shopCustomer.table = "t_customer" ∧
    ((shopCriteria crossedOrders none).compile shop).toOption.map (·.data) =
      some "SELECT t_order.order_id FROM t_order CROSS JOIN Customer" := by
  refine ⟨rfl, rfl, ?_⟩
  decide +kernel

end FilterSql
