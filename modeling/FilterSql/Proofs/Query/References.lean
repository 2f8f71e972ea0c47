import FilterSql.Proofs.Query.Mentioned
import FilterSql.Proofs.Query.Placeholders
import FilterSql.Proofs.Query.Places
import FilterSql.Proofs.Query.WrittenProjections
/-!
# References in statements

The keys of conditions, the property to sort by and the references of projections all stand alone in
the filled statement: each is resolved by itself, between what the texts in front of it and behind
it resolve to. In a text about one entity a qualified one becomes a column only if it is spelled with
the entity's own name; in a text with a source it does so under every name that the provider knows.
-/
namespace FilterSql

open Sql Text Node

theorem Sql.Opens.replace {s : List Char} (h : Opens s) (new : List Char) :
    Opens (Text.replace projectionTag.toList new s) ∧ ∀ t,
      Text.replace projectionTag.toList new (s ++ t) =
        Text.replace projectionTag.toList new s ++ Text.replace projectionTag.toList new t := by
  have hcut {u v : List Char} {m : Char} (hm : m ∉ projectionTag.toList) (hv : '$' ∉ m :: v)
      (t : List Char) : Text.replace projectionTag.toList new (u ++ m :: v ++ t) =
        Text.replace projectionTag.toList new u ++ m :: v ++
          Text.replace projectionTag.toList new t := by
    rw [List.append_assoc, List.cons_append, replace_append_stop hm, ← List.cons_append,
      projectionTag_cons, replace_append_of_head hv, List.append_assoc]
  have hself {u v : List Char} {m : Char} (hm : m ∉ projectionTag.toList) (hv : '$' ∉ m :: v) :
      Text.replace projectionTag.toList new (u ++ m :: v) =
        Text.replace projectionTag.toList new u ++ m :: v := by
    simpa using hcut hm hv []
  cases h with
  | bracket u =>
    rw [hself (by decide) (by decide)]
    exact ⟨.bracket _, hcut (by decide) (by decide)⟩
  | comma u =>
    rw [hself (by decide) (by decide)]
    exact ⟨.comma _, hcut (by decide) (by decide)⟩
  | @word u w hw has =>
    have hdollar : '$' ∉ ' ' :: (w ++ [' ']) := by
      have hname : '$' ∉ w := fun hc => absurd (isNameChar_of_mem hw hc) (by decide)
      simpa using hname
    rw [hself (by decide) hdollar]
    exact ⟨.word _ hw has, hcut (by decide) hdollar⟩

theorem Node.exists_sql_eq_key {n : Node} (hr : n.renders = true) (hleaf : n.children? = none) :
    ∃ t, n.sql = n.key ++ (" " ++ t) := by
  cases n with
  | scalar l v => exact ⟨l.predicate.sql ++ " ?", by simp only [Node.sql, String.append_assoc]; rfl⟩
  | range l a b =>
    exact ⟨l.predicate.sql ++ " ? AND ?", by simp only [Node.sql, String.append_assoc]; rfl⟩
  | list l vs =>
    exact ⟨l.predicate.sql ++ " (" ++ listLiterals vs ++ ")",
      by simp only [Node.sql, String.append_assoc]; rfl⟩
  | group l ns => cases hleaf
  | marker l => cases hr

theorem exists_intercalate_eq (sep : String) {s : String} {ss : List String} (hs : s ∈ ss) :
    ∃ a b, sep.intercalate ss = a ++ s ++ b ∧ (a = "" ∨ ∃ u, a = u ++ sep) ∧
      (b = "" ∨ ∃ u, b = sep ++ u) := by
  induction ss with
  | nil => cases hs
  | cons r ss ih =>
    cases ss with
    | nil =>
      obtain rfl := List.mem_singleton.1 hs
      exact ⟨"", "", by simp, .inl rfl, .inl rfl⟩
    | cons t ss =>
      rw [String.intercalate_cons_of_ne_nil (List.cons_ne_nil t ss)]
      rcases List.mem_cons.1 hs with rfl | hs
      · exact ⟨"", sep ++ sep.intercalate (t :: ss), by simp [String.append_assoc], .inl rfl,
          .inr ⟨_, rfl⟩⟩
      · obtain ⟨a, b, hab, ha, hb⟩ := ih hs
        refine ⟨r ++ sep ++ a, b, by simp only [hab, String.append_assoc], .inr ?_, hb⟩
        rcases ha with rfl | ⟨u, rfl⟩
        · exact ⟨r, by simp⟩
        · exact ⟨r ++ sep ++ u, by simp only [String.append_assoc]⟩

/-- In front of its reference an expression has nothing or a bracket, and behind it no path goes
on. -/
theorem Expression.exists_sql_eq_reference (x : Expression) :
    ∃ a b, x.sql = a ++ x.reference ++ b ∧ (a = "" ∨ ∃ u, a = u ++ "(") ∧
      ∀ r, continuesPath r = false → continuesPath (b.toList ++ r) = false := by
  rw [sql_eq]
  cases x.function with
  | none => exact ⟨"", x.aliasClause, by simp, .inl rfl, fun r => continuesPath_aliasClause⟩
  | some f =>
    refine ⟨f ++ "(", ")" ++ x.aliasClause, by simp only [String.append_assoc], .inr ⟨f, rfl⟩,
      fun r _ => ?_⟩
    rw [String.toList_append]
    rfl

namespace Criteria

variable {c : Criteria} {p : String}

theorem Unmarked.withSource {m : Char → Bool} (h : c.Unmarked m) {script : String}
    (hs : Lacks m script.toList) : (c.withSource script).Unmarked m := by
  refine ⟨h.keys, h.orderBy, fun s hscript => ?_, h.projections, h.table⟩
  obtain rfl := Option.some.inj hscript
  exact hs

/-- The references of a criteria: the keys of its written conditions, the property to sort by and
those in its projections. -/
inductive HasReference (c : Criteria) : String → Prop
  | key {n : Node} (hn : n ∈ writtenLeaves (conditions c.nodes)) : HasReference c n.key
  | orderBy {o : OrderBy} (ho : c.orderBy = some o) : HasReference c o.property
  | projection {x : Expression} (hx : x.sql ∈ c.projectionList) : HasReference c x.reference

theorem standsAlone_of_tail (hselect : Lacks isQuote c.selectList.toList) {a b : String}
    (htail : c.tail = a ++ p ++ (" " ++ b)) (ha : Balanced a.toList) (ho : Opens a.toList)
    (hp : Lacks isQuote p.toList) : StandsAlone p (fillTemplate c.template c.selectList) := by
  have hkey : Unreplaced projectionTag.toList c.selectList.toList (p ++ " ") := by
    refine unreplaced_of_not_mem fun hc => ?_
    rw [String.toList_append, List.mem_append] at hc
    exact hc.elim (fun hc => absurd (hp _ hc) (by decide)) (by decide)
  have hquote : '\'' ∉ c.selectList.toList := fun hc => absurd (hselect _ hc) (by decide)
  obtain ⟨hopens, hsplit⟩ := ho.replace c.selectList.toList
  have hbalanced : Balanced (replace projectionTag.toList c.selectList.toList a.toList) :=
    (wellQuoted_replace_projectionTag ⟨ha, rfl⟩ hquote).toBalanced
  refine ⟨"SELECT " ++ c.selectList ++
      String.ofList (replace projectionTag.toList c.selectList.toList a.toList),
    " " ++ String.ofList (replace projectionTag.toList c.selectList.toList b.toList), ?_, ?_, ?_⟩
  · have htext : c.tail.toList = a.toList ++ ((p ++ " ").toList ++ b.toList) := by
      simp only [htail, String.toList_append, List.append_assoc]
    apply String.toList_inj.1
    rw [toList_fillTemplate, htext, hsplit, hkey]
    simp only [String.toList_append, String.toList_ofList, List.append_assoc]
  · have hfilled {s : List Char} : (String.ofList s).toList = s := String.toList_ofList
    have hfront : Balanced ("SELECT " ++ c.selectList).toList := by
      rw [String.toList_append]
      exact .append (.of_lacks (by decide)) (.of_lacks hselect)
    rw [String.toList_append, hfilled]
    exact (hopens.append_left _).frees (hfront.append hbalanced)
  · rw [String.toList_append]
    rfl

theorem standsAlone_key (hc : c.Unmarked isQuote) (hl : c.HasUniformLists) {n : Node}
    (hn : n ∈ writtenLeaves (conditions c.nodes)) :
    StandsAlone n.key (fillTemplate c.template c.selectList) := by
  obtain ⟨hn, hwritten⟩ := List.mem_filter.1 hn
  rw [Bool.and_eq_true, Option.isNone_iff_eq_none] at hwritten
  obtain ⟨a, b, htail, ha, ho⟩ := behind_tail hc hl hn hwritten.1
  obtain ⟨t, ht⟩ := exists_sql_eq_key hwritten.1 hwritten.2
  refine standsAlone_of_tail (b := t ++ b) (hc.selectList fun _ => isMark_of_isQuote) ?_ ha ho
    (hc.keys n (mem_subnodesList_of_conditions hn))
  rw [htail, ht]
  simp only [String.append_assoc]

theorem standsAlone_orderBy (hc : c.Unmarked isQuote) (hl : c.HasUniformLists) {o : OrderBy}
    (ho : c.orderBy = some o) :
    StandsAlone o.property (fillTemplate c.template c.selectList) := by
  refine standsAlone_of_tail (a := c.fromClause ++ whereClause c.nodes ++ " ORDER BY ")
    (b := o.direction.sql) (hc.selectList fun _ => isMark_of_isQuote) ?_ ?_ ?_ (hc.orderBy o ho)
  · rw [tail, orderClause, ho]
    simp only [String.append_assoc]
  · rw [String.toList_append, String.toList_append]
    exact ((Balanced.of_lacks (hc.fromClause fun _ => isMark_of_isQuote)).append
      (tally_whereClause isTally_balanced hc hl)).append (.of_lacks (by decide))
  · rw [String.toList_append]
    exact (Opens.word " ORDER".toList (w := "BY".toList) (by decide) (by decide)).append_left _

theorem standsAlone_projection (hc : c.Unmarked isQuote) {x : Expression}
    (hx : x.sql ∈ c.projectionList) :
    StandsAlone x.reference (fillTemplate c.template c.selectList) := by
  have hlist : c.selectList = ", ".intercalate c.projectionList := by
    rw [selectList, List.isEmpty_eq_false_iff.2 (List.ne_nil_of_mem hx), if_neg Bool.false_ne_true]
  obtain ⟨a, b, hab, ha, hb⟩ := exists_intercalate_eq ", " hx
  obtain ⟨u, v, huv, hu, hv⟩ := x.exists_sql_eq_reference
  obtain ⟨t, ht⟩ := c.exists_tail_eq
  have hselect : c.selectList = a ++ u ++ (x.reference ++ v ++ b) := by
    rw [hlist, hab, huv]
    simp only [String.append_assoc]
  have hfrom : Unreplaced projectionTag.toList c.selectList.toList " FROM " :=
    unreplaced_of_not_mem (by decide)
  have hlacks : Lacks isQuote (a ++ u).toList := fun m hm => by
    refine hc.selectList (fun _ => isMark_of_isQuote) m ?_
    rw [hselect, String.toList_append]
    exact List.mem_append_left _ hm
  have hfront : Balanced ("SELECT " ++ a ++ u).toList := by
    rw [String.append_assoc, String.toList_append]
    exact .of_lacks (.append (by decide) hlacks)
  refine ⟨"SELECT " ++ a ++ u, v ++ b ++ " FROM " ++
    String.ofList (replace projectionTag.toList c.selectList.toList t), ?_, ?_, ?_⟩
  · apply String.toList_inj.1
    rw [toList_fillTemplate, ht, hfrom, hselect]
    simp only [String.toList_append, String.toList_ofList, List.append_assoc]
  · rcases hu with rfl | ⟨u, rfl⟩
    · rcases ha with rfl | ⟨a, rfl⟩
      · exact .word (w := "SELECT".toList) (by decide) (by decide)
      · refine Opens.frees ?_ hfront
        simp only [String.append_empty, ← String.append_assoc, String.toList_append]
        exact .comma _
    · refine Opens.frees ?_ hfront
      simp only [← String.append_assoc, String.toList_append]
      exact .bracket _
  · simp only [String.toList_append, List.append_assoc]
    refine hv _ ?_
    rcases hb with rfl | ⟨b, rfl⟩
    · rfl
    · rw [String.toList_append]
      rfl

theorem HasReference.standsAlone (h : c.HasReference p) (hc : c.Unmarked isQuote)
    (hl : c.HasUniformLists) : StandsAlone p (fillTemplate c.template c.selectList) := by
  cases h with
  | key hn => exact standsAlone_key hc hl hn
  | orderBy ho => exact standsAlone_orderBy hc hl ho
  | projection hx => exact standsAlone_projection hc hx

/-- A qualified reference is compiled between what the texts around it resolve to. Without a source
it becomes a column if it is spelled with the entity's own name, and stays as it is under every other
name, whatever the provider makes of it. With a source it becomes a column under every name that the
provider knows. -/
theorem compile_reference (provider : Provider) {name : String} (hc : c.Unmarked isQuote)
    (hl : c.HasUniformLists) (hname : isName name.toList = true) (hp : isName p.toList = true)
    (href : c.HasReference (name ++ "." ++ p)) :
    ∃ before after,
      fillTemplate c.template c.selectList = before ++ (name ++ "." ++ p) ++ after ∧
      (∀ e, c.source = none → provider c.entity.name = .ok e →
        ∃ q, c.compile provider = .ok q ∧ q.data = e.resolve before ++
          (if name = e.name then e.table ++ "." ++ e.columnOf p else name ++ "." ++ p) ++
            e.resolve after) ∧
      ∀ script, c.source = some script →
        (∀ n k, Mentions (tokenize (fillTemplate c.template c.selectList)) n k →
          ∃ e, provider n = .ok e) →
        ∃ q e r, c.compile provider = .ok q ∧ provider name = .ok e ∧
          Resolution.ofSql provider (fillTemplate c.template c.selectList) = .ok r ∧
          q.data = r.resolve before ++ (e.table ++ "." ++ e.columnOf p) ++ r.resolve after := by
  have hpath : IsPath (name ++ "." ++ p).toList := by
    rw [String.toList_append, String.toList_append, List.append_assoc]
    exact .qualified hname (.name hp)
  have has : isAsWord (name ++ "." ++ p).toList = false := isAsWord_of_point (by simp)
  have hpoint := not_mem_of_isName hname
  obtain ⟨before, after, hfilled, hbefore, hafter⟩ := href.standsAlone hc hl
  refine ⟨before, after, hfilled, fun e hs he => ?_, fun script hs hknown => ?_⟩
  · obtain ⟨q, hq, hdata⟩ := exists_compile_data hs he
    refine ⟨q, hq, ?_⟩
    rw [hdata, hfilled, Entity.resolve, hbefore.resolve hpath has hafter,
      Entity.replacement?_qualified hpoint]
    split <;> rfl
  · obtain ⟨r, hr⟩ := Resolution.exists_ofSql hknown
    have hmention : Mentions (tokenize (fillTemplate c.template c.selectList)) name p := by
      rw [hfilled]
      exact ⟨_, hbefore.mem_tokenize hpath hafter, rfl, String.ofList_toList, hpoint,
        not_mem_of_isName hp⟩
    obtain ⟨e, he⟩ := hknown name p hmention
    refine ⟨_, e, r, by rw [compile_source hs, hr]; rfl, he, hr, ?_⟩
    dsimp only
    rw [hfilled, Resolution.resolve, hbefore.resolve hpath has hafter,
      (Resolution.records_of_ofSql hr).replacement?_qualified hmention he]
    rfl

end Criteria

def spelledOrders (name : String) : Criteria :=
  ((Criteria.fetching shopOrder).runAll
    [.select (name ++ ".id"), .step (.filter .and ⟨name ++ ".id", .compare .eq (.int 7)⟩),
      .orderBy (name ++ ".id") .asc]).1

theorem spelledOrders_nodes :
    (spelledOrders "order").nodes = [.scalar ⟨.and, .eq, "order.id"⟩ (.int 7)] := rfl

theorem spelledOrders_unmarked : (spelledOrders "order").Unmarked isQuote := by
  refine ⟨?_, fun o ho => ?_, nofun, ?_, by decide⟩
  · rw [spelledOrders_nodes]
    simp only [subnodesList, subnodes, List.append_nil, List.forall_mem_singleton]
    decide
  · obtain rfl := Option.some.inj ho
    decide
  · have hlist : (spelledOrders "order").projectionList = ["order.id"] := rfl
    rw [hlist, List.forall_mem_singleton]
    decide

theorem spelledOrders_lists : (spelledOrders "order").HasUniformLists := by
  intro l vs h
  rw [spelledOrders_nodes] at h
  simp [subnodesList, subnodes] at h

theorem compile_spelledOrders :
    (∃ (q : Query) (before after : String), (spelledOrders "order").compile shop = .ok q ∧
      q.data = shopOrder.resolve before ++ "order.id" ++ shopOrder.resolve after) ∧
    ∃ (q : Query) (r : Resolution) (before after : String),
      ((spelledOrders "order").withSource "order").compile shop = .ok q ∧
        q.data = r.resolve before ++ "t_order.order_id" ++ r.resolve after := by
  have hcolumn : shopOrder.table ++ "." ++ shopOrder.columnOf "id" = "t_order.order_id" := by
    decide +kernel
  have hkey : (⟨"order.id", .asc⟩ : OrderBy).property = "order" ++ "." ++ "id" := by decide
  have href : (spelledOrders "order").HasReference ("order" ++ "." ++ "id") := hkey ▸ .orderBy rfl
  have href' : ((spelledOrders "order").withSource "order").HasReference ("order" ++ "." ++ "id") :=
    hkey ▸ .orderBy rfl
  have hunmarked : ((spelledOrders "order").withSource "order").Unmarked isQuote :=
    spelledOrders_unmarked.withSource (by decide)
  have hpaths : ∀ x ∈ qualifiedPaths (fillTemplate
      ((spelledOrders "order").withSource "order").template
      ((spelledOrders "order").withSource "order").selectList), x.1 = "order" := by decide +kernel
  constructor
  · obtain ⟨before, after, -, hsingle, -⟩ := Criteria.compile_reference shop spelledOrders_unmarked
      spelledOrders_lists (by decide) (by decide) href
    obtain ⟨q, hq, hdata⟩ := hsingle shopOrder rfl rfl
    exact ⟨q, before, after, hq, hdata⟩
  · obtain ⟨before, after, -, -, hsourced⟩ := Criteria.compile_reference shop hunmarked
      spelledOrders_lists (by decide) (by decide) href'
    obtain ⟨q, e, r, hq, he, -, hdata⟩ := hsourced "order" rfl fun n k hm =>
      ⟨shopOrder, (congrArg shop (hpaths _ (mentions_iff.1 hm))).trans rfl⟩
    obtain rfl : shopOrder = e := Except.ok.inj he
    exact ⟨q, r, before, after, hq, hcolumn ▸ hdata⟩

def shopData (c : Criteria) : Option String := (c.compile shop).toOption.map (·.data)

/-- The registry knows the entity under both names, but without a source only its own is replaced by
the table. -/
theorem not_writesColumns_spelledOrders :
    shop "order" = .ok shopOrder ∧
    shopData (spelledOrders "Order") =
      some ("SELECT t_order.order_id FROM t_order WHERE t_order.order_id = ? " ++
        "ORDER BY t_order.order_id ASC") ∧
    shopData (spelledOrders "order") =
      some "SELECT order.id FROM t_order WHERE order.id = ? ORDER BY order.id ASC" ∧
    shopData ((spelledOrders "order").withSource "order") =
      some ("SELECT t_order.order_id FROM t_order WHERE t_order.order_id = ? " ++
        "ORDER BY t_order.order_id ASC") := by
  refine ⟨rfl, ?_, ?_, ?_⟩ <;> decide +kernel

end FilterSql
