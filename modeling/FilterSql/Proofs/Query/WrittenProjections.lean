import FilterSql.Proofs.Query.OneEntity
import FilterSql.Proofs.Query.Written
/-!
# Projections as they are written

In a select list about one entity every reference becomes a column behind the table, and every alias
stays. A function is a name like any other: it stays as it is written only if it is neither the
entity's name nor a property of another column.
-/
namespace FilterSql

open Sql Text

/-- In front of every text that does not go on with a path, `s` becomes `t`. -/
def ResolvesApart (f : String → Option String) (s t : String) : Prop :=
  ∀ r, continuesPath r = false →
    resolveFrom f false (s.toList ++ r) = t.toList ++ resolveFrom f false r

theorem ResolvesApart.intercalate {α : Type} {f : String → Option String} {xs : List α}
    {s t : α → String} (h : ∀ x ∈ xs, ResolvesApart f (s x) (t x)) :
    ResolvesApart f (", ".intercalate (xs.map s)) (", ".intercalate (xs.map t)) := by
  induction xs with
  | nil => exact fun r _ => by simp
  | cons x xs ih =>
    rw [List.forall_mem_cons] at h
    cases xs with
    | nil => simpa using h.1
    | cons y xs =>
      intro r hr
      have hcomma (u : List Char) : continuesPath (", ".toList ++ u) = false := rfl
      have hne (g : α → String) : (y :: xs).map g ≠ [] := by simp
      rw [List.map_cons (l := y :: xs), List.map_cons (l := y :: xs),
        String.intercalate_cons_of_ne_nil (hne s), String.intercalate_cons_of_ne_nil (hne t)]
      simp only [String.toList_append, List.append_assoc]
      rw [h.1 _ (hcomma _), resolveFrom_plain (by decide), Bool.false_and, ih h.2 r hr]

namespace Expression

/-- An expression in columns: the property as a column behind the table, around it the function as
`rename` writes it, and behind it the alias. -/
def inColumns (e : Entity) (rename : String → String) (x : Expression) : String :=
  (match x.function with
    | some f => rename f ++ "(" ++ (e.table ++ "." ++ e.columnOf x.property) ++ ")"
    | none => e.table ++ "." ++ e.columnOf x.property) ++ x.aliasClause

theorem inColumns_eq_iff {e : Entity} {rename : String → String} {x : Expression} :
    x.inColumns e rename = x.inColumns e id ↔ ∀ f, x.function = some f → rename f = f := by
  rw [inColumns, inColumns]
  cases x.function with
  | none => simp
  | some f => simp [String.append_assoc]

variable {x : Expression} {e : Entity}

theorem resolvesApart_aliasClause (hx : x.IsLexical) (f : String → Option String) :
    ResolvesApart f x.aliasClause x.aliasClause := by
  intro r hr
  rw [aliasClause]
  cases ha : x.aliasName with
  | none => rfl
  | some a =>
    have htext : (" AS " ++ a).toList ++ r =
        [' '] ++ ("AS".toList ++ ([' '] ++ (a.toList ++ r))) := by simp
    have has : isAsWord "AS".toList = true := by decide
    have hblank : [' '].all isBlank = true := by decide
    -- the blank behind `AS` keeps the alias waiting
    rw [htext, resolveFrom_plain (by decide), resolveFrom_path (.name (by decide)) rfl,
      resolveFrom_plain (by decide), resolveFrom_path (.name (hx.aliasName a ha)) hr, has, hblank]
    simp

theorem resolvesApart_reference (hx : x.IsLexical) (hE : isName e.name.toList = true)
    (hentity : x.entity = some e.name) :
    ResolvesApart e.replacement? x.reference (e.table ++ "." ++ e.columnOf x.property) := by
  intro r hr
  have href : x.reference = e.name ++ "." ++ x.property := by rw [reference, hentity]
  have has : isAsWord x.reference.toList = false := isAsWord_of_point (by simp [href])
  rw [resolveFrom_path hx.reference hr, has, replaced, String.ofList_toList, href,
    Entity.replacement?_owned (not_mem_of_isName hE)]
  rfl

theorem resolvesApart_sql (hx : x.IsLexical) (hE : isName e.name.toList = true)
    (hentity : x.entity = some e.name) :
    ResolvesApart e.replacement? x.sql (x.inColumns e e.written) := by
  intro r hr
  have halias := resolvesApart_aliasClause hx e.replacement? r hr
  have href := resolvesApart_reference hx hE hentity
  rw [sql_eq, inColumns]
  cases hf : x.function with
  | none =>
    rw [String.toList_append, String.toList_append, List.append_assoc, List.append_assoc,
      href _ (continuesPath_aliasClause hr), halias]
  | some f =>
    have htext (g s : String) : (g ++ "(" ++ s ++ ")" ++ x.aliasClause).toList ++ r =
        g.toList ++ (['('] ++ (s.toList ++ ([')'] ++ (x.aliasClause.toList ++ r)))) := by simp
    rw [htext, e.resolveFrom_written (hx.function f hf) rfl, resolveFrom_plain (by decide),
      Bool.and_eq_false_iff.2 (.inr (by decide)), href _ rfl, resolveFrom_plain (by decide),
      Bool.false_and, halias]
    simp

end Expression

namespace Criteria

variable {c : Criteria} {provider : Provider} {xs : List Expression}

theorem resolvesApart_selectList (hp : c.projections = some (xs.map Expression.sql))
    (hxs : ∀ x ∈ xs, (∃ s, Expression.parse s = .ok x) ∧ x.entity = some c.entity.name) :
    ResolvesApart c.entity.replacement? c.selectList (if xs.isEmpty then "*" else
      ", ".intercalate (xs.map (Expression.inColumns c.entity c.entity.written))) := by
  have hlist : c.selectList =
      if xs.isEmpty then "*" else ", ".intercalate (xs.map Expression.sql) := by
    rw [selectList, projectionList, hp, Option.getD_some, List.isEmpty_map]
  rw [hlist]
  split
  · exact fun r _ => resolveFrom_plain (by decide) r
  · refine .intercalate fun x hx => ?_
    obtain ⟨⟨s, hs⟩, hentity⟩ := hxs x hx
    exact Expression.resolvesApart_sql (Expression.isLexical_of_parse hs)
      (Expression.isName_entity_of_parse hs hentity) hentity

/-- The data query of expressions about the entity has them in columns, each function as a name is
written. So it stands there as the expression has it unless it is the entity's name or a property of
another column. -/
theorem compile_expressions (hs : c.source = none)
    (hp : c.projections = some (xs.map Expression.sql))
    (hxs : ∀ x ∈ xs, (∃ s, Expression.parse s = .ok x) ∧ x.entity = some c.entity.name)
    (he : provider c.entity.name = .ok c.entity) (hr : isReserved c.entity.name = false) :
    (∃ (q : Query) (r : String), c.compile provider = .ok q ∧ q.data = "SELECT " ++
        (if xs.isEmpty then "*" else
          ", ".intercalate (xs.map (Expression.inColumns c.entity c.entity.written))) ++
        " FROM " ++ r) ∧
      ∀ x : Expression, x.inColumns c.entity c.entity.written = x.inColumns c.entity id ↔
        ∀ f, x.function = some f → (f = c.entity.name → c.entity.table = f) ∧
          (f ≠ c.entity.name → isReserved f = true ∨ c.entity.columnOf f = f) := by
  refine ⟨?_, fun x => ?_⟩
  · have hspared {w : String} (hw : isWord w = true) : c.entity.replacement? w = none :=
      c.entity.replacement?_word hw fun h => by rw [h, (isWord_iff.1 hw).2.1] at hr; cases hr
    obtain ⟨q, hq, hdata⟩ := exists_compile_data hs he
    obtain ⟨t, ht⟩ := c.exists_tail_eq
    have hfilled : (fillTemplate c.template c.selectList).toList = "SELECT".toList ++ ' ' ::
        (c.selectList.toList ++ (" FROM ".toList ++
          replace projectionTag.toList c.selectList.toList t)) := by
      rw [toList_fillTemplate, ht, unreplaced_of_not_mem (s := " FROM ") (by decide)]
      rfl
    refine ⟨q, String.ofList (resolveFrom c.entity.replacement? false
      (replace projectionTag.toList c.selectList.toList t)), hq, String.toList_inj.1 ?_⟩
    rw [hdata, Entity.resolve, toList_resolve, hfilled,
      resolveFrom_word_blank (by decide) (hspared (by decide)),
      resolvesApart_selectList hp hxs _ rfl, resolveFrom_from (hspared (by decide))]
    simp
  · rw [Expression.inColumns_eq_iff]
    refine forall₂_congr fun f _ => c.entity.written_eq_self_iff.trans
      (or_iff_right_of_imp fun has => ?_)
    -- the word `AS` is no name of the entity
    have hword := isReserved_of_isAsWord has
    have hne : f ≠ c.entity.name := ne_of_true_of_false hword hr
    exact ⟨fun h => absurd h hne, fun _ => .inl hword⟩

end Criteria

/-- An entity with a property that is named like a function. -/
def saleEntity : Entity :=
  { name := "Sale", table := "t_sale"
    fields := .ofList [("amount", ⟨"amount_due", .int, false⟩),
      ("sum", ⟨"sum_total", .int, false⟩)] }

def largestAmount : Expression := ⟨some "max", some "Sale", "amount", some "most"⟩

def saleCriteria : Criteria :=
  { Criteria.fetching saleEntity with
    projections := some ([largestAmount, ⟨none, some "Sale", "sum", none⟩].map Expression.sql) }

theorem compile_saleCriteria :
    (∃ (q : Query) (r : String),
      saleCriteria.compile (Registry.ofList [saleEntity]).resolve = .ok q ∧
        q.data = "SELECT max(t_sale.amount_due) AS most, t_sale.sum_total FROM " ++ r) ∧
      largestAmount.inColumns saleEntity saleEntity.written =
        largestAmount.inColumns saleEntity id := by
  have he : (Registry.ofList [saleEntity]).resolve saleCriteria.entity.name =
      .ok saleCriteria.entity := rfl
  have haccepted : ∀ x ∈ [largestAmount, ⟨none, some "Sale", "sum", none⟩],
      (∃ s, Expression.parse s = .ok x) ∧ x.entity = some saleCriteria.entity.name := by
    simp only [List.forall_mem_cons]
    exact ⟨⟨⟨"max[Sale->amount].as.most", by rfl⟩, rfl⟩, ⟨⟨"Sale.sum", by rfl⟩, rfl⟩, nofun⟩
  obtain ⟨⟨q, r, hq, hdata⟩, hwritten⟩ :=
    Criteria.compile_expressions rfl rfl haccepted he (by decide)
  refine ⟨⟨q, r, hq, hdata.trans (congrArg (· ++ r) (by decide +kernel))⟩,
    (hwritten largestAmount).2 ?_⟩
  rintro f ⟨⟩
  exact ⟨by decide, fun _ => .inr (by decide +kernel)⟩

def projectedData (expressions : List String) : Option String := do
  let c ← ((Criteria.fetching saleEntity).applyAll (expressions.map .selectExpression)).toOption
  let q ← (c.compile (Registry.ofList [saleEntity]).resolve).toOption
  return q.data

/-- A function that is named like a property becomes its column, and one that is named like the
entity becomes the table. -/
theorem not_keepsFunctions_saleEntity :
    projectedData ["sum[Sale->amount].as.total"] =
        some "SELECT sum_total(t_sale.amount_due) AS total FROM t_sale" ∧
      projectedData ["Sale[Sale.amount]"] =
        some "SELECT t_sale(t_sale.amount_due) FROM t_sale" := by
  decide +kernel

end FilterSql
