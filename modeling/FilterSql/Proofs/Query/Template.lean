import FilterSql.Query.Compile
import FilterSql.Proofs.Criteria.Run
import FilterSql.Proofs.Sql.Resolving
import FilterSql.Proofs.Text.Replacing
import FilterSql.Proofs.Value.Literal
/-!
# Templates

A statement starts with its select list, and the tag stands for the select list in the template.
Filling it in and resolving the template both leave the front of the statement to be read by itself.
-/
namespace FilterSql

open Sql Text

theorem projectionTag_cons : projectionTag.toList = '$' :: projectionTag.toList.tail := rfl

theorem unreplaced_of_not_mem {new : List Char} {s : String} (h : '$' ∉ s.toList) :
    Unreplaced projectionTag.toList new s := by
  rw [projectionTag_cons]
  exact Unreplaced.of_not_mem h

/-- The select list takes the place of the first tag. -/
theorem toList_fillTemplate (c : Criteria) (selectList : String) :
    (fillTemplate c.template selectList).toList = "SELECT ".toList ++ (selectList.toList ++
      replace projectionTag.toList selectList.toList c.tail.toList) := by
  have hselect : Unreplaced projectionTag.toList selectList.toList "SELECT " :=
    unreplaced_of_not_mem (by decide)
  have hne : projectionTag.toList ≠ [] := by decide
  rw [fillTemplate, String.toList_ofList, Criteria.template, String.toList_append,
    String.toList_append, List.append_assoc, hselect, replace_append_old hne]

theorem tokens_projectionTag (r : List Char) :
    tokens (projectionTag.toList ++ r) = ⟨.tag, projectionTag.toList⟩ :: tokens r := by
  have htag : projectionTag.toList = '$' :: '{' :: ("PROJECTION".toList ++ ['}']) := by decide
  have h : tokens ('$' :: '{' :: ("PROJECTION".toList ++ '}' :: r)) =
      ⟨.tag, '$' :: '{' :: ("PROJECTION".toList ++ ['}'])⟩ :: tokens r :=
    tokens_tag r (by decide)
  rw [htag]
  simpa only [List.cons_append, List.append_assoc, List.nil_append] using h

variable {f : String → Option String}

theorem resolves_projectionTag : Resolves f projectionTag projectionTag := fun r =>
  resolveFrom_opaque (tokens_projectionTag r) (Or.inr rfl)

theorem resolveFrom_select (f : String → Option String) (r : List Char) :
    resolveFrom f false ("SELECT".toList ++ ' ' :: r) =
      replaced f "SELECT".toList ++ ' ' :: resolveFrom f false r := by
  have has : isAsWord "SELECT".toList = false := by decide
  rw [resolveFrom_path (p := "SELECT".toList) (r := ' ' :: r) (.name (by decide)) rfl, has]
  exact congrArg _ (resolveFrom_plain (p := [' ']) (by decide) r)

theorem resolve_template (f : String → Option String) (s : String) :
    (resolve f ("SELECT " ++ projectionTag ++ s)).toList = replaced f "SELECT".toList ++ ' ' ::
      (projectionTag.toList ++ resolveFrom f false s.toList) := by
  have htemplate : ("SELECT " ++ projectionTag ++ s).toList = "SELECT".toList ++ ' ' ::
      (projectionTag.toList ++ s.toList) := by
    rw [String.toList_append, String.toList_append]
    simp
  rw [toList_resolve, htemplate, resolveFrom_select, resolves_projectionTag]

theorem Criteria.selectList_eq_star {c : Criteria} (hp : c.projections = none) :
    c.selectList = "*" := by
  rw [selectList, projectionList, hp]
  rfl

theorem Criteria.lacks_selectList {c : Criteria} {p : Char → Bool}
    (hp : ∀ c, p c = true → isMark c = true)
    (h : ∀ s ∈ c.projectionList, Lacks p s.toList) : Lacks p c.selectList.toList := by
  rw [selectList]
  split
  · exact Lacks.mono hp (by decide)
  · rw [String.toList_intercalate]
    refine Value.intercalate_closed (List.forall_mem_nil _) (Lacks.mono hp (by decide))
      (fun _ _ hs ht => hs.append ht) fun s hs => ?_
    obtain ⟨t, ht, rfl⟩ := List.mem_map.1 hs
    exact h t ht

theorem Criteria.compile_eq_ok {c : Criteria} {provider : Provider} {q : Query}
    (h : c.compile provider = .ok q) :
    ∃ x, c.resolver provider (fillTemplate c.template c.selectList) = .ok x ∧
      q.data = x.1 (fillTemplate c.template c.selectList) ∧ q.template = x.1 c.template ∧
      q.binds = Node.bindsList (Node.conditions c.nodes) ∧
      q.count = match Node.groupingKey? c.nodes with
        | some key => GroupedCount.sql q.data (x.1 key)
        | none => x.1 (fillTemplate c.template "COUNT(*) count") := by
  obtain ⟨x, hx, h⟩ := bind_eq_ok h
  obtain rfl := Except.ok.inj h
  exact ⟨x, hx, rfl, rfl, rfl, rfl⟩

/-- What the statements of a criteria are resolved by: the record of the names in its data query, or
the declarations of its entity. -/
inductive Criteria.ResolvedBy (c : Criteria) (provider : Provider) (data : String) :
    (String → String) × Option NameTable → Prop
  | record {s : String} {r : Resolution} (hs : c.source = some s)
    (hr : Resolution.ofSql provider data = .ok r) :
    ResolvedBy c provider data (r.resolve, some r.names)
  | entity {e : Entity} (hs : c.source = none) (he : provider c.entity.name = .ok e) :
    ResolvedBy c provider data (e.resolve, none)

theorem Criteria.resolvedBy {c : Criteria} {provider : Provider} {data : String}
    {x : (String → String) × Option NameTable} (h : c.resolver provider data = .ok x) :
    c.ResolvedBy provider data x := by
  rw [resolver] at h
  cases hs : c.source with
  | some s =>
    rw [hs] at h
    obtain ⟨r, hr, h⟩ := bind_eq_ok h
    obtain rfl := Except.ok.inj h
    exact .record hs hr
  | none =>
    rw [hs] at h
    obtain ⟨e, he, h⟩ := bind_eq_ok h
    obtain rfl := Except.ok.inj h
    exact .entity hs he

theorem Criteria.ResolvedBy.resolver_eq {c : Criteria} {provider : Provider} {data : String}
    {x : (String → String) × Option NameTable} (h : c.ResolvedBy provider data x) :
    c.resolver provider data = .ok x := by
  cases h with
  | record hs hr =>
    rw [resolver, hs]
    dsimp only
    rw [hr]
    rfl
  | entity hs he =>
    rw [resolver, hs]
    dsimp only
    rw [he]
    rfl

end FilterSql
