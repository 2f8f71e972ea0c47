import FilterSql.Proofs.Query.Spellings
import FilterSql.Proofs.Sql.Quoting
/-!
# Texts of projections

Whatever spelling a projection is read from, it is written from names that were read in it: a path
as its reference, perhaps with a function around it and an alias behind it. So it has neither
quotes nor dollar signs.
-/
namespace FilterSql

open Sql

theorem isPath_of_takePath? {s p r : List Char} (h : takePath? s = some (p, r)) : IsPath p := by
  fun_cases takePath? s with
  | case1 c s hc =>
    rw [takePath?, if_pos hc] at h
    obtain ⟨rfl, -⟩ := Prod.mk.inj (Option.some.inj h)
    exact isPath_of_isNameStart hc s
  | case2 c s hc => rw [takePath?, if_neg hc] at h; cases h
  | case3 => cases h

namespace Expression

/-- What stands behind the reference of a projection, or behind the function around it. -/
def aliasClause (x : Expression) : String :=
  match x.aliasName with
  | some a => " AS " ++ a
  | none => ""

theorem sql_eq (x : Expression) : x.sql =
    (match x.function with
      | some f => f ++ "(" ++ x.reference ++ ")"
      | none => x.reference) ++ x.aliasClause := rfl

theorem continuesPath_aliasClause {x : Expression} {r : List Char} (hr : continuesPath r = false) :
    continuesPath (x.aliasClause.toList ++ r) = false := by
  rw [aliasClause]
  cases x.aliasName with
  | none => exact hr
  | some a => simp [continuesPath, isNameChar]

/-- An expression of names, with a path as its reference. -/
structure IsLexical (x : Expression) : Prop where
  function : ∀ f, x.function = some f → isName f.toList = true
  reference : IsPath x.reference.toList
  aliasName : ∀ a, x.aliasName = some a → isName a.toList = true

namespace IsLexical

variable {x : Expression}

theorem lacks_aliasClause (hx : x.IsLexical) : Lacks isMark x.aliasClause.toList := by
  rw [aliasClause]
  cases ha : x.aliasName with
  | none => exact nofun
  | some a =>
    rw [String.toList_append]
    exact Lacks.append (by decide) (IsPath.name (hx.aliasName a ha)).lacks

theorem lacks_sql (hx : x.IsLexical) : Lacks isMark x.sql.toList := by
  have href := hx.reference.lacks
  rw [sql_eq, String.toList_append]
  refine Lacks.append ?_ hx.lacks_aliasClause
  cases hf : x.function with
  | none => exact href
  | some f =>
    have hname := (IsPath.name (hx.function f hf)).lacks
    simp only [String.toList_append]
    exact ((hname.append (by decide)).append href).append (by decide)

theorem takeWhile_sql (hx : x.IsLexical) (hf : x.function = none) :
    x.sql.toList.takeWhile (· != ' ') = x.reference.toList := by
  have hblank : ∀ c ∈ x.reference.toList, (c != ' ') = true := by
    intro c hc
    rcases hx.reference.chars hc with h | rfl
    · exact bne_iff_ne.2 (ne_of_true_of_false h (by decide))
    · rfl
  rw [sql_eq, hf, String.toList_append, List.takeWhile_append_of_pos hblank, aliasClause]
  cases x.aliasName with
  | none => simp
  | some a => simp

end IsLexical

theorem IsNamed.isLexical {x : Expression} (hx : x.IsNamed) : x.IsLexical := by
  refine ⟨hx.function, ?_, hx.aliasName⟩
  rw [reference]
  cases he : x.entity with
  | none => exact .name hx.property
  | some e => simpa using IsPath.qualified (hx.entity e he) (.name hx.property)

theorem isLexical_of_parse {s : String} {x : Expression} (h : parse s = .ok x) : x.IsLexical :=
  (spelled_of_parse h).1.isLexical

theorem isName_entity_of_parse {s E : String} {x : Expression} (h : parse s = .ok x)
    (hE : x.entity = some E) : isName E.toList = true :=
  (spelled_of_parse h).1.entity E hE

end Expression

namespace Projection

theorem isName_readAlias? {s n : List Char} (h : readAlias? s = some (some n)) :
    isName n = true := by
  rw [readAlias?] at h
  split at h
  · cases h
  · rw [Option.bind_eq_bind, Option.bind_eq_some_iff] at h
    obtain ⟨t, -, h⟩ := h
    dsimp only at h
    split at h
    case h_3 => cases h
    all_goals
      obtain ⟨u, -, h⟩ := Option.bind_eq_some_iff.1 h
      split at h
      next m hm =>
        obtain rfl := Option.some.inj (Option.some.inj h)
        exact (takeName?_eq_some.1 hm).2.1
      next => cases h

theorem exists_sql_of_parse {s p : String} (h : parse s = .ok p) :
    ∃ x : Expression, x.IsLexical ∧ x.function = none ∧ p = x.sql := by
  rw [parse] at h
  split at h
  next p' hp =>
    obtain rfl := Except.ok.inj h
    rw [ofChars?, Option.bind_eq_bind, Option.bind_eq_some_iff] at hp
    obtain ⟨⟨path, t⟩, hpath, hp⟩ := hp
    dsimp only at hp
    rw [Option.bind_eq_bind, Option.bind_eq_some_iff] at hp
    obtain ⟨al, halias, hp⟩ := hp
    obtain rfl := Option.some.inj hp
    refine ⟨⟨none, none, String.ofList path, al.map String.ofList⟩, ⟨nofun, ?_, ?_⟩, rfl, ?_⟩
    · rw [Expression.reference, String.toList_ofList]
      exact isPath_of_takePath? hpath
    · intro a ha
      obtain ⟨n, rfl, rfl⟩ := Option.map_eq_some_iff.1 ha
      rw [String.toList_ofList]
      exact isName_readAlias? halias
    · cases al <;> rfl
  next => cases h

end Projection

/-- A text that a projection or a projection expression is written as. -/
inductive IsProjection : String → Prop
  | path {s p : String} (h : Projection.parse s = .ok p) : IsProjection p
  | expression {s : String} {x : Expression} (h : Expression.parse s = .ok x) : IsProjection x.sql

theorem IsProjection.lacks {p : String} (h : IsProjection p) : Lacks isMark p.toList := by
  cases h with
  | path h =>
    obtain ⟨x, hx, -, rfl⟩ := Projection.exists_sql_of_parse h
    exact hx.lacks_sql
  | expression h => exact (Expression.isLexical_of_parse h).lacks_sql

end FilterSql
