import FilterSql.Proofs.Query.SharedTail
/-!
# Names as they are written

A statement is resolved as a text, whatever a word in it was meant as. So a property, and the table
behind `FROM` as well, is written as its column only if it is no word of SQL and not the entity's
own name.
-/
namespace FilterSql

open Sql Text Node

theorem isReserved_of_isAsWord {w : String} (h : isAsWord w.toList = true) :
    isReserved w = true := by
  by_contra hr
  rw [isAsWord_of_not_isReserved (Bool.eq_false_iff.2 hr)] at h
  cases h

namespace Entity

variable (e : Entity)

/-- What a name becomes in a text about this entity, where it is no alias. -/
def written (name : String) : String :=
  if isAsWord name.toList then name
  else if name = e.name then e.table
  else if isReserved name then name
  else e.columnOf name

theorem resolveFrom_written {name : String} (hn : isName name.toList = true) {r : List Char}
    (hr : continuesPath r = false) :
    resolveFrom e.replacement? false (name.toList ++ r) =
      (e.written name).toList ++ resolveFrom e.replacement? (isAsWord name.toList) r := by
  rw [resolveFrom_path (.name hn) hr, Bool.false_or, Bool.not_false, Bool.true_and, written]
  congr 1
  by_cases ha : isAsWord name.toList = true
  · rw [if_pos ha, if_pos ha]
  rw [if_neg ha, if_neg ha, replaced, String.ofList_toList]
  by_cases hname : name = e.name
  · have htable : e.replacement? name = some e.table := by
      rw [replacement?, cutAt_of_not_mem (not_mem_of_isName hn)]
      exact if_pos hname
    rw [htable, if_pos hname]
    rfl
  rw [replacement?_name hn hname, if_neg hname]
  by_cases hr : isReserved name = true
  · rw [if_pos hr, if_pos hr]
    rfl
  · rw [if_neg hr, if_neg hr, columnOf]
    cases e.column? name <;> rfl

theorem replacement?_word {w : String} (hw : isWord w = true) (hne : e.name ≠ w) :
    e.replacement? w = none := by
  obtain ⟨hn, hr, -⟩ := isWord_iff.1 hw
  rw [replacement?_name hn hne.symm, if_pos hr]

theorem written_property {p : String} {field : Field} (hp : e.field? p = some field)
    (hr : isReserved p = false) (hne : p ≠ e.name) : e.written p = field.column := by
  rw [written, isAsWord_of_not_isReserved hr, hr, if_neg hne, columnOf, column?, hp]
  rfl

theorem columnOf_eq_self_iff {name : String} :
    e.columnOf name = name ↔ ∀ field, e.field? name = some field → field.column = name := by
  rw [columnOf, column?]
  cases e.field? name <;> simp

theorem written_eq_self_iff {name : String} : e.written name = name ↔
    isAsWord name.toList = true ∨ (name = e.name → e.table = name) ∧
      (name ≠ e.name → isReserved name = true ∨ e.columnOf name = name) := by
  rw [written]
  by_cases has : isAsWord name.toList = true
  · simp [has]
  rw [if_neg has]
  by_cases hname : name = e.name
  · simp [has, hname.symm]
  by_cases hword : isReserved name = true <;> simp [has, hname, hword]

/-- The table is written as it is declared unless it is taken for a property of another column. -/
theorem written_table : e.written e.table = e.table ↔ ∀ field, e.field? e.table = some field →
    isReserved e.table = true ∨ e.table = e.name ∨ field.column = e.table := by
  rw [written_eq_self_iff, columnOf_eq_self_iff]
  by_cases hr : isReserved e.table = true
  · simp [hr]
  · have has : ¬ isAsWord e.table.toList = true := fun h => hr (isReserved_of_isAsWord h)
    by_cases hname : e.table = e.name <;> simp [hr, has, hname]

end Entity

/-- Nothing, or a text that starts with a blank. -/
def IsApart (s : List Char) : Prop := s = [] ∨ ∃ t, s = ' ' :: t

namespace IsApart

variable {s : List Char}

theorem continuesPath (h : IsApart s) : Sql.continuesPath s = false := by
  obtain rfl | ⟨t, rfl⟩ := h <;> rfl

theorem replace {new : List Char} (h : IsApart s) :
    IsApart (Text.replace projectionTag.toList new s) := by
  obtain rfl | ⟨t, rfl⟩ := h
  · exact Or.inl replace_nil
  · exact Or.inr ⟨_, replace_append_of_head (p := [' ']) (by decide) t⟩

theorem resolveFrom {f : String → Option String} {aliased : Bool} (h : IsApart s) :
    IsApart (Sql.resolveFrom f aliased s) := by
  obtain rfl | ⟨t, rfl⟩ := h
  · exact Or.inl resolveFrom_nil
  · exact Or.inr ⟨_, resolveFrom_plain (p := [' ']) (by decide) t⟩

end IsApart

namespace Criteria

variable {c : Criteria}

theorem exists_tail_eq_table (hs : c.source = none) :
    ∃ u, IsApart u ∧ c.tail.toList = " FROM ".toList ++ (c.entity.table.toList ++ u) := by
  refine ⟨(whereClause c.nodes ++ c.orderClause).toList, ?_, ?_⟩
  · obtain h | ⟨w, -, t, h⟩ := c.tail_cases
    · rw [h]
      exact Or.inl rfl
    · rw [h, String.toList_append]
      exact Or.inr ⟨_, rfl⟩
  · rw [toList_tail, hs]
    rfl

theorem exists_replace_tail_eq_table (hs : c.source = none)
    (ht : isName c.entity.table.toList = true) (new : List Char) :
    ∃ u, IsApart u ∧ replace projectionTag.toList new c.tail.toList =
      " FROM ".toList ++ (c.entity.table.toList ++ u) := by
  obtain ⟨u, hu, htail⟩ := c.exists_tail_eq_table hs
  have hlacks : '$' ∉ c.entity.table.toList := fun h => absurd (isNameChar_of_mem ht h) (by decide)
  refine ⟨replace projectionTag.toList new u, hu.replace, ?_⟩
  rw [htail, unreplaced_of_not_mem (s := " FROM ") (by decide), unreplaced_of_not_mem hlacks]

theorem resolveFrom_from_table {e : Entity} (hname : e.name ≠ "FROM")
    (ht : isName e.table.toList = true) {u : List Char} (hu : IsApart u) (aliased : Bool) :
    ∃ r : String, IsApart r.toList ∧
      resolveFrom e.replacement? aliased (" FROM ".toList ++ (e.table.toList ++ u)) =
        (" FROM " ++ e.written e.table ++ r).toList := by
  refine ⟨String.ofList (resolveFrom e.replacement? (isAsWord e.table.toList) u), ?_, ?_⟩
  · rw [String.toList_ofList]
    exact hu.resolveFrom
  · rw [resolveFrom_from (e.replacement?_word (by decide) hname),
      e.resolveFrom_written ht hu.continuesPath]
    simp only [String.toList_append, String.toList_ofList, List.append_assoc]

theorem resolve_filled_from {selectList : String} (hs : c.source = none)
    (hname : c.entity.name ≠ "FROM") (ht : isName c.entity.table.toList = true)
    (hlist : Lacks isQuote selectList.toList) :
    ∃ r : String, IsApart r.toList ∧ c.entity.resolve (fillTemplate c.template selectList) =
      c.entity.resolve ("SELECT " ++ selectList) ++ " FROM " ++ c.entity.written c.entity.table ++
        r := by
  obtain ⟨u, hu, htail⟩ := c.exists_replace_tail_eq_table hs ht selectList.toList
  have hfront : Lacks isQuote ("SELECT " ++ selectList).toList := by
    rw [String.toList_append]
    exact Lacks.append (by decide) hlist
  obtain ⟨r, hr, htable⟩ := resolveFrom_from_table hname ht hu
    (aliasedAfter false (tokens ("SELECT " ++ selectList).toList))
  refine ⟨r, hr, String.toList_inj.1 ?_⟩
  have hsplit : (fillTemplate c.template selectList).toList = ("SELECT " ++ selectList).toList ++
      ' ' :: ("FROM ".toList ++ (c.entity.table.toList ++ u)) := by
    rw [toList_fillTemplate, htail, String.toList_append, List.append_assoc]
    rfl
  have hgoal (front : String) :
      (front ++ " FROM " ++ c.entity.written c.entity.table ++ r).toList =
        front.toList ++ (" FROM " ++ c.entity.written c.entity.table ++ r).toList := by
    simp only [String.toList_append, List.append_assoc]
  rw [hgoal, ← htable, Entity.resolve, Entity.resolve, toList_resolve, toList_resolve, hsplit,
    resolveFrom_append_of_closesBefore (.of_lacks_quotes hfront _)]
  rfl

theorem resolve_template_from (hs : c.source = none) (hname : c.entity.name ≠ "FROM")
    (ht : isName c.entity.table.toList = true) :
    ∃ r : String, IsApart r.toList ∧ c.entity.resolve c.template =
      c.entity.resolve ("SELECT " ++ projectionTag) ++ " FROM " ++
        c.entity.written c.entity.table ++ r := by
  obtain ⟨u, hu, htail⟩ := c.exists_tail_eq_table hs
  obtain ⟨r, hr, htable⟩ := resolveFrom_from_table hname ht hu false
  refine ⟨r, hr, String.toList_inj.1 ?_⟩
  have hfront := resolve_template c.entity.replacement? ""
  rw [String.append_empty] at hfront
  rw [Entity.resolve, Entity.resolve, template, resolve_template, htail, htable]
  simp only [String.append_assoc, String.toList_append] at hfront ⊢
  rw [hfront]
  simp

theorem exists_compile_data {c : Criteria} {provider : Provider} {e : Entity}
    (hs : c.source = none) (he : provider c.entity.name = .ok e) :
    ∃ q, c.compile provider = .ok q ∧
      q.data = e.resolve (fillTemplate c.template c.selectList) := by
  have hresolved : c.ResolvedBy provider (fillTemplate c.template c.selectList) _ :=
    .entity hs he
  rw [compile, hresolved.resolver_eq]
  exact ⟨_, rfl, rfl⟩

/-- Behind `FROM` all statements have the table as it is written, and this is the declared table
unless it is taken for a property of another column. -/
theorem compile_from_table {provider : Provider} {q : Query} (hs : c.source = none)
    (hp : c.projections = none) (he : provider c.entity.name = .ok c.entity)
    (hname : c.entity.name ≠ "FROM") (ht : isName c.entity.table.toList = true)
    (h : c.compile provider = .ok q) :
    (∃ r : String, IsApart r.toList ∧ q.data =
        c.entity.resolve "SELECT *" ++ " FROM " ++ c.entity.written c.entity.table ++ r) ∧
      (∃ r : String, IsApart r.toList ∧ q.template =
        c.entity.resolve ("SELECT " ++ projectionTag) ++ " FROM " ++
          c.entity.written c.entity.table ++ r) ∧
      (groupingKey? c.nodes = none → ∃ r : String, IsApart r.toList ∧ q.count =
        c.entity.resolve "SELECT COUNT(*) count" ++ " FROM " ++
          c.entity.written c.entity.table ++ r) ∧
      (c.entity.written c.entity.table = c.entity.table ↔
        ∀ field, c.entity.field? c.entity.table = some field → isReserved c.entity.table = true ∨
          c.entity.table = c.entity.name ∨ field.column = c.entity.table) := by
  obtain ⟨x, hx, hdata, htemplate, -, hcount⟩ := compile_eq_ok h
  have hselect := selectList_eq_star hp
  cases resolvedBy hx with
  | record hsource => rw [hs] at hsource; cases hsource
  | @entity e _ he' =>
    obtain rfl : c.entity = e := Except.ok.inj (he.symm.trans he')
    refine ⟨?_, ?_, fun hgroup => ?_, c.entity.written_table⟩
    · rw [hdata, hselect]
      exact resolve_filled_from hs hname ht (by decide)
    · rw [htemplate]
      exact resolve_template_from hs hname ht
    · rw [hcount, hgroup]
      exact resolve_filled_from hs hname ht (by decide)

end Criteria

def compiledStatements (e : Entity) (c : Criteria) : Option (String × String × String) :=
  (c.compile (Registry.ofList [e]).resolve).toOption.map fun q => (q.count, q.data, q.template)

def mirrorEntity : Entity :=
  { name := "User", table := "user", fields := .ofList [("user", ⟨"user_name", .text, false⟩)] }

theorem compile_mirrorEntity :
    mirrorEntity.written mirrorEntity.table ≠ mirrorEntity.table ∧
      ∃ (q : Query) (r : String),
        (Criteria.plain mirrorEntity).compile (Registry.ofList [mirrorEntity]).resolve = .ok q ∧
          IsApart r.toList ∧ q.data = "SELECT *" ++ " FROM " ++ "user_name" ++ r := by
  have he : (Registry.ofList [mirrorEntity]).resolve mirrorEntity.name = .ok mirrorEntity := rfl
  have hfront : mirrorEntity.resolve "SELECT *" = "SELECT *" := by decide +kernel
  have hwritten : mirrorEntity.written mirrorEntity.table = "user_name" := by decide +kernel
  obtain ⟨q, hq, -⟩ := Criteria.exists_compile_data (c := .plain mirrorEntity) rfl he
  obtain ⟨⟨r, hr, hdata⟩, -, -, hsame⟩ :=
    Criteria.compile_from_table (c := .plain mirrorEntity) rfl rfl he (by decide) (by decide) hq
  refine ⟨fun h => ?_, q, r, hq, hr, ?_⟩
  · obtain hr | hname | hcolumn := hsame.1 h ⟨"user_name", .text, false⟩ rfl
    · exact absurd hr (by decide)
    · exact absurd hname (by decide)
    · exact absurd hcolumn (by decide)
  · have hcompiled : q.data = mirrorEntity.resolve "SELECT *" ++ " FROM " ++
        mirrorEntity.written mirrorEntity.table ++ r := hdata
    rwa [hfront, hwritten] at hcompiled

/-- Behind `FROM` stands the column of a property; and in the statements about an entity of the name
`FROM` its table stands for the word as well. -/
theorem not_written_mirrorEntity :
    mirrorEntity.table = "user" ∧
      compiledStatements mirrorEntity (.plain mirrorEntity) =
        some ("SELECT COUNT(*) count FROM user_name", "SELECT * FROM user_name",
          "SELECT ${PROJECTION} FROM user_name") ∧
      compiledStatements { mirrorEntity with name := "FROM", table := "t_user" }
          (.plain { mirrorEntity with name := "FROM", table := "t_user" }) =
        some ("SELECT COUNT(*) count t_user t_user", "SELECT * t_user t_user",
          "SELECT ${PROJECTION} t_user t_user") := by
  decide +kernel

end FilterSql
