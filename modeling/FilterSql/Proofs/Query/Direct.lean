import FilterSql.Proofs.Criteria.Keys
import FilterSql.Proofs.Query.Filling
/-!
# Writing columns directly

Statements are written in logical names and resolved afterwards. For an entity whose names cannot
be taken for anything else this gives the statements that are written in columns from the start:
every piece of a statement is resolved by itself, and only keys and the table are references.
-/
namespace FilterSql

open Sql Text Node

/-- An entity whose properties are names, none of them a word of SQL or the entity's own name, and
whose table is a path that is neither a property nor qualified by the entity. -/
structure Entity.WellNamed (e : Entity) : Prop where
  properties : ∀ p, (e.field? p).isSome = true →
    isName p.toList = true ∧ isReserved p = false ∧ p ≠ e.name
  name : isReserved e.name = false
  table : IsPath e.table.toList
  undeclared : e.field? e.table = none
  unqualified : ¬ (e.name ++ ".").toList <+: e.table.toList

/-- The words of SQL that announce no alias. -/
def isWord (w : String) : Bool := isName w.toList && isReserved w && !isAsWord w.toList

def SparesWords (f : String → Option String) : Prop := ∀ w, isWord w = true → f w = none

theorem isWord_iff {w : String} : isWord w = true ↔
    isName w.toList = true ∧ isReserved w = true ∧ isAsWord w.toList = false := by
  rw [isWord, Bool.and_eq_true, Bool.and_eq_true, Bool.not_eq_true', and_assoc]

theorem isAsWord_of_not_isReserved {w : String} (h : isReserved w = false) :
    isAsWord w.toList = false := by
  rw [isReserved, List.any_eq_false] at h
  have has : ¬ sameLetters "AS".toList w.toList = true := h "AS" (by decide)
  rw [sameLetters, beq_iff_eq] at has
  rw [isAsWord, sameLetters, beq_eq_false_iff_ne]
  exact fun hw => has hw.symm

namespace Entity

variable {e : Entity}

theorem replacement?_name {p : String} (hp : isName p.toList = true) (hne : p ≠ e.name) :
    e.replacement? p = if isReserved p then none else e.column? p := by
  have hpoint := not_mem_of_isName hp
  rw [replacement?, cutAt_of_not_mem hpoint]
  exact if_neg hne

theorem sparesWords_replacement? (h : isReserved e.name = false) : SparesWords e.replacement? := by
  intro w hw
  obtain ⟨hn, hr, -⟩ := isWord_iff.1 hw
  have hne : w ≠ e.name := ne_of_true_of_false hr h
  rw [replacement?_name hn hne, if_pos hr]

theorem WellNamed.sparesWords (h : e.WellNamed) : SparesWords e.replacement? :=
  sparesWords_replacement? h.name

theorem WellNamed.replacement?_property (h : e.WellNamed) {p : String}
    (hp : (e.field? p).isSome = true) : (e.replacement? p).getD p = e.columnOf p := by
  obtain ⟨hn, hr, hne⟩ := h.properties p hp
  rw [replacement?_name hn hne, hr]
  rfl

theorem replaced_table (hundeclared : e.field? e.table = none)
    (hunqualified : ¬ (e.name ++ ".").toList <+: e.table.toList) :
    replaced e.replacement? e.table.toList = e.table.toList := by
  rw [replaced, String.ofList_toList, replacement?]
  cases hcut : cutAt '.' e.table.toList with
  | some r =>
    obtain ⟨a, b⟩ := r
    have ha : String.ofList a ≠ e.name := by
      intro ha
      apply hunqualified
      rw [cutAt_append hcut, ← ha, String.toList_append, String.toList_ofList]
      exact ⟨b, by simp⟩
    dsimp only
    rw [if_neg ha]
    rfl
  | none =>
    dsimp only
    by_cases hname : e.table = e.name
    · rw [if_pos hname]
      rfl
    · rw [if_neg hname, column?, hundeclared]
      split <;> rfl

end Entity

/-- A relation of texts that is kept when they are written one after the other, and in which plain
characters and the words of SQL are related to themselves. -/
structure ReadsWords (R : String → String → Prop) : Prop where
  empty : R "" ""
  append : ∀ {s s' t t'}, R s t → R s' t' → R (s ++ s') (t ++ t')
  plain : ∀ {s : String}, s.toList.all isPlain = true → R s s
  word : ∀ {w}, isWord w = true → R (w ++ " ") (w ++ " ")

namespace ReadsWords

variable {R : String → String → Prop} {v w : String}

theorem spaced (hR : ReadsWords R) (hw : isWord w = true) :
    R (" " ++ (w ++ " ")) (" " ++ (w ++ " ")) :=
  hR.append (hR.plain (by decide)) (hR.word hw)

theorem pair (hR : ReadsWords R) (hv : isWord v = true) (hw : isWord w = true) :
    R (v ++ " " ++ (w ++ " ")) (v ++ " " ++ (w ++ " ")) :=
  hR.append (hR.word hv) (hR.word hw)

theorem conjunction (hR : ReadsWords R) (c : Conjunction) : R (c.sql ++ " ") (c.sql ++ " ") := by
  cases c with
  | and => exact hR.word (w := "AND") rfl
  | or => exact hR.word (w := "OR") rfl
  | groupBy => exact hR.pair (v := "GROUP") (w := "BY") rfl rfl
  | orderBy => exact hR.pair (v := "ORDER") (w := "BY") rfl rfl

theorem predicate (hR : ReadsWords R) (p : Predicate) : R (p.sql ++ " ") (p.sql ++ " ") := by
  cases p with
  | eq | lt | lte | gt | gte | not | group => exact hR.plain (by decide)
  | like => exact hR.word (w := "LIKE") rfl
  | between => exact hR.word (w := "BETWEEN") rfl
  | among => exact hR.word (w := "IN") rfl
  | notAmong => exact hR.pair (v := "NOT") (w := "IN") rfl rfl

theorem compositional (hR : ReadsWords R) : Compositional fun _ => R := by
  refine ⟨hR.empty, hR.append, hR.plain (by decide), hR.plain (by decide), fun c => ?_,
    hR.predicate, hR.plain (by decide), ?_⟩
  · rw [String.append_assoc]
    exact hR.append (hR.plain (by decide)) (hR.conjunction c)
  · have hwords : ("? AND ?" : String) = "?" ++ (" " ++ ("AND" ++ " ")) ++ "?" := rfl
    have hmark : R "?" "?" := hR.plain (by decide)
    rw [hwords]
    exact hR.append (hR.append hmark (hR.spaced rfl)) hmark

theorem orderBy (hR : ReadsWords R) {k k' : String} (hk : R (k ++ " ") (k' ++ " ")) :
    R (" ORDER BY " ++ k ++ " ") (" ORDER BY " ++ k' ++ " ") := by
  have hsplit (t : String) :
      " ORDER BY " ++ t ++ " " = " " ++ ("ORDER" ++ " " ++ ("BY" ++ " ")) ++ (t ++ " ") := by
    rw [← String.append_assoc]
    rfl
  rw [hsplit, hsplit]
  exact hR.append (hR.append (hR.plain (by decide)) (hR.pair rfl rfl)) hk

end ReadsWords

variable {f : String → Option String}

namespace SparesWords

variable {w : String}

theorem resolveFrom_word (hf : SparesWords f) (hw : isWord w = true) {aliased : Bool}
    {r : List Char} (hr : continuesPath r = false) :
    resolveFrom f aliased (w.toList ++ r) = w.toList ++ resolveFrom f false r := by
  obtain ⟨hn, -, ha⟩ := isWord_iff.1 hw
  have hnone : f (String.ofList w.toList) = none := by
    rw [String.ofList_toList]
    exact hf w hw
  exact resolveFrom_keyword (.name hn) hr ha hnone

theorem readsWords (hf : SparesWords f) : ReadsWords (Resolves f) := by
  refine ⟨.empty, .append, .plain, fun {w} hw => ?_⟩
  obtain ⟨hn, -, ha⟩ := isWord_iff.1 hw
  exact .keyword (.name hn) ha (hf w hw)

end SparesWords

namespace Criteria

/-- The criteria with columns in the place of properties. -/
def inColumns (c : Criteria) : Criteria :=
  { c with
    nodes := c.nodes.map (rename c.entity.columnOf)
    orderBy := c.orderBy.map fun o => { o with property := c.entity.columnOf o.property } }

/-- A statement about the entity's table, written in columns. -/
def direct (c : Criteria) (selectList : String) : String :=
  "SELECT " ++ selectList ++ " FROM " ++ c.entity.table ++ whereClause c.inColumns.nodes ++
    c.inColumns.orderClause

variable {c : Criteria} {e : Entity} {f : String → Option String}

/-- In front of these words it does not matter whether an alias is awaited. -/
theorem resolveFrom_alias (hf : SparesWords f) (c : Criteria) (aliased : Bool) :
    resolveFrom f aliased (whereClause c.nodes ++ c.orderClause).toList =
      resolveFrom f false (whereClause c.nodes ++ c.orderClause).toList := by
  have hspaced {w : String} (hw : isWord w = true) (b : Bool) (t : String) :
      resolveFrom f b (" " ++ (w ++ (" " ++ t))).toList =
        ' ' :: (w.toList ++ resolveFrom f false (' ' :: t.toList)) := by
    rw [String.toList_append, String.toList_append, String.toList_append,
      resolveFrom_plain (by decide), hf.resolveFrom_word hw rfl]
    rfl
  rcases c.tail_cases with h | ⟨w, hw, t, h⟩
  · rw [h]
    simp
  · rw [h]
    have hwords : ∀ w ∈ ["WHERE", "ORDER"], isWord w = true := by decide
    rw [hspaced (hwords w hw), hspaced (hwords w hw)]

theorem continuesPath_behind_table (c : Criteria) :
    continuesPath (whereClause c.nodes ++ c.orderClause).toList = false := by
  rcases c.tail_cases with h | ⟨w, -, t, h⟩
  · rw [h]
    rfl
  · rw [h, String.toList_append]
    rfl

theorem resolveFrom_table (hf : SparesWords f) {t : List Char} (ht : IsPath t) (c : Criteria) :
    resolveFrom f false (t ++ (whereClause c.nodes ++ c.orderClause).toList) =
      (if isAsWord t then t else replaced f t) ++
        resolveFrom f false (whereClause c.nodes ++ c.orderClause).toList := by
  rw [resolveFrom_path ht c.continuesPath_behind_table, resolveFrom_alias hf, Bool.false_or]

theorem resolves_whereClause (hc : Declared e c) (he : e.WellNamed) (hl : HasLexicalLists c) :
    Resolves e.replacement? (whereClause c.nodes) (whereClause c.inColumns.nodes) := by
  have hwords := he.sparesWords.readsWords
  have hw : Resolves e.replacement? " WHERE " " WHERE " := hwords.spaced (w := "WHERE") rfl
  rw [inColumns, hc.entity]
  refine hwords.compositional.whereClause_rename hw ?_ ?_
  · intro m hm hleaf
    have hd := hc.toKeyed.of_mem_conditions hm hleaf
    obtain ⟨hn, hr, -⟩ := he.properties m.key hd
    have hkey := Resolves.reference (f := e.replacement?) (.name hn)
      (isAsWord_of_not_isReserved hr)
    rwa [he.replacement?_property hd] at hkey
  · intro l vs hm
    exact Value.resolves_listLiterals _ (hl l vs (mem_subnodesList_of_conditions hm)).1

theorem resolveFrom_orderClause (hc : Declared e c) (he : e.WellNamed) :
    resolveFrom e.replacement? false c.orderClause.toList = c.inColumns.orderClause.toList := by
  have hwords := he.sparesWords
  rw [orderClause, orderClause, inColumns, hc.entity]
  cases ho : c.orderBy with
  | none => exact resolveFrom_nil
  | some o =>
    have hd := hc.orderBy o ho
    obtain ⟨hn, hr, -⟩ := he.properties o.property hd
    have hkey := Resolves.reference (f := e.replacement?) (.name hn)
      (isAsWord_of_not_isReserved hr)
    rw [he.replacement?_property hd] at hkey
    have hdirection : resolveFrom e.replacement? false o.direction.sql.toList =
        o.direction.sql.toList := by
      have hword : isWord o.direction.sql = true := by cases o.direction <;> rfl
      have h : resolveFrom e.replacement? false (o.direction.sql.toList ++ []) = _ :=
        hwords.resolveFrom_word hword rfl
      rwa [resolveFrom_nil, List.append_nil] at h
    have h := hwords.readsWords.orderBy hkey o.direction.sql.toList
    rw [hdirection] at h
    simpa only [Option.map_some, String.toList_append, List.append_assoc] using h

/-- A statement is resolved by writing its names in columns. -/
theorem resolve_statement (hc : Declared e c) (he : e.WellNamed) (hl : HasLexicalLists c)
    (hs : c.source = none) {selectList : String}
    (hselect : Resolves e.replacement? (selectList ++ " FROM ") (selectList ++ " FROM ")) :
    e.resolve ("SELECT " ++ selectList ++ c.tail) = c.direct selectList := by
  have hwords := he.sparesWords
  have hhead : Resolves e.replacement? ("SELECT " ++ (selectList ++ " FROM "))
      ("SELECT " ++ (selectList ++ " FROM ")) :=
    (hwords.readsWords.word (w := "SELECT") rfl).append hselect
  have htable := resolveFrom_table hwords he.table c
  -- a table named like the word for aliases is kept as well
  rw [Entity.replaced_table he.undeclared he.unqualified, ite_self] at htable
  have hrest : resolveFrom e.replacement? false (whereClause c.nodes ++ c.orderClause).toList =
      (whereClause c.inColumns.nodes ++ c.inColumns.orderClause).toList := by
    rw [String.toList_append, resolves_whereClause hc he hl, resolveFrom_orderClause hc he,
      String.toList_append]
  rw [hrest] at htable
  have htail : "SELECT " ++ selectList ++ c.tail = "SELECT " ++ (selectList ++ " FROM ") ++
      (e.table ++ (whereClause c.nodes ++ c.orderClause)) := by
    rw [tail, fromClause, hs, hc.entity]
    simp only [Option.getD_none, String.append_assoc]
  apply String.toList_inj.1
  rw [Entity.resolve, toList_resolve, htail, String.toList_append, hhead,
    String.toList_append (s := e.table), htable, direct, hc.entity]
  simp only [String.toList_append, List.append_assoc]

variable {f : String → Option String}

theorem resolves_from (hf : SparesWords f) : Resolves f " FROM " " FROM " :=
  hf.readsWords.spaced (w := "FROM") rfl

theorem resolves_count (hf : SparesWords f) :
    Resolves f ("COUNT(*) count" ++ " FROM ") ("COUNT(*) count" ++ " FROM ") := by
  have hsplit : "COUNT(*) count" ++ " FROM " =
      "COUNT" ++ ("(*) " ++ ("count" ++ " " ++ ("FROM" ++ " "))) := rfl
  have hbehind : Resolves f ("(*) " ++ ("count" ++ " " ++ ("FROM" ++ " ")))
      ("(*) " ++ ("count" ++ " " ++ ("FROM" ++ " "))) :=
    (Resolves.plain (by decide)).append (hf.readsWords.pair rfl rfl)
  intro r
  rw [hsplit, String.toList_append, List.append_assoc, hf.resolveFrom_word rfl rfl, hbehind,
    List.append_assoc]

theorem groupingKey?_of_groupBy? (h : c.groupBy? = none) : groupingKey? c.nodes = none := by
  rw [groupBy?, List.find?_eq_none] at h
  rw [groupingKey?, List.filter_eq_nil_iff.2 h]
  rfl

theorem conditions_of_groupBy? (h : c.groupBy? = none) : conditions c.nodes = c.nodes := by
  rw [groupBy?, List.find?_eq_none] at h
  rw [conditions, List.filter_eq_self]
  exact fun n hn => by simpa using h n hn

/-- Whatever operations a criteria without finished nodes is built by, and against whatever
provider that knows the entity it is compiled, its three statements are the ones written in
columns. -/
theorem compile_runAll_eq_direct {provider : Provider} (he : e.WellNamed)
    (hprovider : provider e.name = .ok e) {os : List Operation}
    (hos : ∀ o ∈ os, o.isFluent = true) (hc : c = ((plain e).runAll os).1)
    (hs : c.source = none) (hg : c.groupBy? = none) (hl : HasLexicalLists c) :
    c.compile provider = .ok
      { count := c.direct "COUNT(*) count"
        data := c.direct "*"
        template := c.direct projectionTag
        binds := bindsList c.nodes
        names := none } := by
  have hd : Declared e c := hc ▸ (Declared.plain e).runAll hos
  have hwords := he.sparesWords
  have huntagged : c.Untagged := by
    refine hd.toKeyed.untagged (fun p hp => .name (he.properties p hp).1) hl ?_
    rw [hs, hd.entity]
    exact he.table
  have hfill := huntagged.fillTemplate_eq
  have hselect : c.selectList = "*" := by
    rw [selectList, projectionList, hd.projections]
    rfl
  have hresolver (data : String) : c.resolver provider data = .ok (e.resolve, none) :=
    ResolvedBy.resolver_eq (.entity hs (by rwa [hd.entity]))
  have hcount := resolve_statement hd he hl hs (resolves_count hwords)
  have hdata := resolve_statement hd he hl hs ((Resolves.plain (s := "*") (by decide)).append
    (resolves_from hwords))
  have htemplate := resolve_statement hd he hl hs (resolves_projectionTag.append
    (resolves_from hwords))
  rw [compile, hfill, hfill, hselect, hresolver]
  change Except.ok _ = _
  rw [groupingKey?_of_groupBy? hg, conditions_of_groupBy? hg, hdata, template, htemplate]
  exact congrArg Except.ok (congrArg (Query.mk · _ _ _ _) hcount)

end Criteria

theorem Entity.mem_entries_of_field? {e : Entity} {p : String} (h : (e.field? p).isSome = true) :
    ∃ x ∈ e.fields.entries, p = x.1 := by
  rw [field?, Dictionary.find?, List.lookup_isSome_iff] at h
  obtain ⟨x, hx, hp⟩ := h
  exact ⟨x, hx, eq_of_beq hp⟩

theorem userEntity_wellNamed : userEntity.WellNamed := by
  have hall : ∀ x ∈ userEntity.fields.entries,
      isName x.1.toList = true ∧ isReserved x.1 = false ∧ x.1 ≠ userEntity.name := by decide
  refine ⟨fun p hp => ?_, by decide, .name (by decide), rfl, by decide⟩
  obtain ⟨x, hx, rfl⟩ := Entity.mem_entries_of_field? hp
  exact hall x hx

def userRun : List Operation :=
  [.step (.filter .and ⟨"id", .compare .gt (.int 7)⟩),
    .step (.group .or [.filter .and ⟨"name", .among false [.text "O'Brien", .text "?"]⟩,
      .filter .or ⟨"age", .like (.text "x")⟩]),
    .orderBy "name" .desc]

def userCriteria : Criteria := ((Criteria.plain userEntity).runAll userRun).1

theorem userCriteria_nodes : userCriteria.nodes =
    [.scalar ⟨.and, .gt, "id"⟩ (.int 7),
      .group ⟨.or, .group, ""⟩ [.list ⟨.and, .among, "name"⟩ [.text "O'Brien", .text "?"]]] := rfl

theorem userNames_lexical : Value.IsLexical [.text "O'Brien", .text "?"] ∧
    ∀ v ∈ [Value.text "O'Brien", .text "?"], ¬ projectionTag.toList <:+: (v.literal true).toList := by
  have hdollar : ∀ v ∈ [Value.text "O'Brien", .text "?"], '$' ∉ (v.literal true).toList := by
    simp only [List.forall_mem_cons]
    decide
  exact ⟨Or.inr rfl, fun v hv => not_infix_tag (hdollar v hv)⟩

theorem userCriteria_lists : userCriteria.HasLexicalLists := by
  intro l vs h
  rw [userCriteria_nodes] at h
  obtain ⟨-, rfl⟩ : l = ⟨.and, .among, "name"⟩ ∧ vs = [.text "O'Brien", .text "?"] := by
    simpa [subnodesList, subnodes] using h
  exact userNames_lexical

theorem compile_userCriteria :
    userCriteria.compile (Registry.ofList [userEntity]).resolve = .ok
      { count := userCriteria.direct "COUNT(*) count"
        data := userCriteria.direct "*"
        template := userCriteria.direct projectionTag
        binds := bindsList userCriteria.nodes
        names := none } :=
  Criteria.compile_runAll_eq_direct userEntity_wellNamed rfl (by decide) rfl rfl rfl
    userCriteria_lists

example : userCriteria.direct "*" = "SELECT * FROM t_user WHERE user_id > ?" ++
    " OR (full_name IN ('O''Brien','?')) ORDER BY full_name DESC" := by decide +kernel

end FilterSql
