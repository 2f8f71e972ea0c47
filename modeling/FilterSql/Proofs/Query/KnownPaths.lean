import FilterSql.Proofs.Query.SharedTail
import FilterSql.Proofs.Sql.PathMarks
/-!
# Paths that an entity knows

A statement about one entity alone refers to paths of this entity and to its name. Every other path
in it is a name that the entity does not replace, or one that is no reference, as an alias is.
-/
namespace FilterSql

open Sql Text Node

/-- An entity whose name is read as a reference to it, and whose table is read as neither a property
nor a path of the entity. -/
structure Entity.Addressable (e : Entity) : Prop where
  isName : isName e.name.toList = true
  name : isReserved e.name = false
  table : IsPath e.table.toList
  undeclared : e.field? e.table = none
  unqualified : ¬ (e.name ++ ".").toList <+: e.table.toList

def Entity.Owns (e : Entity) (path : String) : Prop :=
  ∃ p, Sql.isName p.toList = true ∧ path = e.name ++ "." ++ p

/-- A projection of a path of the entity; a function around it has a name that stands for nothing
else. -/
structure Expression.IsAbout (e : Entity) (x : Expression) : Prop extends x.IsLexical where
  owns : e.Owns x.reference
  spared : ∀ f, x.function = some f → f ≠ e.name ∧ e.field? f = none

/-- A text that such a projection is written as. The reference of a plain projection stands in front
of its first blank. -/
inductive Entity.Projects (e : Entity) : String → Prop
  | path {s p : String} (h : Projection.parse s = .ok p)
    (hp : e.Owns (String.ofList (p.toList.takeWhile (· != ' ')))) : Projects e p
  | expression {s : String} {x : Expression} (h : Expression.parse s = .ok x)
    (hx : e.Owns x.reference) (hf : ∀ f, x.function = some f → f ≠ e.name ∧ e.field? f = none) :
    Projects e x.sql

/-- A path of the entity, or a name that is the entity's own or stays as it is. -/
inductive Entity.Knows (e : Entity) : Bool × Token → Prop
  | owned {b : Bool} {t : Token} {p : String} (h : t.IsQualified e.name p) : Knows e (b, t)
  | own {b : Bool} {t : Token} (h : t.text = e.name) (hpoint : '.' ∉ t.chars) : Knows e (b, t)
  | kept {t : Token} (h : e.replacement? t.text = none) (hpoint : '.' ∉ t.chars) : Knows e (true, t)
  | unread {t : Token} (hpoint : '.' ∉ t.chars) : Knows e (false, t)

namespace Entity

variable {e : Entity} {path : String}

theorem Addressable.sparesWords (he : e.Addressable) : SparesWords e.replacement? :=
  sparesWords_replacement? he.name

theorem Owns.isQualified (he : e.Addressable) (h : e.Owns path) :
    ∃ p, (⟨.path, path.toList⟩ : Token).IsQualified e.name p := by
  obtain ⟨p, hp, rfl⟩ := h
  exact ⟨p, rfl, String.ofList_toList, not_mem_of_isName he.isName, not_mem_of_isName hp⟩

theorem Owns.isPath (he : e.Addressable) (h : e.Owns path) : IsPath path.toList := by
  obtain ⟨p, hp, rfl⟩ := h
  have hpath := IsPath.qualified he.isName (.name hp)
  simpa using hpath

theorem Owns.not_isAsWord (h : e.Owns path) : isAsWord path.toList = false := by
  obtain ⟨p, -, rfl⟩ := h
  exact isAsWord_of_point (by simp)

theorem Owns.knows (he : e.Addressable) (h : e.Owns path) (b : Bool) :
    e.Knows (b, ⟨.path, path.toList⟩) := by
  obtain ⟨p, hp⟩ := h.isQualified he
  exact .owned hp

theorem knows_name {n : String} (hn : Sql.isName n.toList = true) (hf : e.replacement? n = none)
    (b : Bool) : e.Knows (b, ⟨.path, n.toList⟩) := by
  have hpoint := not_mem_of_isName hn
  cases b with
  | true => exact .kept (by rwa [Token.text, String.ofList_toList]) hpoint
  | false => exact .unread hpoint

theorem Addressable.knows_word (he : e.Addressable) {w : String} (hw : isWord w = true) (b : Bool) :
    e.Knows (b, ⟨.path, w.toList⟩) :=
  knows_name (isWord_iff.1 hw).1 (he.sparesWords w hw) b

theorem Addressable.readsWords (he : e.Addressable) : ReadsWords fun s _ => Marks e.Knows s := by
  refine ⟨.empty, .append, .plain, fun {w} hw => ?_⟩
  obtain ⟨hn, -, ha⟩ := isWord_iff.1 hw
  exact .reference (.name hn) ha (he.knows_word hw true)

end Entity

theorem Value.marks_listLiterals {P : Bool × Token → Prop} {vs : List Value}
    (h : Value.IsLexical vs) : Marks P (listLiterals vs ++ ")") := by
  have hclose : Marks P ")" := .plain (by decide)
  cases hq : vs.head?.any Value.isNumeric with
  | true =>
    rcases h with h | h
    · exact (Marks.plain (isPlain_listLiterals h hq)).append hclose
    · rw [hq] at h
      cases h
  | false =>
    cases vs with
    | nil => exact .plain (by decide)
    | cons v vs =>
      intro r hr
      have hnone : (listTokens (v :: vs)).flatMap (fun t => pathMark (false, t)) = [] :=
        List.flatMap_eq_nil_iff.2 fun t ht => if_neg (kind_of_mem_listTokens ht)
      rw [String.toList_append, List.append_assoc, pathMarks,
        gather_listLiterals hq (by simp) false (by simp), hnone, List.nil_append]
      exact hclose r hr

namespace Expression.IsAbout

variable {e : Entity} {x : Expression} {r : List Char}

theorem knows_aliasClause (hx : x.IsAbout e) (hr : continuesPath r = false)
    (h : ∀ m ∈ pathMarks false r, e.Knows m) :
    continuesPath (x.aliasClause.toList ++ r) = false ∧
      ∀ m ∈ pathMarks false (x.aliasClause.toList ++ r), e.Knows m := by
  rw [aliasClause]
  cases ha : x.aliasName with
  | none => exact ⟨hr, h⟩
  | some a =>
    have hn := hx.aliasName a ha
    have hsplit : (" AS " ++ a).toList ++ r =
        [' '] ++ ("AS".toList ++ ([' '] ++ (a.toList ++ r))) := by
      rw [String.toList_append, List.append_assoc]
      rfl
    have has : isAsWord "AS".toList = true := by decide
    -- the word is no reference, and neither is the name behind it
    rw [hsplit, pathMarks_plain (by decide), pathMarks_path (.name (by decide)) rfl, has,
      pathMarks_plain (by decide)]
    change _ ∧ ∀ m ∈ _ :: pathMarks true (a.toList ++ r), e.Knows m
    rw [pathMarks_path (.name hn) hr]
    exact ⟨rfl, List.forall_mem_cons.2 ⟨.unread (by decide),
      List.forall_mem_cons.2 ⟨.unread (not_mem_of_isName hn), h⟩⟩⟩

theorem knows_reference (he : e.Addressable) (hx : x.IsAbout e) (hr : continuesPath r = false)
    (h : ∀ m ∈ pathMarks false r, e.Knows m) :
    ∀ m ∈ pathMarks false (x.reference.toList ++ r), e.Knows m := by
  rw [pathMarks_path hx.reference hr, hx.owns.not_isAsWord]
  exact List.forall_mem_cons.2 ⟨hx.owns.knows he _, h⟩

theorem knows_sql (he : e.Addressable) (hx : x.IsAbout e) (hr : continuesPath r = false)
    (h : ∀ m ∈ pathMarks false r, e.Knows m) :
    ∀ m ∈ pathMarks false (x.sql.toList ++ r), e.Knows m := by
  obtain ⟨hbehind, hclause⟩ := knows_aliasClause hx hr h
  rw [sql_eq, String.toList_append, List.append_assoc]
  cases hf : x.function with
  | none => exact knows_reference he hx hbehind hclause
  | some f =>
    have hn := hx.function f hf
    obtain ⟨hne, hfield⟩ := hx.spared f hf
    have hkept : e.replacement? f = none := by
      rw [Entity.replacement?_name hn hne, Entity.column?, hfield]
      split <;> rfl
    have hsplit (t : List Char) : (f ++ "(" ++ x.reference ++ ")").toList ++ t =
        f.toList ++ (['('] ++ (x.reference.toList ++ ([')'] ++ t))) := by
      simp
    have hclose : ∀ m ∈ pathMarks false ([')'] ++ (x.aliasClause.toList ++ r)), e.Knows m := by
      rw [pathMarks_plain (by decide)]
      exact hclause
    have hreference := knows_reference he hx rfl hclose
    have hopen : ['('].all isBlank = false := by decide
    dsimp only
    rw [hsplit, pathMarks_path (.name hn) rfl, pathMarks_plain (by decide), hopen, Bool.and_false]
    exact List.forall_mem_cons.2 ⟨Entity.knows_name hn hkept _, hreference⟩

end Expression.IsAbout

namespace Entity.Projects

variable {e : Entity} {p : String}

theorem isProjection (h : e.Projects p) : IsProjection p := by
  cases h with
  | path h => exact .path h
  | expression h => exact .expression h

theorem exists_sql (h : e.Projects p) : ∃ x : Expression, x.IsAbout e ∧ p = x.sql := by
  cases h with
  | path h hp =>
    obtain ⟨x, hx, hf, rfl⟩ := Projection.exists_sql_of_parse h
    rw [hx.takeWhile_sql hf, String.ofList_toList] at hp
    refine ⟨x, ⟨hx, hp, fun f hsome => ?_⟩, rfl⟩
    rw [hf] at hsome
    cases hsome
  | expression h hx hf => exact ⟨_, ⟨Expression.isLexical_of_parse h, hx, hf⟩, rfl⟩

end Entity.Projects

namespace Criteria

variable {c : Criteria} {e : Entity}

theorem knows_selectList (he : e.Addressable)
    (h : ∀ s ∈ c.projectionList, e.Projects s) :
    ∀ m ∈ pathMarks false c.selectList.toList, e.Knows m := by
  have hlist (ss : List String) (hss : ∀ s ∈ ss, e.Projects s) :
      ∀ m ∈ pathMarks false (", ".intercalate ss).toList, e.Knows m := by
    rw [String.toList_intercalate]
    induction ss with
    | nil =>
      rw [List.map_nil, List.intercalate_nil, pathMarks_nil]
      exact List.forall_mem_nil _
    | cons s ss ih =>
      rw [List.forall_mem_cons] at hss
      obtain ⟨hs, hss⟩ := hss
      obtain ⟨x, hx, rfl⟩ := hs.exists_sql
      cases ss with
      | nil =>
        have hnone : ∀ m ∈ pathMarks false [], e.Knows m := by
          rw [pathMarks_nil]
          exact List.forall_mem_nil _
        have hlast := hx.knows_sql he rfl hnone
        rw [List.append_nil] at hlast
        rwa [List.map_singleton, List.intercalate_singleton]
      | cons t ss =>
        rw [List.map_cons, List.map_cons, List.intercalate_cons_cons, List.append_assoc]
        refine hx.knows_sql he rfl ?_
        rw [pathMarks_plain (by decide), Bool.false_and]
        exact ih hss
  rw [selectList]
  split
  · have hstar : Marks e.Knows "*" := .plain (by decide)
    have h := hstar [] (by rw [pathMarks_nil]; exact List.forall_mem_nil _)
    rwa [List.append_nil] at h
  · exact hlist _ h

theorem knows_orderClause (he : e.Addressable) (hkeys : Keyed e.Owns c) :
    ∀ m ∈ pathMarks false c.orderClause.toList, e.Knows m := by
  rw [orderClause]
  cases ho : c.orderBy with
  | none =>
    rw [String.toList_empty, pathMarks_nil]
    exact List.forall_mem_nil _
  | some o =>
    have howns := hkeys.orderBy o ho
    have hkey : Marks e.Knows (o.property ++ " ") :=
      .reference (howns.isPath he) howns.not_isAsWord (howns.knows he true)
    have hword : isWord o.direction.sql = true := by cases o.direction <;> rfl
    have hdirection : ∀ m ∈ pathMarks false o.direction.sql.toList, e.Knows m := by
      rw [← List.append_nil o.direction.sql.toList, pathMarks_path (.name (isWord_iff.1 hword).1) rfl,
        pathMarks_nil]
      exact List.forall_mem_singleton.2 (he.knows_word hword _)
    have hfront : Marks e.Knows (" ORDER BY " ++ o.property ++ " ") :=
      @ReadsWords.orderBy _ he.readsWords o.property o.property hkey
    have h := hfront _ hdirection
    rwa [← String.toList_append] at h

theorem marks_whereClause (he : e.Addressable) (hkeys : Keyed e.Owns c) (hl : HasLexicalLists c) :
    Marks e.Knows (whereClause c.nodes) := by
  refine he.readsWords.compositional.whereClause_rename (g := id)
    (he.readsWords.spaced (w := "WHERE") rfl) (fun m hm hleaf => ?_) fun l vs hvs => ?_
  · have howns := hkeys.of_mem_conditions hm hleaf
    exact .reference (howns.isPath he) howns.not_isAsWord (howns.knows he true)
  · exact Value.marks_listLiterals (hl l vs (mem_subnodesList_of_conditions hvs)).1

theorem knows_tail (he : e.Addressable) (hs : c.source = some e.name) (hkeys : Keyed e.Owns c)
    (hl : HasLexicalLists c) (aliased : Bool) :
    ∀ m ∈ pathMarks aliased c.tail.toList, e.Knows m := by
  have hbehind : ∀ m ∈ pathMarks false (whereClause c.nodes ++ c.orderClause).toList,
      e.Knows m := by
    rw [String.toList_append]
    exact marks_whereClause he hkeys hl _ (knows_orderClause he hkeys)
  have hsplit : c.tail.toList = [' '] ++ ("FROM".toList ++ ([' '] ++ (e.name.toList ++
      (whereClause c.nodes ++ c.orderClause).toList))) := by
    rw [toList_tail, hs]
    simp
  have hname : isAsWord e.name.toList = false := isAsWord_of_not_isReserved he.name
  have hfrom : isAsWord "FROM".toList = false := by decide
  rw [hsplit, pathMarks_plain (by decide), pathMarks_path (.name (by decide)) rfl, hfrom,
    Bool.and_false, pathMarks_plain (by decide), Bool.false_and,
    pathMarks_path (.name he.isName) c.continuesPath_behind_table, hname, Bool.and_false]
  exact List.forall_mem_cons.2 ⟨he.knows_word (w := "FROM") rfl _,
    List.forall_mem_cons.2 ⟨.own String.ofList_toList (not_mem_of_isName he.isName), hbehind⟩⟩

theorem pathMarks_statement (hs : Lacks isQuote c.selectList.toList) :
    ∃ aliased, pathMarks false ("SELECT " ++ c.selectList ++ c.tail).toList =
      (true, ⟨.path, "SELECT".toList⟩) ::
        (pathMarks false c.selectList.toList ++ pathMarks aliased c.tail.toList) := by
  obtain ⟨t, ht⟩ := c.exists_tail_eq
  have hblank : c.tail.toList = ' ' :: ("FROM ".toList ++ t) := ht
  have hsplit : ("SELECT " ++ c.selectList ++ c.tail).toList =
      "SELECT".toList ++ ([' '] ++ (c.selectList.toList ++ c.tail.toList)) := by
    rw [String.toList_append, String.toList_append, List.append_assoc]
    rfl
  have hword : isAsWord "SELECT".toList = false := by decide
  rw [hsplit, pathMarks_path (.name (by decide)) rfl, hword, pathMarks_plain (by decide), hblank]
  exact ⟨_, congrArg _ (pathMarks_append_blank hs _)⟩

end Criteria

/-- Among paths that an entity knows, those of two names are paths of the entity. -/
theorem Entity.eq_name_of_mentions {e : Entity} {sql name p : String}
    (h : ∀ m ∈ pathMarks false sql.toList, e.Knows m) (hm : Mentions (tokenize sql) name p) :
    name = e.name := by
  obtain ⟨t, ht, hq⟩ := hm
  have hpoint : '.' ∈ t.chars := List.count_pos_iff.1 (by rw [hq.count_point]; exact Nat.one_pos)
  obtain ⟨b, hb⟩ : ∃ b, (b, t) ∈ pathMarks false sql.toList := exists_mem_pathMarks ht hq.path
  have hknows := h _ hb
  cases hknows with
  | owned hq' => exact (hq'.unique hq).1
  | own _ hnot => exact absurd hpoint hnot
  | kept _ hnot => exact absurd hpoint hnot
  | unread hnot => exact absurd hpoint hnot

end FilterSql
