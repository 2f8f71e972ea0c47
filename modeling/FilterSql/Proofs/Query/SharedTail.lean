import FilterSql.Proofs.Query.Direct
import FilterSql.Proofs.Query.Entities
import FilterSql.Proofs.Query.Names
import FilterSql.Proofs.Query.Projections
import FilterSql.Proofs.Sql.Unquoted
/-!
# The common tail

The three statements are filled in, read and resolved one by one. Without quotes and tags in the
select list nothing that stands in it reaches over the word `FROM`, whatever alias it leaves
awaited, so all three have the resolved tail in common.
-/
namespace FilterSql

open Sql Text Node

variable {f : String → Option String} {aliased : Bool}

theorem resolveFrom_word_blank {w : String} (hw : isWord w = true) (hf : f w = none)
    (r : List Char) :
    resolveFrom f aliased (w.toList ++ ' ' :: r) = w.toList ++ ' ' :: resolveFrom f false r := by
  obtain ⟨hn, -, ha⟩ := isWord_iff.1 hw
  rw [← String.ofList_toList (s := w)] at hf
  rw [resolveFrom_keyword (.name hn) rfl ha hf]
  exact congrArg _ (resolveFrom_plain (p := [' ']) (by decide) r)

theorem resolveFrom_from (hf : f "FROM" = none) (r : List Char) :
    resolveFrom f aliased (" FROM ".toList ++ r) = " FROM ".toList ++ resolveFrom f false r := by
  change resolveFrom f aliased ([' '] ++ ("FROM".toList ++ ' ' :: r)) = _
  rw [resolveFrom_plain (by decide), resolveFrom_word_blank (by decide) hf]
  rfl

namespace Criteria

variable {c : Criteria} {provider : Provider} {q : Query}

/-- Some entity is known under this name: in a criteria with a source it is the first name of a
path, in any other it is the entity's own name. -/
def RefersTo (c : Criteria) (provider : Provider) (name : String) : Prop :=
  match c.source with
  | some _ => ∃ p, Mentions (tokenize (fillTemplate c.template c.selectList)) name p
  | none => ∃ e, provider c.entity.name = .ok e ∧ e.name = name

/-- Words of SQL that are no entities are left alone. -/
theorem ReplacedBy.eq_none (h : c.ReplacedBy provider (fillTemplate c.template c.selectList) f)
    {w : String} (hw : isWord w = true) (hnot : ¬ c.RefersTo provider w) : f w = none := by
  obtain ⟨hn, hr, -⟩ := isWord_iff.1 hw
  cases h with
  | record hs hrecord =>
    rw [RefersTo, hs] at hnot
    exact (Resolution.records_of_ofSql hrecord).replacement?_eq_none (not_mem_of_isName hn)
      fun p hp => hnot ⟨p, hp⟩
  | @entity e hs he =>
    rw [RefersTo, hs] at hnot
    have hne : w ≠ e.name := fun hwe => hnot ⟨e, he, hwe.symm⟩
    rw [Entity.replacement?_name hn hne, if_pos hr]

theorem exists_resolve_eq {x : (String → String) × Option NameTable}
    (h : c.resolver provider (fillTemplate c.template c.selectList) = .ok x) :
    ∃ f, x.1 = resolve f ∧ (∀ w, isWord w = true → ¬ c.RefersTo provider w → f w = none) ∧
      ∀ Q, IsPathLike Q → provider.NamesSatisfy Q → Yields Q f := by
  obtain ⟨f, hf, hx⟩ := exists_replacedBy h
  exact ⟨f, hx, fun w => hf.eq_none, fun Q hQ hprovider => hf.yields hprovider hQ⟩

theorem exists_tail_eq (c : Criteria) : ∃ t, c.tail.toList = " FROM ".toList ++ t :=
  ⟨_, c.toList_tail⟩

theorem resolve_tail (hfrom : f "FROM" = none) (c : Criteria) :
    " FROM ".toList <+: (resolve f c.tail).toList ∧
      ∀ aliased, resolveFrom f aliased c.tail.toList = (resolve f c.tail).toList := by
  obtain ⟨t, ht⟩ := c.exists_tail_eq
  have hresolve (b : Bool) : resolveFrom f b c.tail.toList =
      " FROM ".toList ++ resolveFrom f false t := by
    rw [ht]
    exact resolveFrom_from hfrom t
  rw [toList_resolve]
  exact ⟨⟨_, (hresolve false).symm⟩, fun b => (hresolve b).trans (hresolve false).symm⟩

theorem resolve_selectList (hselect : f "SELECT" = none) (hfrom : f "FROM" = none)
    {selectList : String} (hs : Lacks isQuote selectList.toList) (c : Criteria) :
    resolve f ("SELECT " ++ selectList ++ c.tail) =
      "SELECT " ++ resolve f selectList ++ resolve f c.tail := by
  obtain ⟨t, ht⟩ := c.exists_tail_eq
  have hsplit (u : List Char) : "SELECT ".toList ++ u = "SELECT".toList ++ ' ' :: u := rfl
  have hlist : resolveFrom f false (selectList.toList ++ c.tail.toList) =
      (resolve f selectList).toList ++ (resolve f c.tail).toList := by
    rw [toList_resolve, ← (resolve_tail hfrom c).2 (aliasedAfter false (tokens selectList.toList)),
      ht]
    exact resolveFrom_append_of_closesBefore (.of_lacks_quotes hs _)
  apply String.toList_inj.1
  simp only [String.toList_append, List.append_assoc, toList_resolve]
  rw [hsplit, resolveFrom_word_blank (by decide) hselect, hlist, toList_resolve, toList_resolve]
  rfl

/-- A statement with its select list filled in is resolved in two parts. -/
theorem Untagged.resolve_filled (hc : c.Untagged) (hselect : f "SELECT" = none)
    (hfrom : f "FROM" = none) {selectList : String} (hs : Lacks isQuote selectList.toList) :
    resolve f (fillTemplate c.template selectList) =
      "SELECT " ++ resolve f selectList ++ resolve f c.tail := by
  rw [hc.fillTemplate_eq]
  exact resolve_selectList hselect hfrom hs c

theorem resolve_template_eq (hselect : f "SELECT" = none) (c : Criteria) :
    resolve f c.template = "SELECT " ++ projectionTag ++ resolve f c.tail := by
  apply String.toList_inj.1
  rw [template, resolve_template, replaced, String.ofList_toList, hselect, ← toList_resolve]
  simp

theorem lacks_selectList_of_isProjection (h : ∀ p ∈ c.projectionList, IsProjection p) :
    Lacks isQuote c.selectList.toList :=
  lacks_selectList (fun _ => isMark_of_isQuote) fun p hp =>
    (h p hp).lacks.mono fun _ => isMark_of_isQuote

/-- The three statements are their select lists in front of the resolved tail, the template with the
tag in the place of one. So the data query is the template with its select list filled in, and no
other occurrence of the tag is in the way unless resolving has brought it into the tail. -/
theorem compile_shares_tail (hprojections : ∀ p ∈ c.projectionList, IsProjection p)
    (hc : c.Untagged) (hselect : ¬ c.RefersTo provider "SELECT")
    (hfrom : ¬ c.RefersTo provider "FROM") (h : c.compile provider = .ok q) :
    ∃ rewrite names, c.resolver provider (fillTemplate c.template c.selectList) =
        .ok (rewrite, names) ∧
      ∃ t, " FROM ".toList <+: t.toList ∧ q.template = "SELECT " ++ projectionTag ++ t ∧
        q.data = "SELECT " ++ rewrite c.selectList ++ t ∧
        (groupingKey? c.nodes = none → q.count = "SELECT " ++ rewrite "COUNT(*) count" ++ t) ∧
        (¬ projectionTag.toList <:+: t.toList →
          fillTemplate q.template (rewrite c.selectList) = q.data) := by
  obtain ⟨⟨rewrite, names⟩, hx, hdata, htemplate, -, hcount⟩ := compile_eq_ok h
  obtain ⟨f, rfl, hwords, -⟩ := exists_resolve_eq hx
  have hselect := hwords "SELECT" rfl hselect
  have hfrom := hwords "FROM" rfl hfrom
  have htag := htemplate.trans (resolve_template_eq hselect c)
  have hlist := lacks_selectList_of_isProjection hprojections
  have hfilled := hdata.trans (hc.resolve_filled hselect hfrom hlist)
  refine ⟨_, names, hx, resolve f c.tail, (resolve_tail hfrom c).1, htag, hfilled, fun hkey => ?_,
    fun hnone => ?_⟩
  · rw [hkey] at hcount
    exact hcount.trans (hc.resolve_filled hselect hfrom (by decide))
  · have hword : Unreplaced projectionTag.toList (resolve f c.selectList).toList "SELECT " :=
      unreplaced_of_not_mem (by decide)
    apply String.toList_inj.1
    rw [hfilled, htag, fillTemplate, String.toList_ofList, String.append_assoc,
      String.toList_append, String.toList_append, hword, replace_append_old (by decide),
      replace_of_not_infix hnone]
    simp only [String.toList_append, List.append_assoc]

end Criteria

/-- A source and two projections, one of which has the word `FROM` as its alias. -/
def sourceCriteria : Criteria :=
  ((Criteria.fetching userEntity).runAll
    [.select "User.id as FROM", .selectExpression "User.name", .source "User AS User",
      .step (.filter .and ⟨"User.id", .among true [.text "$", .text "?"]⟩)]).1

theorem isProjection_sourceCriteria : ∀ p ∈ sourceCriteria.projectionList, IsProjection p := by
  have hlist : sourceCriteria.projectionList = ["User.id AS FROM", "User.name"] := rfl
  rw [hlist]
  simp only [List.forall_mem_cons]
  exact ⟨.path (s := "User.id as FROM") rfl,
    .expression (s := "User.name") (x := ⟨none, some "User", "name", none⟩) rfl, nofun⟩

theorem untagged_sourceCriteria : sourceCriteria.Untagged := by
  have hnodes : sourceCriteria.nodes =
      [.list ⟨.and, .notAmong, "User.id"⟩ [.text "$", .text "?"]] := rfl
  constructor
  · intro m hm _
    rw [hnodes] at hm
    obtain rfl := List.mem_singleton.1 hm
    decide +kernel
  · intro l vs hvs
    rw [hnodes] at hvs
    obtain ⟨rfl, rfl⟩ := Node.list.inj (List.mem_singleton.1 hvs)
    decide +kernel
  · exact nofun
  · decide +kernel

theorem compile_sourceCriteria :
    ∃ (q : Query) (rewrite : String → String) (t : String),
      sourceCriteria.compile (Registry.ofList [userEntity]).resolve = .ok q ∧
        q.template = "SELECT " ++ projectionTag ++ t ∧
        q.data = "SELECT " ++ rewrite sourceCriteria.selectList ++ t ∧
        q.count = "SELECT " ++ rewrite "COUNT(*) count" ++ t := by
  have hcompile : (sourceCriteria.compile (Registry.ofList [userEntity]).resolve).isOk = true := by
    decide +kernel
  have hsource : sourceCriteria.source = some "User AS User" := rfl
  have hrefers : ∀ x ∈ qualifiedPaths (fillTemplate sourceCriteria.template
      sourceCriteria.selectList), x.1 ≠ "SELECT" ∧ x.1 ≠ "FROM" := by decide +kernel
  have hnot {name : String} (h : ∀ x ∈ qualifiedPaths (fillTemplate sourceCriteria.template
      sourceCriteria.selectList), x.1 ≠ name) :
      ¬ sourceCriteria.RefersTo (Registry.ofList [userEntity]).resolve name := by
    rw [Criteria.RefersTo, hsource]
    rintro ⟨p, hp⟩
    exact h _ (mentions_iff.1 hp) rfl
  cases hq : sourceCriteria.compile (Registry.ofList [userEntity]).resolve with
  | error x => rw [hq] at hcompile; cases hcompile
  | ok q =>
    obtain ⟨rewrite, -, -, t, -, htemplate, hdata, hcount, -⟩ := Criteria.compile_shares_tail
      isProjection_sourceCriteria untagged_sourceCriteria (hnot fun x hx => (hrefers x hx).1)
      (hnot fun x hx => (hrefers x hx).2) hq
    exact ⟨q, rewrite, t, rfl, htemplate, hdata, hcount rfl⟩

def tagEntity : Entity :=
  { name := "Item", table := "t_item", fields := .ofList [("p", ⟨"PROJECTION\x7d", .int, false⟩)] }

/-- Resolving the key brings a tag into the tail. -/
def tagKeyCriteria : Criteria :=
  ((Criteria.fetching tagEntity).runAll
    [.step (.filter .and ⟨"$\x7bp", .compare .eq (.int 1)⟩)]).1

def tagSortCriteria : Criteria :=
  ((Criteria.fetching tagEntity).runAll [.orderBy "$\x7bPROJECTION\x7d" .asc]).1

theorem untagged_tagKeyCriteria : tagKeyCriteria.Untagged := by
  have hnodes : tagKeyCriteria.nodes = [.scalar ⟨.and, .eq, "$\x7bp"⟩ (.int 1)] := rfl
  constructor
  · intro m hm _
    rw [hnodes] at hm
    obtain rfl := List.mem_singleton.1 hm
    decide +kernel
  · intro l vs hvs
    rw [hnodes] at hvs
    cases List.mem_singleton.1 hvs
  · exact nofun
  · decide +kernel

def compiledTexts (c : Criteria) : Option (String × String) :=
  (c.compile (Registry.ofList [tagEntity]).resolve).toOption.map fun q => (q.template, q.data)

theorem exists_of_compiledTexts {c : Criteria} {template data : String}
    (h : compiledTexts c = some (template, data)) :
    ∃ q, c.compile (Registry.ofList [tagEntity]).resolve = .ok q ∧ q.template = template ∧
      q.data = data := by
  obtain ⟨q, hq, h⟩ := exists_of_toOption_map h
  obtain ⟨htemplate, hdata⟩ := Prod.mk.inj h
  exact ⟨q, hq, htemplate, hdata⟩

/-- Filling in the template everywhere need not give the data query, and with the tag in the sort
the two have no tail in common. -/
theorem not_sharesTail_tagEntity :
    (tagKeyCriteria.Untagged ∧
      (∀ x ∈ tagEntity.fields.entries, ¬ projectionTag.toList <:+: x.2.column.toList) ∧
      ∃ q, tagKeyCriteria.compile (Registry.ofList [tagEntity]).resolve = .ok q ∧
        fillTemplate q.template (tagEntity.resolve tagKeyCriteria.selectList) ≠ q.data) ∧
    tagSortCriteria.nodes = [] ∧ tagSortCriteria.fromClause = " FROM t_item" ∧
      ∃ q, tagSortCriteria.compile (Registry.ofList [tagEntity]).resolve = .ok q ∧
        ¬ ∃ t, q.template = "SELECT " ++ projectionTag ++ t ∧
          q.data = "SELECT " ++ tagEntity.resolve tagSortCriteria.selectList ++ t := by
  have hstar : tagEntity.resolve "*" = "*" := by decide +kernel
  constructor
  · have htexts : compiledTexts tagKeyCriteria =
        some ("SELECT $\x7bPROJECTION\x7d FROM t_item WHERE $\x7bPROJECTION\x7d = ?",
          "SELECT * FROM t_item WHERE $\x7bPROJECTION\x7d = ?") := by decide +kernel
    obtain ⟨q, hq, htemplate, hdata⟩ := exists_of_compiledTexts htexts
    refine ⟨untagged_tagKeyCriteria, by decide +kernel, q, hq, ?_⟩
    have hselect : tagKeyCriteria.selectList = "*" := rfl
    rw [htemplate, hdata, hselect, hstar]
    decide +kernel
  · have htexts : compiledTexts tagSortCriteria =
        some ("SELECT $\x7bPROJECTION\x7d FROM t_item ORDER BY $\x7bPROJECTION\x7d ASC",
          "SELECT * FROM t_item ORDER BY * ASC") := by decide +kernel
    obtain ⟨q, hq, htemplate, hdata⟩ := exists_of_compiledTexts htexts
    have hselect : tagSortCriteria.selectList = "*" := rfl
    refine ⟨rfl, rfl, q, hq, ?_⟩
    rintro ⟨t, htail, hshort⟩
    rw [htemplate] at htail
    rw [hdata, hselect, hstar] at hshort
    have hsplit : "SELECT $\x7bPROJECTION\x7d FROM t_item ORDER BY $\x7bPROJECTION\x7d ASC" =
        "SELECT " ++ projectionTag ++ " FROM t_item ORDER BY $\x7bPROJECTION\x7d ASC" := rfl
    have hsame := congrArg String.toList (hsplit.symm.trans htail)
    rw [String.toList_append, String.toList_append (t := t)] at hsame
    rw [← String.toList_inj.1 (List.append_cancel_left hsame)] at hshort
    revert hshort
    decide +kernel

end FilterSql
