import FilterSql.Proofs.Query.KnownPaths
/-!
# Two ways to compile a criteria about one entity

A criteria without a source is resolved from the declarations of its entity, and one with a source
from a record of the paths in its data query. With the entity itself as its source a criteria about
this entity alone compiles to the same statements, since on the paths that the entity knows the
record does what the declarations do.
-/
namespace FilterSql

open Sql Text Node

namespace Entity

variable {e : Entity}

theorem replacement?_self (h : '.' ∉ e.name.toList) : e.replacement? e.name = some e.table := by
  rw [replacement?, cutAt_of_not_mem h]
  exact if_pos rfl

theorem replacement?_qualified {name : String} (h : '.' ∉ name.toList) (p : String) :
    e.replacement? (name ++ "." ++ p) =
      if name = e.name then some (e.table ++ "." ++ e.columnOf p) else none := by
  have hcut : cutAt '.' (name ++ "." ++ p).toList = some (name.toList, p.toList) :=
    cutAt_eq_some.2 ⟨by simp, h⟩
  rw [replacement?, hcut]
  dsimp only
  rw [String.ofList_toList, String.ofList_toList]

theorem replacement?_owned (h : '.' ∉ e.name.toList) (p : String) :
    e.replacement? (e.name ++ "." ++ p) = some (e.table ++ "." ++ e.columnOf p) := by
  rw [replacement?_qualified h, if_pos rfl]

end Entity

/-- The record of the paths of one entity replaces what the entity knows as the entity does. -/
theorem Resolution.Records.replacement?_eq {provider : Provider} {e : Entity} {r : Resolution}
    {sql : String} (hr : r.Records provider (tokenize sql)) (he : e.Addressable)
    (hprovider : provider e.name = .ok e) (hknows : ∀ m ∈ pathMarks false sql.toList, e.Knows m)
    (hmentions : ∃ p, Mentions (tokenize sql) e.name p) {t : Token} (ht : t ∈ tokenize sql)
    (hm : e.Knows (true, t)) : e.replacement? t.text = r.replacement? t.text := by
  have hpoint := not_mem_of_isName he.isName
  have hbare (hnot : '.' ∉ t.chars) : '.' ∉ t.text.toList := by
    rwa [Token.text, String.toList_ofList]
  cases hm with
  | @owned b t p hq =>
    have hmem : (e.name ++ "." ++ p).toList.contains '.' = true := by simp
    rw [hq.text, Entity.replacement?_owned hpoint, replacement?, if_pos hmem]
    exact ((hr.names _ _).2 ⟨e.name, p, e, ⟨t, ht, hq⟩, hprovider, rfl, rfl⟩).symm
  | own htext hnot =>
    rw [replacement?_name (hbare hnot), htext, Entity.replacement?_self hpoint,
      (hr.entities _ _).2 ⟨hmentions, hprovider⟩]
    rfl
  | kept hkept hnot =>
    rw [hkept]
    refine (hr.replacement?_eq_none (hbare hnot) fun p hp => ?_).symm
    -- a path of this name is one of the entity, whose name would have been replaced
    rw [Entity.eq_name_of_mentions hknows hp, Entity.replacement?_self hpoint] at hkept
    cases hkept

theorem Resolution.Records.sparesWords {provider : Provider} {e : Entity} {r : Resolution}
    {sql : String} (hr : r.Records provider (tokenize sql)) (he : e.Addressable)
    (hknows : ∀ m ∈ pathMarks false sql.toList, e.Knows m) : SparesWords r.replacement? := by
  intro w hw
  obtain ⟨hn, hreserved, -⟩ := isWord_iff.1 hw
  refine hr.replacement?_eq_none (not_mem_of_isName hn) fun p hp => ?_
  rw [Entity.eq_name_of_mentions hknows hp, he.name] at hreserved
  cases hreserved

namespace Criteria

variable {c : Criteria} {e : Entity} {provider : Provider}

/-- A criteria about one entity alone: its keys and projections are paths of the entity, and its
lists hold neither references nor the tag. -/
structure IsAbout (e : Entity) (c : Criteria) : Prop extends Keyed e.Owns c where
  entity : c.entity = e
  projections : ∀ s ∈ c.projectionList, e.Projects s
  lists : HasLexicalLists c

def withSource (c : Criteria) (script : String) : Criteria := { c with source := some script }

theorem IsAbout.withSource (hc : c.IsAbout e) (script : String) :
    IsAbout e (c.withSource script) :=
  ⟨⟨hc.nodes, hc.orderBy⟩, hc.entity, hc.projections, hc.lists⟩

theorem IsAbout.untagged (he : e.Addressable) (hc : c.IsAbout e)
    (hs : IsPath (c.source.getD c.entity.table).toList) : c.Untagged :=
  hc.toKeyed.untagged (fun _ hp => hp.isPath he) hc.lists hs

theorem resolve_tail_withSource (he : e.Addressable) (hc : c.entity = e) (hs : c.source = none) :
    resolve e.replacement? (c.withSource e.name).tail = resolve e.replacement? c.tail := by
  have hfrom : e.replacement? "FROM" = none := he.sparesWords "FROM" rfl
  have hname : replaced e.replacement? e.name.toList = e.table.toList := by
    rw [replaced, String.ofList_toList, Entity.replacement?_self (not_mem_of_isName he.isName)]
    rfl
  have hbehind := resolveFrom_table he.sparesWords (.name he.isName) (c.withSource e.name)
  have htable := resolveFrom_table he.sparesWords he.table c
  rw [hname, isAsWord_of_not_isReserved he.name, if_neg Bool.false_ne_true] at hbehind
  rw [Entity.replaced_table he.undeclared he.unqualified, ite_self] at htable
  apply String.toList_inj.1
  rw [toList_resolve, toList_resolve, toList_tail, toList_tail, resolveFrom_from hfrom,
    resolveFrom_from hfrom, hs, hc]
  exact congrArg _ (hbehind.trans htable.symm)

theorem resolve_count {f : String → Option String} (hf : SparesWords f) :
    resolve f "COUNT(*) count" = "COUNT(*) count" := by
  have hsplit : "COUNT(*) count".toList =
      "COUNT".toList ++ ("(*) ".toList ++ ("count".toList ++ [])) := rfl
  apply String.toList_inj.1
  rw [toList_resolve, hsplit, hf.resolveFrom_word rfl rfl, resolveFrom_plain (by decide),
    hf.resolveFrom_word rfl rfl, resolveFrom_nil]

section

variable {f g : String → Option String}

theorem resolve_parts_congr (hs : Lacks isQuote c.selectList.toList)
    (hknows : ∀ m ∈ pathMarks false ("SELECT " ++ c.selectList ++ c.tail).toList, e.Knows m)
    (h : ∀ t ∈ tokenize ("SELECT " ++ c.selectList ++ c.tail), e.Knows (true, t) →
      f t.text = g t.text)
    (htail : ∀ m ∈ pathMarks false c.tail.toList, e.Knows m) :
    resolve f c.selectList = resolve g c.selectList ∧ resolve f c.tail = resolve g c.tail := by
  obtain ⟨aliased, hparts⟩ := pathMarks_statement hs
  have hagree {m : Bool × Token} (hm : m.2 ∈ tokenize ("SELECT " ++ c.selectList ++ c.tail))
      (hm' : e.Knows m) (htrue : m.1 = true) : f m.2.text = g m.2.text := by
    obtain ⟨b, t⟩ := m
    obtain rfl : b = true := htrue
    exact h t hm hm'
  have hmem {m : Bool × Token} (hm : m ∈ pathMarks false c.selectList.toList ∨
      m ∈ pathMarks aliased c.tail.toList) :
      m ∈ pathMarks false ("SELECT " ++ c.selectList ++ c.tail).toList := by
    rw [hparts]
    exact List.mem_cons_of_mem _ (List.mem_append.2 hm)
  constructor
  · apply String.toList_inj.1
    rw [toList_resolve, toList_resolve]
    refine resolveFrom_congr fun m hm => ?_
    have hm := hmem (.inl hm)
    exact hagree (mem_tokens_of_mem_pathMarks hm).1 (hknows m hm)
  · apply String.toList_inj.1
    rw [toList_resolve, toList_resolve]
    refine resolveFrom_congr fun m hm => ?_
    -- behind the select list the same token may have another mark
    obtain ⟨ht, hk⟩ := mem_tokens_of_mem_pathMarks hm
    obtain ⟨b, hb⟩ : ∃ b, (b, m.2) ∈ pathMarks aliased c.tail.toList := exists_mem_pathMarks ht hk
    exact hagree (mem_tokens_of_mem_pathMarks (hmem (.inr hb))).1 (htail m hm)

theorem compile_eq_parts (hc : c.Untagged) (hs : Lacks isQuote c.selectList.toList)
    (hf : SparesWords f) (hg : groupingKey? c.nodes = none) {names : Option NameTable}
    (h : c.resolver provider (fillTemplate c.template c.selectList) = .ok (resolve f, names)) :
    c.compile provider = .ok
      { count := "SELECT " ++ "COUNT(*) count" ++ resolve f c.tail
        data := "SELECT " ++ resolve f c.selectList ++ resolve f c.tail
        template := "SELECT " ++ projectionTag ++ resolve f c.tail
        binds := bindsList (conditions c.nodes)
        names := names } := by
  have hselect : f "SELECT" = none := hf "SELECT" rfl
  have hfrom : f "FROM" = none := hf "FROM" rfl
  have hquotes : Lacks isQuote "COUNT(*) count".toList := by decide
  have hcount := hc.resolve_filled hselect hfrom hquotes
  rw [resolve_count hf] at hcount
  rw [compile, h]
  change Except.ok _ = _
  rw [hg]
  dsimp only
  rw [hcount, hc.resolve_filled hselect hfrom hs, resolve_template_eq hselect]

end

namespace IsAbout

theorem lacks_selectList (hc : c.IsAbout e) : Lacks isQuote c.selectList.toList :=
  lacks_selectList_of_isProjection fun p hp => (hc.projections p hp).isProjection

theorem knows_statement (he : e.Addressable) (hc : c.IsAbout e) (hs : c.source = some e.name) :
    ∀ m ∈ pathMarks false ("SELECT " ++ c.selectList ++ c.tail).toList, e.Knows m := by
  obtain ⟨aliased, hparts⟩ := pathMarks_statement hc.lacks_selectList
  rw [hparts, List.forall_mem_cons, List.forall_mem_append]
  exact ⟨he.knows_word (w := "SELECT") rfl _, knows_selectList he hc.projections,
    knows_tail he hs hc.toKeyed hc.lists aliased⟩

end IsAbout

/-- The record that the statement is resolved from does with it what the entity does. -/
theorem IsAbout.exists_resolution (he : e.Addressable) (hprovider : provider e.name = .ok e)
    (hc : c.IsAbout e) (hs : c.source = some e.name)
    (hm : ∃ p, Mentions (tokenize (fillTemplate c.template c.selectList)) e.name p) :
    ∃ r : Resolution, c.resolver provider (fillTemplate c.template c.selectList) =
        .ok (resolve r.replacement?, some r.names) ∧ SparesWords r.replacement? ∧
      resolve e.replacement? c.selectList = resolve r.replacement? c.selectList ∧
      resolve e.replacement? c.tail = resolve r.replacement? c.tail := by
  have huntagged : c.Untagged := hc.untagged he (by rw [hs]; exact .name he.isName)
  have hknows := hc.knows_statement he hs
  rw [huntagged.fillTemplate_eq] at hm ⊢
  obtain ⟨r, hr⟩ : ∃ r, Resolution.ofSql provider ("SELECT " ++ c.selectList ++ c.tail) = .ok r := by
    refine Resolution.exists_ofSql fun name p hmentions => ⟨e, ?_⟩
    rw [Entity.eq_name_of_mentions hknows hmentions]
    exact hprovider
  have hrecords := Resolution.records_of_ofSql hr
  exact ⟨r, ResolvedBy.resolver_eq (.record hs hr), hrecords.sparesWords he hknows,
    resolve_parts_congr hc.lacks_selectList hknows
      (fun t ht => hrecords.replacement?_eq he hprovider hknows hm ht)
      (knows_tail he hs hc.toKeyed hc.lists false)⟩

/-- A criteria about one entity with some path of it in its data query compiles, and with the entity
as its source to the same statements. -/
theorem compile_ownSource (he : e.Addressable) (hprovider : provider e.name = .ok e)
    (hc : c.IsAbout e) (hs : c.source = none) (hg : c.groupBy? = none)
    (hm : ∃ p, Mentions (tokenize (fillTemplate (c.withSource e.name).template c.selectList))
      e.name p) :
    ∃ q q', c.compile provider = .ok q ∧ (c.withSource e.name).compile provider = .ok q' ∧
      q.data = q'.data ∧ q.template = q'.template ∧ q.count = q'.count ∧ q.binds = q'.binds := by
  have hsourced := hc.withSource e.name
  have huntagged : c.Untagged := hc.untagged he (by rw [hs, hc.entity]; exact he.table)
  have hkey := groupingKey?_of_groupBy? hg
  have hresolver : c.resolver provider (fillTemplate c.template c.selectList) =
      .ok (resolve e.replacement?, none) :=
    ResolvedBy.resolver_eq (.entity hs (by rwa [hc.entity]))
  obtain ⟨r, hresolver', hwords, hselectList, htail⟩ :=
    hsourced.exists_resolution he hprovider rfl hm
  refine ⟨_, _, compile_eq_parts huntagged hc.lacks_selectList he.sparesWords hkey hresolver,
    compile_eq_parts (hsourced.untagged he (.name he.isName)) hsourced.lacks_selectList hwords hkey
      hresolver', ?_⟩
  rw [← resolve_tail_withSource he hc.entity hs, htail]
  exact ⟨congrArg ("SELECT " ++ · ++ _) hselectList, rfl, rfl, rfl⟩

end Criteria

/-- A report about users: two projections, a group of conditions and a sort. -/
def userReport : Criteria :=
  ((Criteria.fetching userEntity).runAll
    [.select "User.id as key", .selectExpression "max[User->age].as.oldest",
      .step (.group .or [.filter .and ⟨"User.name", .among false [.text "O'Brien", .text "?"]⟩,
        .filter .or ⟨"User->id", .compare .gt (.int 7)⟩]),
      .orderBy "User.name" .desc]).1

theorem userReport_nodes : userReport.nodes =
    [.grouped .or [.list ⟨.and, .among, "User.name"⟩ [.text "O'Brien", .text "?"],
      .scalar ⟨.or, .gt, "User.id"⟩ (.int 7)]] := rfl

theorem userEntity_addressable : userEntity.Addressable :=
  ⟨by decide, by decide, .name (by decide), rfl, by decide⟩

theorem userReport_isAbout : userReport.IsAbout userEntity := by
  have hname : userEntity.Owns "User.name" := ⟨"name", by decide, rfl⟩
  have hid : userEntity.Owns "User.id" := ⟨"id", by decide, rfl⟩
  refine ⟨⟨fun n hn => ?_, fun o ho => ?_⟩, rfl, ?_, ?_⟩
  · rw [userReport_nodes] at hn
    obtain rfl := List.mem_singleton.1 hn
    refine .grouped ?_
    simp only [List.forall_mem_cons]
    exact ⟨.leaf rfl hname, .leaf rfl hid, nofun⟩
  · obtain rfl := Option.some.inj ho
    exact hname
  · have hlist : userReport.projectionList = ["User.id AS key", "max(User.age) AS oldest"] := rfl
    rw [hlist]
    simp only [List.forall_mem_cons]
    refine ⟨.path (s := "User.id as key") rfl ⟨"id", by decide, rfl⟩,
      .expression (s := "max[User->age].as.oldest")
        (x := ⟨some "max", some "User", "age", some "oldest"⟩) rfl ⟨"age", by decide, rfl⟩
        fun f hf => ?_, nofun⟩
    obtain rfl := Option.some.inj hf
    exact ⟨by decide, rfl⟩
  · intro l vs h
    rw [userReport_nodes] at h
    obtain ⟨-, rfl⟩ : l = ⟨.and, .among, "User.name"⟩ ∧ vs = [.text "O'Brien", .text "?"] := by
      simpa [subnodesList, subnodes, Node.grouped] using h
    exact userNames_lexical

theorem compile_userReport :
    ∃ q q', userReport.compile (Registry.ofList [userEntity]).resolve = .ok q ∧
      (userReport.withSource userEntity.name).compile (Registry.ofList [userEntity]).resolve =
        .ok q' ∧
      q.data = q'.data ∧ q.template = q'.template ∧ q.count = q'.count ∧ q.binds = q'.binds := by
  have hmentions : Mentions (tokenize (fillTemplate (userReport.withSource userEntity.name).template
      userReport.selectList)) userEntity.name "id" := mentions_iff.2 (by decide +kernel)
  exact Criteria.compile_ownSource userEntity_addressable rfl userReport_isAbout rfl rfl
    ⟨"id", hmentions⟩

end FilterSql
