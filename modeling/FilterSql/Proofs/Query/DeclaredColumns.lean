import FilterSql.Proofs.Query.Written
/-!
# Columns behind WHERE and ORDER BY

What is set behind a tail without closing anything that was opened in it is filled in and resolved
by itself. So a comparison and a sort are written as the property is, whatever table and whatever
other conditions stand in front of them.
-/
namespace FilterSql

open Sql Text Node

namespace Criteria

/-- A text that is set behind a tail, in front of it a blank and no delimiter in it, is resolved
behind what is resolved without it. -/
theorem resolve_fillTemplate_append {c c' : Criteria} {f : String → Option String} {t : String}
    (htail : c.tail = c'.tail ++ t) (hblank : t.toList.head? = some ' ')
    (ht : Lacks isDelimiter t.toList) (selectList : String) :
    ∃ aliased, (resolve f (fillTemplate c.template selectList)).toList =
      (resolve f (fillTemplate c'.template selectList)).toList ++
        resolveFrom f aliased t.toList := by
  have hdollar : '$' ∉ t.toList := fun h => absurd (ht _ h) (by decide)
  have hkept : replace projectionTag.toList selectList.toList t.toList = t.toList :=
    (unreplaced_of_not_mem hdollar).replace_eq
  obtain ⟨u, hu⟩ := List.head?_eq_some_iff.1 hblank
  have hclosers : Lacks isCloser u := fun c hc =>
    (ht.mono fun _ => isDelimiter_of_isCloser) c (hu ▸ List.mem_cons_of_mem _ hc)
  have hfilled : (fillTemplate c.template selectList).toList =
      (fillTemplate c'.template selectList).toList ++ t.toList := by
    rw [hu] at hkept
    rw [toList_fillTemplate, toList_fillTemplate, htail, String.toList_append, hu,
      replace_append_stop (by decide), hkept]
    simp only [List.append_assoc]
  refine ⟨aliasedAfter false (tokens (fillTemplate c'.template selectList).toList), ?_⟩
  rw [toList_resolve, toList_resolve, hfilled, hu]
  exact resolveFrom_append_of_closesBefore (.of_lacks_closers _ hclosers)

theorem exists_data_eq_append (c c' : Criteria) {provider : Provider} {e : Entity} {t t' : String}
    (hs : c.source = none) (hs' : c'.source = none) (he : provider c.entity.name = .ok e)
    (hentity : c'.entity = c.entity) (hselect : c'.selectList = c.selectList)
    (htail : c.tail = c'.tail ++ t) (hblank : t.toList.head? = some ' ')
    (ht : Lacks isDelimiter t.toList)
    (hresolve : ∀ aliased, resolveFrom e.replacement? aliased t.toList = t'.toList) :
    ∃ q q₀, c.compile provider = .ok q ∧ c'.compile provider = .ok q₀ ∧ q.data = q₀.data ++ t' := by
  obtain ⟨q, hq, hdata⟩ := exists_compile_data hs he
  obtain ⟨q₀, hq₀, hdata₀⟩ := exists_compile_data hs' (hentity ▸ he)
  refine ⟨q, q₀, hq, hq₀, ?_⟩
  obtain ⟨aliased, h⟩ :=
    resolve_fillTemplate_append (f := e.replacement?) htail hblank ht c.selectList
  rw [hdata, hdata₀, hselect]
  apply String.toList_inj.1
  rw [String.toList_append, ← hresolve aliased]
  exact h

end Criteria

namespace Entity

variable {e : Entity} {p : String} {aliased : Bool}

theorem resolveFrom_comparison (hname : e.name ≠ "WHERE") (hn : isName p.toList = true)
    (op : Comparison) :
    resolveFrom e.replacement? aliased (" WHERE " ++ p ++ " " ++ op.predicate.sql ++ " ?").toList =
      (" WHERE " ++ e.written p ++ " " ++ op.predicate.sql ++ " ?").toList := by
  have hplain : (' ' :: (op.predicate.sql ++ " ?").toList).all isPlain = true := by
    cases op <;> decide
  have hsplit (w : String) : (" WHERE " ++ w ++ " " ++ op.predicate.sql ++ " ?").toList =
      [' '] ++ ("WHERE".toList ++ ' ' ::
        (w.toList ++ ' ' :: (op.predicate.sql ++ " ?").toList)) := by
    simp
  have hrest : resolveFrom e.replacement? (isAsWord p.toList)
      (' ' :: (op.predicate.sql ++ " ?").toList ++ []) = _ := resolveFrom_plain hplain []
  rw [resolveFrom_nil, List.append_nil] at hrest
  rw [hsplit, hsplit, resolveFrom_plain (by decide),
    resolveFrom_word_blank (by decide) (e.replacement?_word (by decide) hname),
    e.resolveFrom_written hn rfl, hrest]

theorem resolveFrom_direction {d : Direction} (hname : e.name ≠ d.sql) :
    resolveFrom e.replacement? aliased (' ' :: d.sql.toList) = ' ' :: d.sql.toList := by
  have hword : isWord d.sql = true := by cases d <;> rfl
  obtain ⟨hn, -, ha⟩ := isWord_iff.1 hword
  have hnone := e.replacement?_word hword hname
  rw [← String.ofList_toList (s := d.sql)] at hnone
  have hword (b : Bool) : resolveFrom e.replacement? b (d.sql.toList ++ []) = _ :=
    resolveFrom_keyword (.name hn) rfl ha hnone
  rw [resolveFrom_nil, List.append_nil] at hword
  exact (resolveFrom_plain (p := [' ']) (by decide) _).trans (congrArg _ (hword _))

theorem resolveFrom_sort (hname : e.name ≠ "ORDER") (hby : e.name ≠ "BY") {d : Direction}
    (hdirection : e.name ≠ d.sql) (hn : isName p.toList = true) :
    resolveFrom e.replacement? aliased (" ORDER BY " ++ p ++ " " ++ d.sql).toList =
      (" ORDER BY " ++ e.written p ++ " " ++ d.sql).toList := by
  have hsplit (w : String) : (" ORDER BY " ++ w ++ " " ++ d.sql).toList =
      [' '] ++ ("ORDER".toList ++ ' ' :: ("BY".toList ++ ' ' ::
        (w.toList ++ ' ' :: d.sql.toList))) := by
    simp
  rw [hsplit, hsplit, resolveFrom_plain (by decide),
    resolveFrom_word_blank (by decide) (e.replacement?_word (by decide) hname),
    resolveFrom_word_blank (by decide) (e.replacement?_word (by decide) hby),
    e.resolveFrom_written hn rfl, resolveFrom_direction hdirection]

end Entity

namespace Criteria

theorem key_of_field? {t : Target} (ht : t.fetch = false) {p : String} {field : Field}
    (hp : t.entity.field? p = some field) : t.key p = .ok p := by
  rw [Target.key, ht, hp]
  rfl

def comparing (e : Entity) (k : Connective) (op : Comparison) (p : String) (v : Value) : Criteria :=
  { plain e with nodes := [.scalar ⟨k.toConjunction, op.predicate, p⟩ v] }

theorem apply_comparison {e : Entity} {p : String} {field : Field} (hp : e.field? p = some field)
    {v : Value} (hv : Target.drops ⟨e, false⟩ p v = false) (k : Connective) (op : Comparison) :
    (plain e).apply (.step (.filter k ⟨p, .compare op v⟩)) = .ok (comparing e k op p v) := by
  have hkey : (plain e).target.key p = .ok p := key_of_field? rfl hp
  have hnode : Filter.node? (plain e).target k.toConjunction ⟨p, .compare op v⟩ =
      .ok (some (.scalar ⟨k.toConjunction, op.predicate, p⟩ v)) := by
    rw [Filter.node?, hkey]
    change Except.ok (if Target.drops ⟨e, false⟩ p v = true then none else some _) = _
    rw [hv]
    rfl
  rw [apply, addStep, Step.nodes, hnode]
  rfl

theorem tail_comparing (e : Entity) (k : Connective) (op : Comparison) (p : String) (v : Value) :
    (comparing e k op p v).tail =
      (plain e).tail ++ (" WHERE " ++ p ++ " " ++ op.predicate.sql ++ " ?") := by
  have hwhere : whereClause (comparing e k op p v).nodes =
      " WHERE " ++ (p ++ " " ++ op.predicate.sql ++ " ?" ++ "") := by
    cases k <;> rfl
  have hnone : whereClause (plain e).nodes = "" := rfl
  have horder : (plain e).orderClause = "" := rfl
  change (plain e).fromClause ++ whereClause (comparing e k op p v).nodes ++ (plain e).orderClause =
    (plain e).fromClause ++ whereClause (plain e).nodes ++ (plain e).orderClause ++ _
  rw [hwhere, hnone, horder]
  simp only [String.append_empty, String.append_assoc]

theorem tail_sorted (c : Criteria) (p : String) (d : Direction) :
    tail { c with orderBy := some ⟨p, d⟩ } =
      tail { c with orderBy := none } ++ (" ORDER BY " ++ p ++ " " ++ d.sql) := by
  rw [tail, tail, orderClause, orderClause, String.append_empty]
  rfl

variable {c : Criteria} {e : Entity} {provider : Provider} {p : String}

theorem exists_data_comparing (he : provider e.name = .ok e) (hwhere : e.name ≠ "WHERE")
    (hn : isName p.toList = true) (k : Connective) (op : Comparison) (v : Value) :
    ∃ q q₀, (comparing e k op p v).compile provider = .ok q ∧
      (plain e).compile provider = .ok q₀ ∧
      q.data = q₀.data ++ (" WHERE " ++ e.written p ++ " " ++ op.predicate.sql ++ " ?") := by
  have hdelimiter : Lacks isDelimiter
      (" WHERE " ++ p ++ " " ++ op.predicate.sql ++ " ?").toList := by
    have hop : Lacks isDelimiter op.predicate.sql.toList := by cases op <;> decide
    simp only [String.toList_append]
    exact (((Lacks.append (by decide) (lacks_isDelimiter_of_isName hn)).append (by decide)).append
      hop).append (by decide)
  exact exists_data_eq_append (comparing e k op p v) (plain e) rfl rfl he rfl rfl
    (tail_comparing e k op p v) (by simp) hdelimiter
    fun _ => Entity.resolveFrom_comparison hwhere hn op

theorem exists_data_sorted (he : provider c.entity.name = .ok c.entity) (hs : c.source = none)
    (horder : c.entity.name ≠ "ORDER") (hby : c.entity.name ≠ "BY") {d : Direction}
    (hd : c.entity.name ≠ d.sql) (hn : isName p.toList = true) :
    ∃ q q₀, { c with orderBy := some ⟨p, d⟩ }.compile provider = .ok q ∧
      { c with orderBy := none }.compile provider = .ok q₀ ∧
      q.data = q₀.data ++ (" ORDER BY " ++ c.entity.written p ++ " " ++ d.sql) := by
  have hdelimiter : Lacks isDelimiter (" ORDER BY " ++ p ++ " " ++ d.sql).toList := by
    have hdirection : Lacks isDelimiter d.sql.toList := by cases d <;> decide
    simp only [String.toList_append]
    exact ((Lacks.append (by decide) (lacks_isDelimiter_of_isName hn)).append (by decide)).append
      hdirection
  exact exists_data_eq_append { c with orderBy := some ⟨p, d⟩ } { c with orderBy := none } hs hs he
    rfl rfl (c.tail_sorted p d) (by simp) hdelimiter
    fun _ => Entity.resolveFrom_sort horder hby hd hn

/-- A declared property is compared and sorted by as it is written: as its column, unless it is a
word of SQL or the entity's own name. -/
theorem compile_property {field : Field} (he : provider e.name = .ok e)
    (hn : isName p.toList = true) (hp : e.field? p = some field) :
    (isReserved p = false → p ≠ e.name → e.written p = field.column) ∧
      (e.name ≠ "WHERE" → ∀ k op v, Target.drops ⟨e, false⟩ p v = false →
        ∃ c q q₀, (plain e).apply (.step (.filter k ⟨p, .compare op v⟩)) = .ok c ∧
          c.compile provider = .ok q ∧ (plain e).compile provider = .ok q₀ ∧
          q.data = q₀.data ++ (" WHERE " ++ e.written p ++ " " ++ op.predicate.sql ++ " ?")) ∧
      (e.name ≠ "ORDER" → e.name ≠ "BY" → ∀ d : Direction, e.name ≠ d.sql →
        ∀ c : Criteria, c.entity = e → c.projections = none → c.source = none →
          ∃ c' q q₀, c.sortBy p d = .ok c' ∧ c'.compile provider = .ok q ∧
            { c with orderBy := none }.compile provider = .ok q₀ ∧
            q.data = q₀.data ++ (" ORDER BY " ++ e.written p ++ " " ++ d.sql)) := by
  refine ⟨e.written_property hp, fun hwhere k op v hv => ?_, fun horder hby d hd c hc hps hs => ?_⟩
  · obtain ⟨q, q₀, hq, hq₀, hdata⟩ := exists_data_comparing he hwhere hn k op v
    exact ⟨_, q, q₀, apply_comparison hp hv k op, hq, hq₀, hdata⟩
  · subst hc
    have hkey : c.target.key p = .ok p := key_of_field? (by rw [target, isFetch, hps]; rfl) hp
    have hsort : c.sortBy p d = .ok { c with orderBy := some ⟨p, d⟩ } := by
      rw [sortBy, hkey]
      rfl
    obtain ⟨q, q₀, hq, hq₀, hdata⟩ := exists_data_sorted he hs horder hby hd hn
    exact ⟨_, q, q₀, hsort, hq, hq₀, hdata⟩

end Criteria

/-- An entity with properties that are named like a word of SQL and like the entity itself. -/
def keywordEntity : Entity :=
  { name := "Item", table := "t_item"
    fields := .ofList [("no", ⟨"item_no", .int, false⟩), ("order", ⟨"order_no", .int, false⟩),
      ("Item", ⟨"item_code", .text, false⟩)] }

theorem compile_keywordEntity :
    ∃ c q q₀ c' q' q₀',
      (Criteria.plain keywordEntity).apply (.step (.filter .and ⟨"no", .compare .gte (.int 7)⟩)) =
        .ok c ∧
      c.compile (Registry.ofList [keywordEntity]).resolve = .ok q ∧
      (Criteria.plain keywordEntity).compile (Registry.ofList [keywordEntity]).resolve = .ok q₀ ∧
      q.data = q₀.data ++ " WHERE item_no >= ?" ∧
      c.sortBy "no" .desc = .ok c' ∧
      c'.compile (Registry.ofList [keywordEntity]).resolve = .ok q' ∧
      { c with orderBy := none }.compile (Registry.ofList [keywordEntity]).resolve = .ok q₀' ∧
      q'.data = q₀'.data ++ " ORDER BY item_no DESC" := by
  have he : (Registry.ofList [keywordEntity]).resolve keywordEntity.name = .ok keywordEntity := rfl
  obtain ⟨hwritten, hcompare, hsort⟩ := Criteria.compile_property (p := "no") he (by decide) rfl
  have hcolumn := hwritten (by decide) (by decide)
  obtain ⟨c, q, q₀, hc, hq, hq₀, hdata⟩ :=
    hcompare (by decide) .and .gte (.int 7) (by decide +kernel)
  have happly := Criteria.apply_comparison (e := keywordEntity) (p := "no") rfl
    (v := .int 7) (by decide +kernel) .and .gte
  obtain rfl := Except.ok.inj (happly.symm.trans hc)
  obtain ⟨c', q', q₀', hc', hq', hq₀', hdata'⟩ :=
    hsort (by decide) (by decide) .desc (by decide)
      (.comparing keywordEntity .and .gte "no" (.int 7)) rfl rfl rfl
  rw [hcolumn] at hdata hdata'
  exact ⟨_, q, q₀, c', q', q₀', hc, hq, hq₀, hdata, hc', hq', hq₀', hdata'⟩

def dataOfRun (e : Entity) (os : List Operation) : Option String := do
  let c ← ((Criteria.plain e).applyAll os).toOption
  let q ← (c.compile (Registry.ofList [e]).resolve).toOption
  return q.data

def keywordFilter (p : String) (v : Value) : Operation :=
  .step (.filter .and ⟨p, .compare .eq v⟩)

/-- A property that is named by a word of SQL or like its entity is not written as its column. No
property is where there is a source, an unset value is not compared with at all, and an entity that
is named by a word of a clause has its table there. -/
theorem not_inColumns_keywordEntity :
    keywordEntity.column? "order" = some "order_no" ∧
      dataOfRun keywordEntity [keywordFilter "order" (.int 1)] =
        some "SELECT * FROM t_item WHERE order = ?" ∧
      dataOfRun keywordEntity [.orderBy "order" .asc] =
        some "SELECT * FROM t_item ORDER BY order ASC" ∧
      keywordEntity.column? "Item" = some "item_code" ∧
      dataOfRun keywordEntity [keywordFilter "Item" (.text "a")] =
        some "SELECT * FROM t_item WHERE t_item = ?" ∧
      dataOfRun keywordEntity [.orderBy "Item" .asc] =
        some "SELECT * FROM t_item ORDER BY t_item ASC" ∧
      keywordEntity.column? "no" = some "item_no" ∧
      dataOfRun keywordEntity [keywordFilter "no" (.int 0)] = some "SELECT * FROM t_item" ∧
      dataOfRun keywordEntity [.source "Item", .orderBy "no" .asc] =
        some "SELECT * FROM Item ORDER BY no ASC" ∧
      dataOfRun { keywordEntity with name := "WHERE" } [keywordFilter "no" (.int 1)] =
        some "SELECT * FROM t_item t_item item_no = ?" ∧
      dataOfRun { keywordEntity with name := "ORDER" } [.orderBy "no" .asc] =
        some "SELECT * FROM t_item t_item BY item_no ASC" ∧
      dataOfRun { keywordEntity with name := "BY" } [.orderBy "no" .asc] =
        some "SELECT * FROM t_item ORDER t_item item_no ASC" ∧
      dataOfRun { keywordEntity with name := "ASC" } [.orderBy "no" .asc] =
        some "SELECT * FROM t_item ORDER BY item_no t_item" := by
  decide +kernel

end FilterSql
