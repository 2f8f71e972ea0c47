import FilterSql.Proofs.Node.Sifting
import FilterSql.Proofs.Query.Grouping
/-!
# Grouping columns inside groups

At the top level grouping columns are told by their conjunction, and none of them is written. Inside
groups nothing asks for it: there a node with the conjunction of a grouping column is written if it
has a value, like any other node. So a forest may lose its grouping columns at every depth without
a change of the clause just if none inside a group has anything to write.
-/
namespace FilterSql

open Node

namespace Node

/-- A forest without grouping columns, at any depth, and without the groups in which nothing is
left to write. -/
def withoutGroupBys (ns : List Node) : List Node :=
  siftList (fun n => n.renders || n.children?.isNone) (siftList (fun n => !n.isGroupBy) ns)

variable {m : Node} {ns : List Node}

theorem not_isGroupBy_of_mem_withoutGroupBys (hm : m ∈ subnodesList (withoutGroupBys ns)) :
    m.isGroupBy = false := by
  obtain ⟨k, hk, -, rfl⟩ := exists_of_mem_siftList hm
  obtain ⟨n, -, hn, rfl⟩ := exists_of_mem_siftList hk
  rw [isGroupBy_sift, isGroupBy_sift]
  simpa using hn

theorem whereClause_withoutGroupBys (ns : List Node) :
    whereClause (withoutGroupBys ns) = whereClause (siftList (fun n => !n.isGroupBy) ns) :=
  whereClause_siftList_iff.2 fun _ _ hr => by rw [hr, Bool.true_or]

theorem bindsList_withoutGroupBys (h : ∀ m ∈ subnodesList (conditions ns),
      m.isGroupBy = true → m.renders = false) :
    bindsList (conditions (withoutGroupBys ns)) = bindsList (conditions ns) := by
  have hkept : ∀ m ∈ subnodesList (conditions ns), m.renders = true → (!m.isGroupBy) = true := by
    intro m hm hr
    by_contra hg
    rw [h m hm (by simpa using hg)] at hr
    cases hr
  rw [withoutGroupBys, conditions_siftList,
    (siftList_of_renders fun m _ hr => by rw [hr, Bool.true_or]).2, conditions_siftList,
    (siftList_of_renders hkept).2]

end Node

namespace Criteria

variable {c : Criteria}

/-- No grouping column inside a group has anything to write. -/
def HidesGroupBys (c : Criteria) : Prop :=
  ∀ m ∈ subnodesList (conditions c.nodes), m.isGroupBy = true → m.renders = false

theorem WellFormed.hidesGroupBys (h : c.WellFormed) : c.HidesGroupBys := by
  intro m hm hg
  rw [subnodesList_eq, List.mem_flatMap] at hm
  obtain ⟨n, hn, hm⟩ := hm
  have hregular : m.Regular := fun k hk => h.conditions n hn k (mem_subnodes_trans hm hk)
  rw [hregular.not_isGroupBy] at hg
  cases hg

/-- Grouping columns at every depth can be taken out of a criteria without a change of the clause
just if those inside groups have nothing to write, as in every criteria built without finished
nodes. Then the criteria compiles to the same data query, template and values. -/
theorem compile_withoutGroupBys (c : Criteria) :
    (∀ m ∈ subnodesList (withoutGroupBys c.nodes), m.isGroupBy = false) ∧
    (whereClause (withoutGroupBys c.nodes) = whereClause c.nodes ↔ c.HidesGroupBys) ∧
    (c.WellFormed → c.HidesGroupBys) ∧
    (c.HidesGroupBys → ∀ provider,
      (compile { c with nodes := withoutGroupBys c.nodes } provider).map Query.withoutCount =
        (c.compile provider).map Query.withoutCount) := by
  have hclause : whereClause (withoutGroupBys c.nodes) = whereClause c.nodes ↔ c.HidesGroupBys := by
    rw [whereClause_withoutGroupBys, whereClause_siftList_iff]
    refine forall₂_congr fun m _ => ?_
    cases m.isGroupBy <;> cases m.renders <;> simp
  refine ⟨fun m => not_isGroupBy_of_mem_withoutGroupBys, hclause, WellFormed.hidesGroupBys,
    fun h provider => ?_⟩
  exact compile_withoutCount_congr (hclause.2 h) (bindsList_withoutGroupBys h) provider

end Criteria

def hiddenColumns : Criteria :=
  ((Criteria.plain userEntity).runAll [
    .step (.push (.scalar ⟨.groupBy, .eq, "name"⟩ (.text "ann"))),
    .step (.group .and [.filter .and ⟨"id", .compare .eq (.int 1)⟩, .push (groupingColumn "name"),
      .push (.list ⟨.groupBy, .among, "name"⟩ [])])]).1

def shownColumn : Criteria :=
  ((Criteria.plain userEntity).runAll [.step (.group .and
    [.filter .and ⟨"id", .compare .eq (.int 1)⟩,
      .push (.scalar ⟨.groupBy, .eq, "name"⟩ (.text "ann"))])]).1

def compiledUsers (c : Criteria) : Option (String × String × List String) :=
  ((c.compile (Registry.ofList [userEntity]).resolve).map Query.withoutCount).toOption.map
    fun q => (q.data, q.template, q.binds.map Value.display)

theorem hiddenColumns_nodes : hiddenColumns.nodes =
    [.scalar ⟨.groupBy, .eq, "name"⟩ (.text "ann"),
      grouped .and [.scalar ⟨.and, .eq, "id"⟩ (.int 1), groupingColumn "name",
        .list ⟨.groupBy, .among, "name"⟩ []]] := rfl

theorem hiddenColumns_hidesGroupBys : hiddenColumns.HidesGroupBys := by
  intro m hm hg
  rw [hiddenColumns_nodes] at hm
  simp [conditions, grouped, groupingColumn, isGroupBy, subnodesList, subnodes, conjunction,
    label] at hm
  rcases hm with rfl | rfl | rfl | rfl
  · cases hg
  · cases hg
  · rfl
  · rfl

theorem compile_hiddenColumns :
    compiledUsers hiddenColumns = some ("SELECT * FROM t_user WHERE (user_id = ?)",
      "SELECT ${PROJECTION} FROM t_user WHERE (user_id = ?)", ["1"]) ∧
    compiledUsers { hiddenColumns with nodes := withoutGroupBys hiddenColumns.nodes } =
      compiledUsers hiddenColumns ∧
    (Criteria.plain userEntity).HidesGroupBys := by
  obtain ⟨-, -, -, hcompile⟩ := Criteria.compile_withoutGroupBys hiddenColumns
  obtain ⟨-, -, hwell, -⟩ := Criteria.compile_withoutGroupBys (.plain userEntity)
  have hsame := hcompile hiddenColumns_hidesGroupBys (Registry.ofList [userEntity]).resolve
  refine ⟨by decide +kernel, ?_, hwell (Criteria.isFresh_plain userEntity).wellFormed⟩
  rw [compiledUsers, hsame, compiledUsers]

/-- Inside a group a column with a value is written as a condition, and its value is bound. -/
theorem not_hidesGroupBys_shownColumn :
    compiledUsers shownColumn =
      some ("SELECT * FROM t_user WHERE (user_id = ? GROUP BY full_name = ?)",
        "SELECT ${PROJECTION} FROM t_user WHERE (user_id = ? GROUP BY full_name = ?)",
        ["1", "ann"]) ∧
    compiledUsers { shownColumn with nodes := withoutGroupBys shownColumn.nodes } =
      some ("SELECT * FROM t_user WHERE (user_id = ?)",
        "SELECT ${PROJECTION} FROM t_user WHERE (user_id = ?)", ["1"]) := by
  constructor <;> decide +kernel

end FilterSql
