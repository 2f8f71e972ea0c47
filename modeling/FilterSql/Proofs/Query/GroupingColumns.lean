import FilterSql.Proofs.Query.Grouping
import Mathlib.Data.List.DropRight
/-!
# The grouping column that is shown and the one that counts

A criteria shows the first of its grouping columns, and the count query is about the last one. An
operation that sets a column takes all others away, but a finished node is only added behind them.
So a run leaves the column that was set last and the ones pushed since, and both readers mean the
same node as long as there is no more than one of these.
-/
namespace FilterSql

open Node

/-- The grouping columns that an operation adds as finished nodes. -/
def Operation.pushedColumns : Operation → List Node
  | .step (.push n) => [n].filter isGroupBy
  | _ => []

theorem Step.filter_isGroupBy_added {t : Target} {u : Step} (hu : ∀ n, u ≠ .push n) :
    (u.added t).filter isGroupBy = [] := by
  have hjoined (c : Connective) : (c.toConjunction == .groupBy) = false := by cases c <;> rfl
  rw [List.filter_eq_nil_iff]
  intro n hn
  rw [isGroupBy, Bool.not_eq_true]
  cases u with
  | push m => exact absurd rfl (hu m)
  | filter c f =>
    rw [added] at hn
    split at hn
    next o ho =>
      obtain rfl := Option.mem_toList.1 hn
      obtain ⟨key, -, hnode⟩ := Filter.filterNode_of_node? ho
      rw [hnode.leaf.2.1, hjoined]
    next => cases hn
  | group c us =>
    rw [added, Scope.closed] at hn
    split at hn
    next => cases hn
    next =>
      obtain rfl := List.mem_singleton.1 hn
      exact hjoined c

namespace Criteria

def columns (c : Criteria) : List Node := c.nodes.filter isGroupBy

theorem groupBy?_eq_head?_columns (c : Criteria) : c.groupBy? = c.columns.head? := by
  rw [columns, List.head?_filter, groupBy?]

theorem groupingKey?_eq_getLast?_columns (c : Criteria) :
    groupingKey? c.nodes = c.columns.getLast?.map key := rfl

theorem columns_run_of_groupingKey? {c : Criteria} {o : Operation} {key : String}
    (h : o.groupingKey? c.target = some key) : (c.run o).1.columns = [groupingColumn key] := by
  have hnone : (conditions c.nodes).filter isGroupBy = [] := by
    rw [conditions, List.filter_filter, List.filter_eq_nil_iff]
    simp
  rw [(run_of_groupingKey? h).1, columns, List.filter_append, hnone]
  rfl

theorem columns_run_of_not_groupingKey? {c : Criteria} {o : Operation}
    (h : o.groupingKey? c.target = none) :
    (c.run o).1.columns = c.columns ++ o.pushedColumns := by
  by_cases hstep : ∃ u, o = .step u
  · obtain ⟨u, rfl⟩ := hstep
    rw [run_step, columns, List.filter_append]
    cases u with
    | push n => rfl
    | filter | group =>
      rw [Step.filter_isGroupBy_added (by intro n hn; cases hn)]
      rfl
  · have hother : ∀ u, o ≠ .step u := fun u hu => hstep ⟨u, hu⟩
    have hpushed : o.pushedColumns = [] := by
      cases o with
      | step u => exact absurd rfl (hother u)
      | select | selectExpression | source | groupBy | orderBy | paged => rfl
    rw [columns, nodes_run_of_groupingKey? hother h, hpushed, List.append_nil]
    rfl

/-- The grouping columns that are set in a run, by their keys. -/
def keysSet (c : Criteria) (os : List Operation) : List String :=
  os.filterMap (Operation.groupingKey? c.target)

/-- The grouping columns pushed behind the last operation of a run that sets one. -/
def pushedSince (c : Criteria) (os : List Operation) : List Node :=
  (os.rtakeWhile fun o => (o.groupingKey? c.target).isNone).flatMap Operation.pushedColumns

theorem columns_runAll (c : Criteria) (os : List Operation) :
    (c.runAll os).1.columns =
      ((c.keysSet os).getLast?.elim c.columns fun key => [groupingColumn key]) ++
        c.pushedSince os := by
  induction os using List.reverseRecOn with
  | nil => exact (List.append_nil _).symm
  | append_singleton os o ih =>
    have htarget := target_runAll c os
    have hlast : (c.runAll (os ++ [o])).1 = ((c.runAll os).1.run o).1 := by
      rw [runAll_append]
      rfl
    rw [hlast, keysSet, pushedSince, List.filterMap_append]
    cases hkey : o.groupingKey? c.target with
    | some key =>
      have hset : [o].filterMap (Operation.groupingKey? c.target) = [key] := by simp [hkey]
      rw [columns_run_of_groupingKey? (htarget ▸ hkey), hset, List.getLast?_concat,
        List.rtakeWhile_concat_neg _ _ _ (by simp [hkey])]
      rfl
    | none =>
      have hset : [o].filterMap (Operation.groupingKey? c.target) = [] := by simp [hkey]
      rw [columns_run_of_not_groupingKey? (htarget ▸ hkey), ih, hset, List.append_nil,
        List.rtakeWhile_concat_pos _ _ _ (by simp [hkey]), List.flatMap_append,
        List.flatMap_singleton, ← List.append_assoc]
      rfl

theorem length_columns_le_one_iff {c : Criteria} (hc : c.columns = []) (os : List Operation) :
    (c.runAll os).1.columns.length ≤ 1 ↔
      c.pushedSince os = [] ∨ c.keysSet os = [] ∧ (c.pushedSince os).length = 1 := by
  have hempty := List.length_eq_zero_iff (l := c.pushedSince os)
  rw [columns_runAll, List.length_append, hc, ← hempty]
  cases hkeys : (c.keysSet os).getLast? with
  | none =>
    have hset : c.keysSet os = [] := List.getLast?_eq_none_iff.1 hkeys
    simp only [Option.elim_none, List.length_nil, hset, true_and]
    omega
  | some key =>
    have hset : c.keysSet os ≠ [] := by
      intro h
      rw [h] at hkeys
      cases hkeys
    simp only [Option.elim_some, List.length_singleton, hset, false_and, or_false]
    omega

theorem head?_eq_getLast?_of_length_le_one {α : Type} {as : List α} (h : as.length ≤ 1) :
    as.head? = as.getLast? := by
  match as, h with
  | [], _ => rfl
  | [a], _ => rfl

/-- A run leaves the grouping column set last and those pushed since. The first of them is shown and
the last of them is counted, and these are the same node if only one is left: if nothing was pushed
behind the last one set, or one was pushed and none was set. -/
theorem groupBy?_runAll {c : Criteria} (hc : c.columns = []) (os : List Operation) :
    (c.runAll os).1.columns =
        ((c.keysSet os).getLast?.map groupingColumn).toList ++ c.pushedSince os ∧
      (c.runAll os).1.groupBy? = (c.runAll os).1.columns.head? ∧
      (∀ provider q, (c.runAll os).1.compile provider = .ok q →
        ∀ n, (c.runAll os).1.columns.getLast? = some n →
          ∃ x, (c.runAll os).1.resolver provider
              (fillTemplate (c.runAll os).1.template (c.runAll os).1.selectList) = .ok x ∧
            q.count = GroupedCount.sql q.data (x.1 n.key)) ∧
      ((c.runAll os).1.columns.length ≤ 1 ↔
        c.pushedSince os = [] ∨ c.keysSet os = [] ∧ (c.pushedSince os).length = 1) ∧
      ((c.runAll os).1.columns.length ≤ 1 →
        (c.runAll os).1.groupBy? = (c.runAll os).1.columns.getLast?) := by
  refine ⟨?_, groupBy?_eq_head?_columns _, fun provider q hq n hn => ?_,
    length_columns_le_one_iff hc os, fun h => ?_⟩
  · rw [columns_runAll, hc]
    cases (c.keysSet os).getLast? <;> rfl
  · obtain ⟨x, hx, -, -, -, hcount⟩ := compile_eq_ok hq
    rw [groupingKey?_eq_getLast?_columns, hn] at hcount
    exact ⟨x, hx, hcount⟩
  · rw [groupBy?_eq_head?_columns]
    exact head?_eq_getLast?_of_length_le_one h

end Criteria

def regroupedRun : List Operation :=
  [.groupBy "id", .step (.push (groupingColumn "name")),
    .step (.filter .and ⟨"id", .compare .gt (.int 7)⟩), .groupBy "name"]

theorem groupBy?_regroupedRun :
    ∃ q, ((Criteria.plain userEntity).runAll regroupedRun).1.compile
        (Registry.ofList [userEntity]).resolve = .ok q ∧
      ((Criteria.plain userEntity).runAll regroupedRun).1.groupBy? =
        some (groupingColumn "name") ∧
      q.count = GroupedCount.sql q.data "full_name" := by
  obtain ⟨hcolumns, -, hcount, -, hsame⟩ :=
    Criteria.groupBy?_runAll (c := .plain userEntity) rfl regroupedRun
  have hone : ((Criteria.plain userEntity).runAll regroupedRun).1.columns =
      [groupingColumn "name"] := hcolumns
  have hname : userEntity.resolve "name" = "full_name" := by decide +kernel
  rw [hone] at hcount hsame
  obtain ⟨q, hq⟩ : ∃ q, ((Criteria.plain userEntity).runAll regroupedRun).1.compile
    (Registry.ofList [userEntity]).resolve = .ok q := ⟨_, rfl⟩
  obtain ⟨x, hx, hcount⟩ := hcount _ q hq _ rfl
  obtain rfl := Except.ok.inj hx
  exact ⟨q, hq, hsame (by decide), hname ▸ hcount⟩

def columnsOfRun (os : List Operation) : Option String × Option String × Option String :=
  let c := ((Criteria.plain userEntity).runAll os).1
  (c.groupBy?.map Node.key, groupingKey? c.nodes,
    (c.compile (Registry.ofList [userEntity]).resolve).toOption.map (·.count))

/-- Of two columns that are pushed the first one is shown and the second one is counted; and so it
is with a column that is set and one that is pushed behind it. -/
theorem not_oneColumn_pushedRun :
    columnsOfRun [.step (.push (groupingColumn "id")), .step (.push (groupingColumn "name"))] =
        (some "id", some "name",
          some "SELECT COUNT(tc.full_name) count FROM (SELECT * FROM t_user) tc") ∧
      columnsOfRun [.groupBy "id", .step (.push (groupingColumn "name"))] =
        (some "id", some "name",
          some "SELECT COUNT(tc.full_name) count FROM (SELECT * FROM t_user) tc") := by
  decide +kernel

end FilterSql
