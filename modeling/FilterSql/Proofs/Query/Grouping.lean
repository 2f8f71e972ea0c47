import FilterSql.Proofs.Criteria.WellFormed
/-!
# Grouping columns

A grouping column stands among the conditions but is none of them, and only the count query looks
for it. So runs that differ in the grouping columns they set alone do the same otherwise, and
compile to the same queries up to the count.
-/
namespace FilterSql

open Node

/-- The second list is the first with further elements in between, for all of which `P` holds. -/
inductive Inserts {α : Type} (P : α → Prop) : List α → List α → Prop
  | nil : Inserts P [] []
  | cons (a : α) {as bs : List α} (h : Inserts P as bs) : Inserts P (a :: as) (a :: bs)
  | insert {b : α} {as bs : List α} (hb : P b) (h : Inserts P as bs) : Inserts P as (b :: bs)

/-- The key of the grouping column that an operation sets, if it is one that sets it. -/
def Operation.groupingKey? (t : Target) : Operation → Option String
  | .groupBy property => (t.key property).toOption
  | _ => none

def Query.withoutCount (q : Query) : Query := { q with count := "" }

namespace Criteria

/-- A criteria without its grouping columns. -/
def ungrouped (c : Criteria) : Criteria := { c with nodes := conditions c.nodes }

variable {c c' : Criteria}

theorem target_eq_of_ungrouped (h : c.ungrouped = c'.ungrouped) : c.target = c'.target :=
  (congrArg target h :)

theorem run_of_groupingKey? {o : Operation} {key : String}
    (h : o.groupingKey? c.target = some key) :
    (c.run o).1 = { c with nodes := conditions c.nodes ++ [groupingColumn key] } ∧
      (c.run o).2.errors = [none] := by
  cases o with
  | groupBy property =>
    rw [Operation.groupingKey?] at h
    cases hk : c.target.key property with
    | error x => rw [hk] at h; cases h
    | ok k =>
      rw [hk] at h
      obtain rfl : k = key := Option.some.inj h
      have happly : c.apply (.groupBy property) =
          .ok { c with nodes := conditions c.nodes ++ [groupingColumn k] } := by
        rw [apply, groupBy, hk]
        rfl
      rw [run_ok (fun _ => Operation.noConfusion) happly]
      exact ⟨rfl, rfl⟩
  | step | select | selectExpression | source | orderBy | paged => cases h

theorem ungrouped_run_of_groupingKey? {o : Operation} {key : String}
    (h : o.groupingKey? c.target = some key) : (c.run o).1.ungrouped = c.ungrouped := by
  have hcolumn : conditions [groupingColumn key] = [] := rfl
  rw [(run_of_groupingKey? h).1, ungrouped, conditions_append, conditions_conditions, hcolumn,
    List.append_nil]
  rfl

theorem ungrouped_ungrouped (c : Criteria) : c.ungrouped.ungrouped = c.ungrouped :=
  congrArg (fun ns => { c with nodes := ns }) (conditions_conditions c.nodes)

theorem project_ungrouped (c : Criteria) (projection : String) :
    c.ungrouped.project projection = (c.project projection).map ungrouped := by
  rw [project, project, ungrouped]
  cases c.projections <;> rfl

theorem apply_ungrouped {o : Operation} (ho : ∀ u, o ≠ .step u) (c : Criteria) :
    (c.ungrouped.apply o).map ungrouped = (c.apply o).map ungrouped := by
  have hproject (p : String) :
      (c.ungrouped.project p).map ungrouped = (c.project p).map ungrouped := by
    rw [project_ungrouped]
    cases c.project p with
    | error x => rfl
    | ok d => exact congrArg Except.ok (ungrouped_ungrouped d)
  have htarget : c.ungrouped.target = c.target := rfl
  cases o with
  | step u => exact absurd rfl (ho u)
  | select text =>
    rw [apply, apply, select, select]
    cases Projection.parse text with
    | error x => rfl
    | ok p => exact hproject p
  | selectExpression text =>
    rw [apply, apply, selectExpression, selectExpression]
    cases Expression.parse text with
    | error x => rfl
    | ok p => exact hproject p.sql
  | source script => exact congrArg Except.ok (ungrouped_ungrouped { c with source := some script })
  | groupBy property =>
    rw [apply, apply, groupBy, groupBy, htarget]
    cases c.target.key property with
    | error x => rfl
    | ok key =>
      exact congrArg
        (fun ns => Except.ok { c with nodes := conditions (ns ++ [groupingColumn key]) })
        (conditions_conditions c.nodes)
  | orderBy property direction =>
    rw [apply, apply, sortBy, sortBy, htarget]
    cases c.target.key property with
    | error x => rfl
    | ok key =>
      exact congrArg Except.ok (ungrouped_ungrouped { c with orderBy := some ⟨key, direction⟩ })
  | paged paging => exact congrArg Except.ok (ungrouped_ungrouped { c with paging := some paging })

/-- Criteria that differ in grouping columns alone still do so after an operation, which fails for
both or for none. -/
theorem run_ungrouped (h : c.ungrouped = c'.ungrouped) (o : Operation) :
    (c.run o).1.ungrouped = (c'.run o).1.ungrouped ∧
      (c.run o).2.errors = (c'.run o).2.errors := by
  have htarget := target_eq_of_ungrouped h
  by_cases hstep : ∃ u, o = .step u
  · obtain ⟨u, rfl⟩ := hstep
    refine ⟨?_, by rw [errors_run_step, errors_run_step, htarget]⟩
    have hadd (d : Criteria) : (d.run (.step u)).1.ungrouped =
        { d.ungrouped with nodes := d.ungrouped.nodes ++ conditions (u.added d.target) } := by
      rw [run_step, ungrouped, conditions_append]
      rfl
    rw [hadd, hadd, h, htarget]
  · have hstep : ∀ u, o ≠ .step u := fun u hu => hstep ⟨u, hu⟩
    have happly : (c.apply o).map ungrouped = (c'.apply o).map ungrouped := by
      rw [← apply_ungrouped hstep c, h, apply_ungrouped hstep c']
    obtain ⟨hrun, ⟨d, d', ha, ha', -⟩ | ⟨x, ha, ha'⟩⟩ := run_congr hstep h happly
    · rw [ha, ha']
      exact ⟨hrun, rfl⟩
    · rw [ha, ha']
      exact ⟨hrun, rfl⟩

/-- The operations of a run, each with the errors of the answer to it. -/
def account (c : Criteria) (os : List Operation) : List (Operation × List (Option Error)) :=
  os.zip ((c.runAll os).2.map Answer.errors)

theorem runAll_ungrouped {t : Target} {os os' : List Operation}
    (h : Inserts (fun o => (o.groupingKey? t).isSome) os os') (hc : c.ungrouped = c'.ungrouped)
    (ht : c'.target = t) :
    (c.runAll os).1.ungrouped = (c'.runAll os').1.ungrouped ∧
      Inserts (fun x => (x.1.groupingKey? t).isSome ∧ x.2 = [none]) (c.account os)
        (c'.account os') := by
  induction h generalizing c c' with
  | nil => exact ⟨hc, .nil⟩
  | @cons o os os' _ ih =>
    obtain ⟨hrun, herrors⟩ := run_ungrouped hc o
    obtain ⟨hrest, hinserts⟩ := ih hrun ((target_run c' o).trans ht)
    have hcons (d : Criteria) (os : List Operation) :
        d.account (o :: os) = (o, (d.run o).2.errors) :: (d.run o).1.account os := rfl
    rw [hcons, hcons, herrors]
    exact ⟨hrest, .cons _ hinserts⟩
  | @insert o os os' ho _ ih =>
    obtain ⟨key, hkey⟩ := Option.isSome_iff_exists.1 ho
    rw [← ht] at hkey
    have hrun : c.ungrouped = (c'.run o).1.ungrouped := by
      rw [ungrouped_run_of_groupingKey? hkey, hc]
    obtain ⟨hrest, hinserts⟩ := ih hrun ((target_run c' o).trans ht)
    exact ⟨hrest, .insert ⟨ho, (run_of_groupingKey? hkey).2⟩ hinserts⟩

theorem compile_withoutCount_congr {ns : List Node} (hwhere : whereClause ns = whereClause c.nodes)
    (hbinds : bindsList (conditions ns) = bindsList (conditions c.nodes)) (provider : Provider) :
    (compile { c with nodes := ns } provider).map Query.withoutCount =
      (c.compile provider).map Query.withoutCount := by
  have htemplate : template { c with nodes := ns } = c.template := by
    rw [template, tail, hwhere]
    rfl
  have hselect : selectList { c with nodes := ns } = c.selectList := rfl
  have hresolver (data : String) :
      resolver { c with nodes := ns } provider data = c.resolver provider data := rfl
  rw [compile, compile, htemplate, hselect, hresolver, hbinds]
  cases c.resolver provider (fillTemplate c.template c.selectList) with
  | error x => rfl
  | ok x => rfl

theorem compile_ungrouped (h : c.ungrouped = c'.ungrouped) (provider : Provider) :
    (c.compile provider).map Query.withoutCount = (c'.compile provider).map Query.withoutCount := by
  have hself (d : Criteria) : (d.ungrouped.compile provider).map Query.withoutCount =
      (d.compile provider).map Query.withoutCount :=
    compile_withoutCount_congr (by rw [whereClause, conditions_conditions, whereClause])
      (by rw [conditions_conditions]) provider
  rw [← hself c, h, hself c']

theorem nodes_run_of_groupingKey? {o : Operation} (hstep : ∀ u, o ≠ .step u)
    (h : o.groupingKey? c.target = none) : (c.run o).1.nodes = c.nodes := by
  have hproject {p : String} {d : Criteria} (hd : c.project p = .ok d) : d.nodes = c.nodes := by
    obtain ⟨ps, -, rfl⟩ := project_eq_ok hd
    rfl
  cases ha : c.apply o with
  | error x => rw [run_error hstep ha]
  | ok d =>
    rw [run_ok hstep ha]
    cases o with
    | step u => exact absurd rfl (hstep u)
    | select text =>
      obtain ⟨p, -, ha⟩ := bind_eq_ok ha
      exact hproject ha
    | selectExpression text =>
      obtain ⟨p, -, ha⟩ := bind_eq_ok ha
      exact hproject ha
    | groupBy property =>
      obtain ⟨key, hk, -⟩ := groupBy_eq_ok ha
      rw [Operation.groupingKey?, hk] at h
      cases h
    | orderBy property direction =>
      obtain ⟨key, -, rfl⟩ := sortBy_eq_ok ha
      rfl
    | source | paged => obtain rfl := Except.ok.inj ha; rfl

theorem groupingKey?_run {o : Operation} (ho : o.isFluent = true) :
    groupingKey? (c.run o).1.nodes = (o.groupingKey? c.target).or (groupingKey? c.nodes) := by
  cases hkey : o.groupingKey? c.target with
  | some key => rw [(run_of_groupingKey? hkey).1, groupingKey?_append_groupingColumn]; rfl
  | none =>
    rw [Option.none_or]
    by_cases hstep : ∃ u, o = .step u
    · obtain ⟨u, rfl⟩ := hstep
      rw [run_step]
      exact groupingKey?_append_of_not_isGroupBy fun n hn =>
        (Step.builds_added c.target.builds_regular ho n hn).not_isGroupBy
    · rw [nodes_run_of_groupingKey? (fun u hu => hstep ⟨u, hu⟩) hkey]

theorem groupingKey?_runAll {os : List Operation} (hos : ∀ o ∈ os, o.isFluent = true) :
    groupingKey? (c.runAll os).1.nodes =
      (os.filterMap (Operation.groupingKey? c.target)).getLast?.or (groupingKey? c.nodes) := by
  induction os generalizing c with
  | nil => rfl
  | cons o os ih =>
    rw [List.forall_mem_cons] at hos
    have hrest := ih (c := (c.run o).1) hos.2
    rw [groupingKey?_run hos.1, target_run] at hrest
    rw [runAll, hrest, List.filterMap_cons]
    cases hkey : o.groupingKey? c.target with
    | none => rfl
    | some key =>
      rw [List.getLast?_cons]
      cases (os.filterMap (Operation.groupingKey? c.target)).getLast? <;> rfl

/-- Grouping drives the count query only. Setting grouping columns at any places of a run leaves the
errors of all other operations, and of the compiled query all but the count. This is the grouped
count of the data query for the column that was set last. -/
theorem compile_grouped (c : Criteria) (provider : Provider) {os os' : List Operation}
    (h : Inserts (fun o => (o.groupingKey? c.target).isSome) os os')
    (hos : ∀ o ∈ os', o.isFluent = true) :
    Inserts (fun x => (x.1.groupingKey? c.target).isSome ∧ x.2 = [none]) (c.account os)
        (c.account os') ∧
      ((c.runAll os').1.compile provider).map Query.withoutCount =
        ((c.runAll os).1.compile provider).map Query.withoutCount ∧
      ∀ q, (c.runAll os').1.compile provider = .ok q →
        ∀ key, (os'.filterMap (Operation.groupingKey? c.target)).getLast? = some key →
          ∃ x, (c.runAll os').1.resolver provider
              (fillTemplate (c.runAll os').1.template (c.runAll os').1.selectList) = .ok x ∧
            q.count = GroupedCount.sql q.data (x.1 key) := by
  obtain ⟨hrun, hinserts⟩ := runAll_ungrouped h (rfl : c.ungrouped = c.ungrouped) rfl
  refine ⟨hinserts, (compile_ungrouped hrun provider).symm, fun q hq key hlast => ?_⟩
  obtain ⟨x, hx, -, -, -, hcount⟩ := compile_eq_ok hq
  rw [groupingKey?_runAll hos, hlast] at hcount
  exact ⟨x, hx, hcount⟩

end Criteria

/-- A run that fails in part. -/
def filterRun : List Operation :=
  [.step (.filter .and ⟨"id", .compare .gt (.int 7)⟩),
    .step (.filter .and ⟨"age", .compare .eq (.int 1)⟩),
    .groupBy "age",
    .step (.filter .or ⟨"name", .like (.text "ann")⟩)]

def groupedRun : List Operation :=
  .groupBy "id" :: (filterRun ++ [.groupBy "name"])

theorem inserts_groupedRun :
    Inserts (fun o => (o.groupingKey? (Criteria.plain userEntity).target).isSome) filterRun
      groupedRun :=
  .insert rfl (.cons _ (.cons _ (.cons _ (.cons _ (.insert rfl .nil)))))

theorem compile_groupedRun :
    ∃ q q', ((Criteria.plain userEntity).runAll filterRun).1.compile
        (Registry.ofList [userEntity]).resolve = .ok q ∧
      ((Criteria.plain userEntity).runAll groupedRun).1.compile
        (Registry.ofList [userEntity]).resolve = .ok q' ∧
      q'.withoutCount = q.withoutCount ∧ q'.count = GroupedCount.sql q.data "full_name" := by
  have hfluent : ∀ o ∈ groupedRun, o.isFluent = true := by decide
  have hname : userEntity.resolve "name" = "full_name" := by decide +kernel
  obtain ⟨q, hq⟩ : ∃ q, ((Criteria.plain userEntity).runAll filterRun).1.compile
    (Registry.ofList [userEntity]).resolve = .ok q := ⟨_, rfl⟩
  obtain ⟨q', hq'⟩ : ∃ q', ((Criteria.plain userEntity).runAll groupedRun).1.compile
    (Registry.ofList [userEntity]).resolve = .ok q' := ⟨_, rfl⟩
  obtain ⟨-, hsame, hcount⟩ := Criteria.compile_grouped (Criteria.plain userEntity)
    (Registry.ofList [userEntity]).resolve inserts_groupedRun hfluent
  rw [hq, hq'] at hsame
  have hsame : q'.withoutCount = q.withoutCount := Except.ok.inj hsame
  have hdata : q'.data = q.data := (congrArg Query.data hsame :)
  obtain ⟨x, hx, hcount⟩ := hcount q' hq' "name" rfl
  obtain rfl := Except.ok.inj hx
  rw [hdata] at hcount
  exact ⟨q, q', hq, hq', hsame, hname ▸ hcount⟩

end FilterSql
