import FilterSql.Proofs.Criteria.Run
/-!
# Runs without what came to nothing

A step may fail, a filter may have nothing to say, and a group may receive no node. A run is reduced
by leaving all of these out, inside groups as well; what is left over then succeeds and builds the
same criteria.
-/
namespace FilterSql

/-- Whether a condition has nothing to say: a value is dropped, or no value of a list says
something. -/
def Condition.isVoid (t : Target) (property : String) : Condition → Bool
  | compare _ v | like v => t.drops property v
  | between min max => t.drops property min || t.drops property max
  | among _ vs => vs.all Value.isVoid

theorem distinctValues_eq_nil_iff {vs : List Value} :
    distinctValues vs = [] ↔ vs.all Value.isVoid = true := by
  -- while nothing is kept, a value is left out only if it says nothing
  have hfold (kept : List Value) :
      vs.foldl (fun kept v => if v.isVoid || kept.any (·.same v) then kept else kept ++ [v]) kept =
        [] ↔ kept = [] ∧ vs.all Value.isVoid = true := by
    induction vs generalizing kept with
    | nil => simp
    | cons v vs ih =>
      rw [List.foldl_cons, ih, List.all_cons]
      cases hv : v.isVoid <;> cases kept <;> simp
      split <;> simp
  rw [distinctValues, hfold]
  exact and_iff_right rfl

theorem Condition.node?_eq_none_iff {t : Target} {property key : String} {c : Conjunction}
    {x : Condition} : x.node? t property key c = none ↔ x.isVoid t property = true := by
  cases x with
  | compare op v | like v => simp [node?, isVoid]
  | between a b =>
    rw [node?, isVoid]
    cases t.drops property a || t.drops property b <;> simp
  | among negated vs =>
    rw [node?, isVoid, ← distinctValues_eq_nil_iff]
    simp

mutual

def Step.reduce (t : Target) : Step → Outcome → Option Step
  | .filter _ _, .failed _ => none
  | .filter c f, _ => if f.condition.isVoid t f.property then none else some (.filter c f)
  | .group c us, .group _ _ os _ _ =>
    match Step.reduceList t us os with
    | [] => none
    | v :: vs => some (.group c (v :: vs))
  | u, _ => some u

def Step.reduceList (t : Target) : List Step → List Outcome → List Step
  | u :: us, o :: os => (Step.reduce t u o).toList ++ Step.reduceList t us os
  | _, _ => []

end

namespace Step

/-- Steps that add the given nodes, none of them in vain for an error. -/
structure Build (t : Target) (us : List Step) (ns : List Node) : Prop where
  added : addedList t us = ns
  errors : ∀ x ∈ errorsList t us, x = none

theorem Build.nil (t : Target) : Build t [] [] := ⟨rfl, nofun⟩

theorem Build.append {t : Target} {us vs : List Step} {ns ms : List Node} (hu : Build t us ns)
    (hv : Build t vs ms) : Build t (us ++ vs) (ns ++ ms) := by
  constructor
  · rw [addedList_eq, List.flatMap_append, ← addedList_eq, ← addedList_eq, hu.added, hv.added]
  · rw [errorsList_eq, List.flatMap_append, ← errorsList_eq, ← errorsList_eq]
    exact List.forall_mem_append.2 ⟨hu.errors, hv.errors⟩

theorem build_reduce_filter {t : Target} {s : Scope} (hs : s.target = t) (c : Connective)
    (f : Filter) :
    Build t ((filter c f).reduce t ((filter c f).run s).2).toList ((filter c f).added t) := by
  subst hs
  cases hn : f.node? s.target c.toConjunction with
  | error x =>
    rw [run_filter_error hn, reduce, added, hn]
    exact .nil _
  | ok n =>
    have hvoid : f.condition.isVoid s.target f.property = true ↔ n = none := by
      obtain ⟨key, -, rfl⟩ := map_eq_ok hn
      exact Condition.node?_eq_none_iff.symm
    rw [run_filter_ok hn, Scope.outcome, reduce, added, hn]
    · split
      next h =>
        obtain rfl := hvoid.1 h
        exact .nil _
      next => exact ⟨by simp [addedList, added, hn], by simp [errorsList, errors, hn]⟩
    · intro x hx
      cases hx

theorem build_reduceList {t : Target} {us : List Step}
    (h : ∀ u ∈ us, ∀ s : Scope, s.target = t →
      Build t (u.reduce t (u.run s).2).toList (u.added t))
    {s : Scope} (hs : s.target = t) :
    Build t (reduceList t us (runList s us).2) (addedList t us) := by
  induction us generalizing s with
  | nil => exact .nil t
  | cons u us ih =>
    rw [List.forall_mem_cons] at h
    exact (h.1 s hs).append (ih h.2 ((run_target s u).trans hs))

/-- What is left of a step adds what the step added, and nothing in it fails. -/
theorem build_reduce {t : Target} (u : Step) {s : Scope} (hs : s.target = t) :
    Build t (u.reduce t (u.run s).2).toList (u.added t) := by
  induction u using inductionOn generalizing s with
  | filter c f => exact build_reduce_filter hs c f
  | group c us ih =>
    have hchildren := build_reduceList (fun u hu s => ih u hu) (s := s.inner) hs
    rw [run, reduce, added, ← hchildren.added]
    cases hvs : reduceList t us (runList s.inner us).2 with
    -- no step is left, so no node was added and there was no group
    | nil => exact .nil t
    | cons v vs =>
      have herrors := hchildren.errors
      rw [hvs] at herrors
      exact ⟨by simp [addedList, added], by simpa [errorsList, errors] using herrors⟩
  | push n => exact ⟨rfl, by simp [reduce, errorsList, errors]⟩

end Step

namespace Criteria

def Answer.reduce (t : Target) : Operation → Answer → Option Operation
  | .step u, .added o => (u.reduce t o).map .step
  | _, .failed _ => none
  | o, _ => some o

/-- A run without the steps that failed, the filters that had nothing to say, and the groups that
nothing is left of. -/
def reduced (c : Criteria) (os : List Operation) : List Operation :=
  (os.zip (c.runAll os).2).filterMap fun x => x.2.reduce c.target x.1

def Succeed (as : List Answer) : Prop := ∀ a ∈ as, ∀ x ∈ a.errors, x = none

theorem apply_eq_ok {c : Criteria} {o : Operation} (h : ∀ x ∈ (c.run o).2.errors, x = none) :
    c.apply o = .ok (c.run o).1 := by
  by_cases hstep : ∃ u, o = .step u
  · obtain ⟨u, rfl⟩ := hstep
    rw [errors_run_step] at h
    rw [run_step, apply, addStep, Step.nodes_eq_ok h]
    rfl
  · have hstep : ∀ u, o ≠ .step u := fun u hu => hstep ⟨u, hu⟩
    cases ha : c.apply o with
    | ok d => rw [run_ok hstep ha]
    | error x =>
      rw [run_error hstep ha] at h
      cases h _ List.mem_cons_self

theorem applyAll_eq_ok {c : Criteria} {os : List Operation} (h : Succeed (c.runAll os).2) :
    c.applyAll os = .ok (c.runAll os).1 := by
  induction os generalizing c with
  | nil => rfl
  | cons o os ih =>
    obtain ⟨ho, hos⟩ := List.forall_mem_cons.1 h
    rw [applyAll, List.foldlM_cons, apply_eq_ok ho]
    exact ih hos

structure Leaves (c : Criteria) (os : List Operation) (c' : Criteria) : Prop where
  result : (c.runAll os).1 = c'
  succeed : Succeed (c.runAll os).2

theorem Leaves.append {c c' c'' : Criteria} {os os' : List Operation} (h : c.Leaves os c')
    (h' : c'.Leaves os' c'') : c.Leaves (os ++ os') c'' := by
  constructor
  · rw [runAll_append, h.result]
    exact h'.result
  · rw [runAll_append, h.result]
    exact List.forall_mem_append.2 ⟨h.succeed, h'.succeed⟩

theorem leaves_of_build {c : Criteria} {u : Option Step} {ns : List Node}
    (h : Step.Build c.target u.toList ns) :
    c.Leaves (u.map .step).toList { c with nodes := c.nodes ++ ns } := by
  obtain ⟨rfl, herrors⟩ := h
  cases u with
  | none => exact ⟨by simp [runAll, Step.addedList], nofun⟩
  | some u =>
    constructor
    · simp [runAll, run_step, Step.addedList]
    · simpa [runAll, Succeed, errors_run_step, Step.errorsList] using herrors

theorem leaves_reduce (c : Criteria) (o : Operation) :
    c.Leaves ((c.run o).2.reduce c.target o).toList (c.run o).1 := by
  by_cases hstep : ∃ u, o = .step u
  · obtain ⟨u, rfl⟩ := hstep
    rw [run_step]
    exact leaves_of_build (Step.build_reduce u (s := c.scope) rfl)
  · have hstep : ∀ u, o ≠ .step u := fun u hu => hstep ⟨u, hu⟩
    cases ha : c.apply o with
    | ok d =>
      have hrun := run_ok hstep ha
      have hreduce : (Answer.changed d).reduce c.target o = some o := by cases o <;> rfl
      rw [hrun, hreduce]
      exact ⟨by simp [runAll, hrun], by simp [runAll, hrun, Succeed, Answer.errors]⟩
    | error x =>
      have hreduce : (Answer.failed x).reduce c.target o = none := by cases o <;> rfl
      rw [run_error hstep ha, hreduce]
      exact ⟨rfl, List.forall_mem_nil _⟩

theorem leaves_reduced (c : Criteria) (os : List Operation) :
    c.Leaves (c.reduced os) (c.runAll os).1 := by
  induction os generalizing c with
  | nil => exact ⟨rfl, nofun⟩
  | cons o os ih =>
    have hcons : c.reduced (o :: os) =
        ((c.run o).2.reduce c.target o).toList ++ (c.run o).1.reduced os := by
      rw [reduced, reduced, target_run, runAll, List.zip_cons_cons, List.filterMap_cons]
      cases (c.run o).2.reduce c.target o <;> rfl
    rw [hcons]
    exact (leaves_reduce c o).append (ih _)

/-- Failed and absent filters leave no trace. Of any run, what is left without them raises no error
and ends in the same criteria, also where an error would be the end. -/
theorem runAll_reduced (c : Criteria) (os : List Operation) :
    (c.runAll (c.reduced os)).1 = (c.runAll os).1 ∧
      Succeed (c.runAll (c.reduced os)).2 ∧ c.applyAll (c.reduced os) = .ok (c.runAll os).1 := by
  have h := leaves_reduced c os
  exact ⟨h.result, h.succeed, by rw [applyAll_eq_ok h.succeed, h.result]⟩

example :
    (fetching userEntity).reduced [.select "", .step (.group .and [.group .or
      [.filter .and ⟨"name", .compare .eq (.text "")⟩]]), .groupBy "id"] = [.groupBy "id"] := by
  rfl

end Criteria

end FilterSql
