import FilterSql.Criteria.Build
import FilterSql.Proofs.Node.Forest
/-!
# What steps add

The nodes that a step adds, and which of the steps inside it fail, depend on the target alone and
not on the nodes that there are. So the effect of a step is a list of nodes and a list of errors,
and a place with the same target takes both over as they are.
-/
namespace FilterSql

/-- Properties that the nodes of a target's filters have, and a group if all its children do. -/
structure Target.Builds (t : Target) (P : Node → Prop) : Prop where
  filter : ∀ (c : Connective) (f : Filter) n, f.node? t c.toConjunction = .ok (some n) → P n
  group : ∀ (c : Connective) ns, ns ≠ [] → (∀ n ∈ ns, P n) → P (.grouped c.toConjunction ns)

mutual

/-- The errors of a step and of the steps inside it, with nothing for each one that succeeds. -/
def Outcome.errors : Outcome → List (Option Error)
  | .nodes .. => [none]
  | .failed x => [some x]
  | .group _ _ os _ _ => none :: Outcome.errorsList os

def Outcome.errorsList : List Outcome → List (Option Error)
  | [] => []
  | o :: os => Outcome.errors o ++ Outcome.errorsList os

end

namespace Step

@[elab_as_elim]
theorem inductionOn {motive : Step → Prop}
    (filter : ∀ c f, motive (filter c f))
    (group : ∀ c ts, (∀ t ∈ ts, motive t) → motive (group c ts))
    (push : ∀ n, motive (push n)) (t : Step) : motive t :=
  Step.rec (motive_1 := motive) (motive_2 := fun ts => ∀ t ∈ ts, motive t)
    filter group push (fun _ h => absurd h List.not_mem_nil)
    (fun _ _ h hs => List.forall_mem_cons.2 ⟨h, hs⟩) t

mutual

def isFluent : Step → Bool
  | filter .. => true
  | group _ ts => areFluent ts
  | push _ => false

def areFluent : List Step → Bool
  | [] => true
  | t :: ts => isFluent t && areFluent ts

end

theorem areFluent_eq (ts : List Step) : areFluent ts = ts.all isFluent := by
  induction ts with
  | nil => rfl
  | cons t ts ih => rw [areFluent, ih, List.all_cons]

theorem run_filter_ok {s : Scope} {c : Connective} {f : Filter} {n : Option Node}
    (h : f.node? s.target c.toConjunction = .ok n) :
    run s (.filter c f) = (s.add n.toList, (s.add n.toList).outcome) := by
  rw [run, h]

theorem run_filter_error {s : Scope} {c : Connective} {f : Filter} {x : Error}
    (h : f.node? s.target c.toConjunction = .error x) :
    run s (.filter c f) = (s, .failed x) := by
  rw [run, h]

theorem run_group (s : Scope) (c : Connective) (ts : List Step) :
    (run s (.group c ts)).1 = s.add (Scope.closed c (runList s.inner ts).1.nodes) := rfl

theorem run_target (s : Scope) (t : Step) : (t.run s).1.target = s.target := by
  cases t with
  | filter c f =>
    cases h : f.node? s.target c.toConjunction with
    | error x => rw [run_filter_error h]
    | ok n => rw [run_filter_ok h]; rfl
  | group c ts => rfl
  | push n => rfl

theorem add_nil (s : Scope) : s.add [] = s := by
  rw [Scope.add, List.append_nil]

theorem add_append (s : Scope) (ns ms : List Node) : (s.add ns).add ms = s.add (ns ++ ms) := by
  rw [Scope.add, Scope.add, Scope.add, List.append_assoc]

mutual

def added (t : Target) : Step → List Node
  | filter c f =>
    match f.node? t c.toConjunction with
    | .ok n => n.toList
    | .error _ => []
  | group c ts => Scope.closed c (addedList t ts)
  | push n => [n]

def addedList (t : Target) : List Step → List Node
  | [] => []
  | u :: us => added t u ++ addedList t us

end

mutual

def errors (t : Target) : Step → List (Option Error)
  | filter c f =>
    match f.node? t c.toConjunction with
    | .ok _ => [none]
    | .error x => [some x]
  | group _ ts => none :: errorsList t ts
  | push _ => [none]

def errorsList (t : Target) : List Step → List (Option Error)
  | [] => []
  | u :: us => errors t u ++ errorsList t us

end

theorem addedList_eq (t : Target) (us : List Step) : addedList t us = us.flatMap (added t) := by
  induction us with
  | nil => rfl
  | cons u us ih => rw [addedList, ih, List.flatMap_cons]

theorem errorsList_eq (t : Target) (us : List Step) : errorsList t us = us.flatMap (errors t) := by
  induction us with
  | nil => rfl
  | cons u us ih => rw [errorsList, ih, List.flatMap_cons]

/-- In every place with this target a step has the effect that is described. -/
structure HasEffect (t : Target) (u : Step) : Prop where
  added : ∀ s : Scope, s.target = t → (u.run s).1 = s.add (u.added t)
  errors : ∀ s : Scope, s.target = t → (u.run s).2.errors = u.errors t

theorem effect_runList {t : Target} {us : List Step} (h : ∀ u ∈ us, u.HasEffect t) {s : Scope}
    (hs : s.target = t) :
    (runList s us).1 = s.add (addedList t us) ∧
      Outcome.errorsList (runList s us).2 = errorsList t us := by
  induction us generalizing s with
  | nil => exact ⟨(add_nil s).symm, rfl⟩
  | cons u us ih =>
    rw [List.forall_mem_cons] at h
    have hfirst := h.1.added s hs
    obtain ⟨hrest, herrors⟩ := ih h.2 (s := s.add (u.added t)) hs
    rw [← hfirst] at hrest herrors
    constructor
    · change (runList (u.run s).1 us).1 = s.add (added t u ++ addedList t us)
      rw [hrest, hfirst, add_append]
    · change (u.run s).2.errors ++ Outcome.errorsList (runList (u.run s).1 us).2 = _
      rw [h.1.errors s hs, herrors, errorsList]

theorem hasEffect (t : Target) (u : Step) : u.HasEffect t := by
  induction u using inductionOn with
  | filter c f =>
    constructor <;> rintro s rfl <;> cases hn : f.node? s.target c.toConjunction with
    | error x => simp only [run_filter_error hn, added, errors, hn, add_nil, Outcome.errors]
    | ok n => simp only [run_filter_ok hn, added, errors, hn, Scope.outcome, Outcome.errors]
  | group c us ih =>
    -- the steps of the group start from an inner place with the same target
    constructor <;> intro s hs <;>
      obtain ⟨hnodes, herrors⟩ := effect_runList ih (s := s.inner) hs
    · rw [run_group, hnodes]
      rfl
    · exact congrArg (none :: ·) herrors
  | push n => exact ⟨fun _ _ => rfl, fun _ _ => rfl⟩

theorem run_eq (s : Scope) (u : Step) : (u.run s).1 = s.add (u.added s.target) :=
  (u.hasEffect s.target).added s rfl

theorem errors_run (s : Scope) (u : Step) : (u.run s).2.errors = u.errors s.target :=
  (u.hasEffect s.target).errors s rfl

/-- Steps in which nothing fails add their nodes also where a failure would be the end. -/
theorem nodes_eq_ok {t : Target} {u : Step} (h : ∀ x ∈ u.errors t, x = none) :
    u.nodes t = .ok (u.added t) := by
  induction u using inductionOn with
  | filter c f =>
    rw [errors] at h
    rw [nodes, added]
    cases hn : f.node? t c.toConjunction with
    | error x =>
      rw [hn] at h
      cases h _ List.mem_cons_self
    | ok n => rfl
  | group c us ih =>
    rw [errors, List.forall_mem_cons] at h
    have hlist : nodesList t us = .ok (addedList t us) := by
      replace h := h.2
      induction us with
      | nil => rfl
      | cons u us ihus =>
        rw [errorsList, List.forall_mem_append] at h
        rw [List.forall_mem_cons] at ih
        rw [nodesList, ih.1 h.1, ihus ih.2 h.2]
        rfl
    rw [nodes, hlist]
    rfl
  | push n => rfl

theorem builds_added {P : Node → Prop} {t : Target} (hP : t.Builds P) {u : Step}
    (hu : u.isFluent = true) : ∀ n ∈ u.added t, P n := by
  induction u using inductionOn with
  | filter c f =>
    intro n hn
    rw [added] at hn
    split at hn
    next o ho =>
      obtain rfl := Option.mem_toList.1 hn
      exact hP.filter c f n ho
    next => cases hn
  | group c us ih =>
    rw [isFluent, areFluent_eq, List.all_eq_true] at hu
    have hchildren : ∀ n ∈ addedList t us, P n := by
      intro n hn
      rw [addedList_eq, List.mem_flatMap] at hn
      obtain ⟨u, hmem, hn⟩ := hn
      exact ih u hmem (hu u hmem) n hn
    intro n hn
    rw [added, Scope.closed] at hn
    split at hn
    next => cases hn
    next hne =>
      obtain rfl := List.mem_singleton.1 hn
      exact hP.group c _ (by simpa using hne) hchildren
  | push n => cases hu

end Step

def Operation.isFluent : Operation → Bool
  | .step t => t.isFluent
  | _ => true

end FilterSql
