import FilterSql.Proofs.Criteria.Steps
/-!
# Runs of operations

A run carries out operations one after the other, the ones that fail included. A step without
finished nodes adds nodes of filters and groups behind the ones there are, and every other operation
sets one part of the criteria, so an invariant of runs has one case for each of these changes.
-/
namespace FilterSql

section

variable {ε α β : Type}

theorem bind_eq_ok {r : Except ε α} {f : α → Except ε β} {b : β} (h : r >>= f = .ok b) :
    ∃ a, r = .ok a ∧ f a = .ok b := by
  cases r with
  | error x => cases h
  | ok a => exact ⟨a, rfl, h⟩

theorem map_eq_ok {r : Except ε α} {f : α → β} {b : β} (h : r.map f = .ok b) :
    ∃ a, r = .ok a ∧ f a = b := by
  cases r with
  | error x => cases h
  | ok a => exact ⟨a, rfl, Except.ok.inj h⟩

theorem exists_of_toOption_map {r : Except ε α} {f : α → β} {b : β}
    (h : r.toOption.map f = some b) : ∃ a, r = .ok a ∧ f a = b := by
  cases r with
  | error x => cases h
  | ok a => exact ⟨a, rfl, Option.some.inj h⟩

theorem exists_of_isOk {r : Except ε α} (h : r.isOk = true) : ∃ a, r = .ok a := by
  cases r with
  | error x => cases h
  | ok a => exact ⟨a, rfl⟩

theorem ok_bind (a : α) (f : α → Except ε β) : (Except.ok a >>= f) = f a := rfl

theorem bind_congr_ok {r : Except ε α} {f g : α → Except ε β} (h : ∀ a, r = .ok a → f a = g a) :
    r >>= f = r >>= g := by
  cases r with
  | error x => rfl
  | ok a => exact h a rfl

/-- Results with one image are one error, or both successes with one image. -/
theorem cases_of_map_eq {g : α → β} {r r' : Except ε α}
    (h : r.map g = r'.map g) :
    (∃ a a', r = .ok a ∧ r' = .ok a' ∧ g a = g a') ∨ ∃ x, r = .error x ∧ r' = .error x := by
  cases r with
  | ok a =>
    cases r' with
    | ok a' => exact Or.inl ⟨a, a', rfl, rfl, Except.ok.inj h⟩
    | error y => cases h
  | error x =>
    cases r' with
    | ok a' => cases h
    | error y => exact Or.inr ⟨x, rfl, congrArg Except.error (Except.error.inj h).symm⟩

end

/-- The nodes that a filter on a property may become, given the key that is stored for it. -/
inductive Target.FilterNode (t : Target) (property key : String) (c : Conjunction) : Node → Prop
  | compare {op : Comparison} {v : Value} (h : t.drops property v = false) :
    FilterNode t property key c (.scalar ⟨c, op.predicate, key⟩ v)
  | like (v : Value) : FilterNode t property key c (.scalar ⟨c, .like, key⟩ (Condition.pattern v))
  | between {a b : Value} (ha : t.drops property a = false) (hb : t.drops property b = false) :
    FilterNode t property key c (.range ⟨c, .between, key⟩ a b)
  | among {negated : Bool} {vs : List Value} (h : distinctValues vs ≠ []) :
    FilterNode t property key c
      (.list ⟨c, if negated then .notAmong else .among, key⟩ (distinctValues vs))

theorem Condition.filterNode_of_node? {t : Target} {property key : String} {c : Conjunction}
    {x : Condition} {n : Node} (h : x.node? t property key c = some n) :
    t.FilterNode property key c n := by
  cases x with
  | compare op v =>
    rw [node?] at h
    split at h
    next => cases h
    next hd => obtain rfl := Option.some.inj h; exact .compare (by simpa using hd)
  | like v =>
    rw [node?] at h
    split at h
    next => cases h
    next => obtain rfl := Option.some.inj h; exact .like v
  | between a b =>
    rw [node?] at h
    split at h
    next => cases h
    next hd =>
      obtain rfl := Option.some.inj h
      rw [Bool.or_eq_true, not_or, Bool.not_eq_true, Bool.not_eq_true] at hd
      exact .between hd.1 hd.2
  | among negated vs =>
    rw [node?] at h
    split at h
    next => cases h
    next hd => obtain rfl := Option.some.inj h; exact .among (by simpa using hd)

theorem Filter.filterNode_of_node? {t : Target} {c : Conjunction} {f : Filter} {n : Node}
    (h : f.node? t c = .ok (some n)) :
    ∃ key, t.key f.property = .ok key ∧ t.FilterNode f.property key c n := by
  obtain ⟨key, hk, hn⟩ := map_eq_ok h
  exact ⟨key, hk, Condition.filterNode_of_node? hn⟩

theorem Target.FilterNode.leaf {t : Target} {property key : String} {c : Conjunction} {n : Node}
    (h : t.FilterNode property key c n) :
    n.key = key ∧ n.conjunction = c ∧ n.children? = none := by
  cases h <;> exact ⟨rfl, rfl, rfl⟩

namespace Criteria

def Answer.errors : Answer → List (Option Error)
  | .added o => o.errors
  | .changed _ => [none]
  | .failed x => [some x]

theorem run_step (c : Criteria) (u : Step) :
    (c.run (.step u)).1 = { c with nodes := c.nodes ++ u.added c.target } := by
  change { c with nodes := (u.run c.scope).1.nodes } = _
  rw [Step.run_eq]
  rfl

theorem errors_run_step (c : Criteria) (u : Step) :
    (c.run (.step u)).2.errors = u.errors c.target :=
  Step.errors_run c.scope u

theorem run_ok {c c' : Criteria} {o : Operation} (ho : ∀ t, o ≠ .step t)
    (h : c.apply o = .ok c') : c.run o = (c', .changed c') := by
  rw [run, h]
  exact ho

theorem run_error {c : Criteria} {o : Operation} {x : Error} (ho : ∀ t, o ≠ .step t)
    (h : c.apply o = .error x) : c.run o = (c, .failed x) := by
  rw [run, h]
  exact ho

theorem run_congr {E : Criteria → Criteria} {c c' : Criteria} {o : Operation}
    (ho : ∀ t, o ≠ .step t) (h : E c = E c') (happly : (c.apply o).map E = (c'.apply o).map E) :
    E (c.run o).1 = E (c'.run o).1 ∧
      ((∃ d d', (c.run o).2 = .changed d ∧ (c'.run o).2 = .changed d' ∧ E d = E d') ∨
        ∃ x, (c.run o).2 = .failed x ∧ (c'.run o).2 = .failed x) := by
  obtain ⟨d, d', ha, ha', hd⟩ | ⟨x, ha, ha'⟩ := cases_of_map_eq happly
  · rw [run_ok ho ha, run_ok ho ha']
    exact ⟨hd, Or.inl ⟨d, d', rfl, rfl, hd⟩⟩
  · rw [run_error ho ha, run_error ho ha']
    exact ⟨h, Or.inr ⟨x, rfl, rfl⟩⟩

/-- What an operation can do to a criteria, where `P` holds of the nodes that steps add. -/
inductive Change (P : Node → Prop) (c : Criteria) : Criteria → Prop
  | none : Change P c c
  | nodes {ns : List Node} (h : ∀ n ∈ ns, P n) : Change P c { c with nodes := c.nodes ++ ns }
  | projections {ps qs : List String} (h : c.projections = some ps) :
    Change P c { c with projections := some qs }
  | source (script : String) : Change P c { c with source := some script }
  | groupBy {property key : String} (h : c.target.key property = .ok key) :
    Change P c { c with nodes := Node.conditions c.nodes ++ [.groupingColumn key] }
  | orderBy {property key : String} {direction : Direction} (h : c.target.key property = .ok key) :
    Change P c { c with orderBy := some ⟨key, direction⟩ }
  | paging (p : Paging) : Change P c { c with paging := some p }

variable {P : Node → Prop} {c c' : Criteria}

theorem project_eq_ok {projection : String} (h : c.project projection = .ok c') :
    ∃ ps, c.projections = some ps ∧ c' = { c with projections := some (ps ++ [projection]) } := by
  rw [project] at h
  cases hp : c.projections with
  | none => rw [hp] at h; cases h
  | some ps =>
    rw [hp] at h
    exact ⟨ps, rfl, (Except.ok.inj h).symm⟩

theorem groupBy_eq_ok {property : String} (h : c.groupBy property = .ok c') :
    ∃ key, c.target.key property = .ok key ∧
      c' = { c with nodes := Node.conditions c.nodes ++ [.groupingColumn key] } := by
  obtain ⟨key, hk, h⟩ := bind_eq_ok h
  exact ⟨key, hk, (Except.ok.inj h).symm⟩

theorem sortBy_eq_ok {property : String} {direction : Direction}
    (h : c.sortBy property direction = .ok c') :
    ∃ key, c.target.key property = .ok key ∧ c' = { c with orderBy := some ⟨key, direction⟩ } := by
  obtain ⟨key, hk, h⟩ := bind_eq_ok h
  exact ⟨key, hk, (Except.ok.inj h).symm⟩

theorem change_project {projection : String} (h : c.project projection = .ok c') :
    Change P c c' := by
  obtain ⟨ps, hp, rfl⟩ := project_eq_ok h
  exact .projections hp

theorem change_apply {o : Operation} (ho : ∀ t, o ≠ .step t) (h : c.apply o = .ok c') :
    Change P c c' := by
  cases o with
  | step t => exact absurd rfl (ho t)
  | select text =>
    obtain ⟨p, -, h⟩ := bind_eq_ok h
    exact change_project h
  | selectExpression text =>
    obtain ⟨p, -, h⟩ := bind_eq_ok h
    exact change_project h
  | source script =>
    obtain rfl := Except.ok.inj h
    exact .source script
  | groupBy property =>
    obtain ⟨key, hk, rfl⟩ := groupBy_eq_ok h
    exact .groupBy hk
  | orderBy property direction =>
    obtain ⟨key, hk, rfl⟩ := sortBy_eq_ok h
    exact .orderBy hk
  | paged paging =>
    obtain rfl := Except.ok.inj h
    exact .paging paging

/-- An operation without finished nodes makes one of these changes, also when it fails in part. -/
theorem change_run (hP : c.target.Builds P) {o : Operation} (ho : o.isFluent = true) :
    Change P c (c.run o).1 := by
  by_cases hstep : ∃ t, o = .step t
  · obtain ⟨t, rfl⟩ := hstep
    rw [run_step]
    exact .nodes (Step.builds_added hP ho)
  · have hstep : ∀ t, o ≠ .step t := fun t ht => hstep ⟨t, ht⟩
    cases ha : c.apply o with
    | ok c' => rw [run_ok hstep ha]; exact change_apply hstep ha
    | error x => rw [run_error hstep ha]; exact .none

theorem Change.target (h : Change P c c') : c'.target = c.target := by
  cases h with
  | projections hp => rw [Criteria.target, Criteria.target, isFetch, isFetch, hp]; rfl
  | none | nodes | source | groupBy | orderBy | paging => rfl

theorem target_run (c : Criteria) (o : Operation) : (c.run o).1.target = c.target := by
  have hP : c.target.Builds fun _ => True := ⟨fun _ _ _ _ => trivial, fun _ _ _ _ => trivial⟩
  cases o with
  | step t => rfl
  | select | selectExpression | source | groupBy | orderBy | paged =>
    exact (change_run hP rfl).target

/-- Carry out operations one after the other, whatever becomes of each. -/
def runAll (c : Criteria) : List Operation → Criteria × List Answer
  | [] => (c, [])
  | o :: os =>
    let r := c.run o
    let rs := runAll r.1 os
    (rs.1, r.2 :: rs.2)

theorem runAll_append (c : Criteria) (os os' : List Operation) :
    c.runAll (os ++ os') =
      (((c.runAll os).1.runAll os').1, (c.runAll os).2 ++ ((c.runAll os).1.runAll os').2) := by
  induction os generalizing c with
  | nil => rfl
  | cons o os ih =>
    rw [List.cons_append, runAll, ih]
    rfl

theorem runAll_invariant {I : Criteria → Prop} {os : List Operation}
    (hrun : ∀ c, ∀ o ∈ os, I c → I (c.run o).1) (hc : I c) : I (c.runAll os).1 := by
  induction os generalizing c with
  | nil => exact hc
  | cons o os ih =>
    exact ih (fun c o ho => hrun c o (List.mem_cons_of_mem _ ho)) (hrun c o List.mem_cons_self hc)

theorem target_runAll (c : Criteria) (os : List Operation) :
    (c.runAll os).1.target = c.target :=
  runAll_invariant (I := fun d => d.target = c.target)
    (fun d o _ hd => (target_run d o).trans hd) rfl

end Criteria

def userEntity : Entity :=
  { name := "User", table := "t_user"
    fields := .ofList [("id", ⟨"user_id", .int, false⟩), ("name", ⟨"full_name", .text, false⟩)] }

end FilterSql
