import FilterSql.Proofs.Criteria.Run
/-!
# Runs with other values

Erasing the values of comparisons leaves everything else of a criteria: its forest, its keys and its
lists. Two runs whose operations differ in such values alone, and in which the same filters are
dropped, give the same answers and the same criteria up to erasure.
-/
namespace FilterSql

namespace Node

def eraseLeaf : Node → Node
  | scalar l _ => scalar l .null
  | range l _ _ => range l .null .null
  | n => n

/-- A node without the values that its leaves bind. -/
def erase : Node → Node := mapLeaves eraseLeaf

theorem keepsShape_eraseLeaf : KeepsShape eraseLeaf := by
  constructor <;> intro n <;> cases n <;> rfl

theorem erase_grouped (c : Conjunction) (ns : List Node) :
    (grouped c ns).erase = grouped c (ns.map erase) := by
  rw [erase, grouped, mapLeaves, mapLeavesList_eq]
  rfl

theorem erase_key (n : Node) : n.erase.key = n.key := by
  cases n <;> rfl

theorem conditions_map_erase (ns : List Node) :
    conditions (ns.map erase) = (conditions ns).map erase :=
  keepsShape_eraseLeaf.mapLeaves.conditions ns

end Node

inductive Condition.Alike : Condition → Condition → Prop
  | compare (op : Comparison) (v w : Value) : Alike (.compare op v) (.compare op w)
  | like (v w : Value) : Alike (.like v) (.like w)
  | between (a b a' b' : Value) : Alike (.between a b) (.between a' b')
  | among (negated : Bool) (vs : List Value) : Alike (.among negated vs) (.among negated vs)

/-- Filters on one property whose conditions are alike and of which both are dropped or none. -/
structure Filter.Alike (t : Target) (f g : Filter) : Prop where
  property : f.property = g.property
  condition : f.condition.Alike g.condition
  dropped : ∀ c, f.node? t c = .ok none ↔ g.node? t c = .ok none

theorem erase_unless {p q : Prop} [Decidable p] [Decidable q] {n m : Node}
    (hd : (if p then none else some n) = none ↔ (if q then none else some m) = none)
    (h : n.erase = m.erase) :
    (if p then none else some n).map Node.erase = (if q then none else some m).map Node.erase := by
  by_cases hp : p
  · have hq : q := by
      by_contra hq
      simp [hp, hq] at hd
    rw [if_pos hp, if_pos hq]
  · have hq : ¬ q := by
      intro hq
      simp [hp, hq] at hd
    rw [if_neg hp, if_neg hq, Option.map_some, Option.map_some, h]

theorem Condition.Alike.node? {x y : Condition} (h : x.Alike y) (t : Target)
    (property key : String) (c : Conjunction)
    (hd : x.node? t property key c = none ↔ y.node? t property key c = none) :
    (x.node? t property key c).map Node.erase = (y.node? t property key c).map Node.erase := by
  cases h with
  | compare op v w => exact erase_unless hd rfl
  | like v w => exact erase_unless hd rfl
  | between a b a' b' => exact erase_unless hd rfl
  | among negated vs => rfl

theorem Filter.Alike.node? {t : Target} {f g : Filter} (h : f.Alike t g) (c : Conjunction) :
    (f.node? t c).map (Option.map Node.erase) = (g.node? t c).map (Option.map Node.erase) := by
  have hd := h.dropped c
  rw [Filter.node?, Filter.node?, h.property] at hd ⊢
  cases hk : t.key g.property with
  | error x => rfl
  | ok key =>
    rw [hk] at hd
    have hiff : f.condition.node? t g.property key c = none ↔
        g.condition.node? t g.property key c = none := by
      simpa [Except.map] using hd
    exact congrArg Except.ok (h.condition.node? t g.property key c hiff)

namespace Scope

def erase (s : Scope) : Scope := { s with nodes := s.nodes.map Node.erase }

theorem erase_add (s : Scope) (ns : List Node) :
    (s.add ns).erase = s.erase.add (ns.map Node.erase) := by
  rw [erase, add, List.map_append]
  rfl

theorem erase_closed (c : Connective) (ns : List Node) :
    (closed c ns).map Node.erase = closed c (ns.map Node.erase) := by
  rw [closed, closed, List.isEmpty_map]
  split
  · rfl
  · rw [List.map_singleton, Node.erase_grouped]

end Scope

mutual

def Outcome.erase : Outcome → Outcome
  | .nodes count last => .nodes count (last.map Node.erase)
  | .failed x => .failed x
  | .group c depth steps count last =>
    .group c depth (eraseList steps) count (last.map Node.erase)

def Outcome.eraseList : List Outcome → List Outcome
  | [] => []
  | o :: os => Outcome.erase o :: Outcome.eraseList os

end

theorem Scope.erase_outcome (s : Scope) : s.outcome.erase = s.erase.outcome := by
  rw [outcome, Outcome.erase, outcome, erase, List.length_map, List.getLast?_map]

theorem Scope.erase_group (s : Scope) (c : Connective) (depth : Nat) (os : List Outcome) :
    (Outcome.group c depth os s.nodes.length s.nodes.getLast?).erase =
      .group c depth (Outcome.eraseList os) s.erase.nodes.length s.erase.nodes.getLast? := by
  rw [Outcome.erase, erase, List.length_map, List.getLast?_map]

mutual

def Step.Alike (t : Target) : Step → Step → Prop
  | .filter c f, .filter d g => c = d ∧ f.Alike t g
  | .group c ss, .group d us => c = d ∧ AreAlike t ss us
  | .push n, .push m => n.erase = m.erase
  | _, _ => False

def Step.AreAlike (t : Target) : List Step → List Step → Prop
  | [], [] => True
  | s :: ss, u :: us => Step.Alike t s u ∧ Step.AreAlike t ss us
  | _, _ => False

end

namespace Step

variable {s s' : Scope}

theorem run_filter_erase {t : Target} (hs : s.erase = s'.erase) (ht : s.target = t)
    (c : Connective) {f g : Filter} (h : f.Alike t g) :
    (run s (.filter c f)).1.erase = (run s' (.filter c g)).1.erase ∧
      (run s (.filter c f)).2.erase = (run s' (.filter c g)).2.erase := by
  have ht' : s'.target = t := by rw [← ht]; exact (congrArg Scope.target hs).symm
  have hn := h.node? c.toConjunction
  cases hf : f.node? t c.toConjunction with
  | error x =>
    cases hg : g.node? t c.toConjunction with
    | error y =>
      rw [hf, hg] at hn
      obtain rfl : x = y := Except.error.inj hn
      rw [run_filter_error (ht ▸ hf), run_filter_error (ht' ▸ hg)]
      exact ⟨hs, rfl⟩
    | ok m => rw [hf, hg] at hn; cases hn
  | ok n =>
    cases hg : g.node? t c.toConjunction with
    | error y => rw [hf, hg] at hn; cases hn
    | ok m =>
      rw [hf, hg] at hn
      have hnm : n.map Node.erase = m.map Node.erase := Except.ok.inj hn
      have hadd : (s.add n.toList).erase = (s'.add m.toList).erase := by
        rw [Scope.erase_add, Scope.erase_add, hs, ← Option.toList_map, ← Option.toList_map, hnm]
      rw [run_filter_ok (ht ▸ hf), run_filter_ok (ht' ▸ hg)]
      exact ⟨hadd, by rw [Scope.erase_outcome, Scope.erase_outcome, hadd]⟩

theorem run_push_erase (hs : s.erase = s'.erase) {n m : Node} (h : n.erase = m.erase) :
    (run s (.push n)).1.erase = (run s' (.push m)).1.erase ∧
      (run s (.push n)).2.erase = (run s' (.push m)).2.erase := by
  have hadd : (s.add [n]).erase = (s'.add [m]).erase := by
    rw [Scope.erase_add, Scope.erase_add, hs, List.map_singleton, List.map_singleton, h]
  exact ⟨hadd, by rw [run, run, Scope.erase_outcome, Scope.erase_outcome, hadd]⟩

theorem inner_erase (hs : s.erase = s'.erase) : s.inner.erase = s'.inner.erase := by
  have hdepth : s.depth = s'.depth := (congrArg Scope.depth hs :)
  have htarget : s.target = s'.target := (congrArg Scope.target hs :)
  rw [Scope.inner, Scope.inner, htarget, hdepth]

theorem run_group_erase (hs : s.erase = s'.erase) (c : Connective) {ts us : List Step}
    (hrun : (runList s.inner ts).1.erase = (runList s'.inner us).1.erase)
    (hout : Outcome.eraseList (runList s.inner ts).2 =
      Outcome.eraseList (runList s'.inner us).2) :
    (run s (.group c ts)).1.erase = (run s' (.group c us)).1.erase ∧
      (run s (.group c ts)).2.erase = (run s' (.group c us)).2.erase := by
  have hnodes : (runList s.inner ts).1.nodes.map Node.erase =
      (runList s'.inner us).1.nodes.map Node.erase := congrArg Scope.nodes hrun
  have hadd : (s.add (Scope.closed c (runList s.inner ts).1.nodes)).erase =
      (s'.add (Scope.closed c (runList s'.inner us).1.nodes)).erase := by
    rw [Scope.erase_add, Scope.erase_add, Scope.erase_closed, Scope.erase_closed, hs, hnodes]
  have hdepth : s.inner.depth = s'.inner.depth := (congrArg Scope.depth (inner_erase hs) :)
  refine ⟨hadd, ?_⟩
  rw [run, run, Scope.erase_group, Scope.erase_group, hadd, hout, hdepth]

/-- Alike steps leave places alike and do alike things. -/
theorem run_erase {t : Target} {u u' : Step} (hs : s.erase = s'.erase) (ht : s.target = t)
    (h : u.Alike t u') :
    (u.run s).1.erase = (u'.run s').1.erase ∧ (u.run s).2.erase = (u'.run s').2.erase := by
  induction u using inductionOn generalizing u' s s' with
  | filter c f =>
    cases u' with
    | filter d g =>
      obtain ⟨rfl, h⟩ := h
      exact run_filter_erase hs ht c h
    | group d us => cases h
    | push m => cases h
  | group c ts ih =>
    cases u' with
    | filter d g => cases h
    | group d us =>
      obtain ⟨rfl, h⟩ := h
      -- both groups are gone through step by step, from any two places that are alike
      have hlist {r r' : Scope} (hr : r.erase = r'.erase) (hrt : r.target = t) :
          (runList r ts).1.erase = (runList r' us).1.erase ∧
            Outcome.eraseList (runList r ts).2 = Outcome.eraseList (runList r' us).2 := by
        clear hs ht
        induction ts generalizing r r' us with
        | nil =>
          cases us with
          | nil => exact ⟨hr, rfl⟩
          | cons u us => cases h
        | cons v ts ihts =>
          cases us with
          | nil => cases h
          | cons u us =>
            obtain ⟨hv, hvs⟩ := h
            rw [List.forall_mem_cons] at ih
            obtain ⟨hrun, hout⟩ := ih.1 hr hrt hv
            obtain ⟨hrest, houts⟩ := ihts ih.2 us hvs hrun ((run_target r v).trans hrt)
            exact ⟨hrest, congrArg₂ List.cons hout houts⟩
      obtain ⟨hrun, hout⟩ := hlist (inner_erase hs) ht
      exact run_group_erase hs c hrun hout
    | push m => cases h
  | push n =>
    cases u' with
    | filter d g => cases h
    | group d us => cases h
    | push m => exact run_push_erase hs h

end Step

namespace Criteria

def erase (c : Criteria) : Criteria := { c with nodes := c.nodes.map Node.erase }

def Answer.erase : Answer → Answer
  | .added o => .added o.erase
  | .changed c => .changed c.erase
  | .failed x => .failed x

end Criteria

def Operation.Alike (t : Target) : Operation → Operation → Prop
  | .step u, .step u' => u.Alike t u'
  | o, o' => o = o'

namespace Criteria

variable {c c' : Criteria}

theorem target_erase (c : Criteria) : c.erase.target = c.target := rfl

theorem target_eq_of_erase (h : c.erase = c'.erase) : c.target = c'.target :=
  (congrArg target h :)

theorem apply_erase {o : Operation} (ho : ∀ t, o ≠ .step t) (c : Criteria) :
    c.erase.apply o = (c.apply o).map erase := by
  cases o with
  | step t => exact absurd rfl (ho t)
  | select text =>
    rw [apply, apply, select, select]
    cases Projection.parse text with
    | error x => rfl
    | ok p =>
      change c.erase.project p = (c.project p).map erase
      rw [project, project, erase]
      cases c.projections <;> rfl
  | selectExpression text =>
    rw [apply, apply, selectExpression, selectExpression]
    cases Expression.parse text with
    | error x => rfl
    | ok p =>
      change c.erase.project p.sql = (c.project p.sql).map erase
      rw [project, project, erase]
      cases c.projections <;> rfl
  | source script => rfl
  | groupBy property =>
    rw [apply, apply, groupBy, groupBy, target_erase]
    cases c.target.key property with
    | error x => rfl
    | ok key =>
      have hnodes : Node.conditions c.erase.nodes ++ [Node.groupingColumn key] =
          (Node.conditions c.nodes ++ [Node.groupingColumn key]).map Node.erase := by
        rw [List.map_append]
        exact congrArg (· ++ _) (Node.conditions_map_erase c.nodes)
      exact congrArg (fun ns => Except.ok { c with nodes := ns }) hnodes
  | orderBy property direction =>
    rw [apply, apply, sortBy, sortBy, target_erase]
    cases c.target.key property <;> rfl
  | paged paging => rfl

theorem runStep_erase {u u' : Step} (h : c.erase = c'.erase) (hu : u.Alike c.target u') :
    (c.runStep u).1.erase = (c'.runStep u').1.erase ∧
      (c.runStep u).2.erase = (c'.runStep u').2.erase := by
  have hscope : c.scope.erase = c'.scope.erase := by
    have hnodes : c.nodes.map Node.erase = c'.nodes.map Node.erase := (congrArg nodes h :)
    rw [scope, scope, Scope.erase, Scope.erase, hnodes, target_eq_of_erase h]
  obtain ⟨hrun, hout⟩ := Step.run_erase hscope rfl hu
  have hnodes : (u.run c.scope).1.nodes.map Node.erase = (u'.run c'.scope).1.nodes.map Node.erase :=
    (congrArg Scope.nodes hrun :)
  refine ⟨?_, hout⟩
  change { c.erase with nodes := (u.run c.scope).1.nodes.map Node.erase } =
    { c'.erase with nodes := (u'.run c'.scope).1.nodes.map Node.erase }
  rw [h, hnodes]

theorem run_erase {o o' : Operation} (h : c.erase = c'.erase) (ho : o.Alike c.target o') :
    (c.run o).1.erase = (c'.run o').1.erase ∧ (c.run o).2.erase = (c'.run o').2.erase := by
  have hother (hstep : ∀ t, o ≠ .step t) (heq : o = o') :
      (c.run o).1.erase = (c'.run o').1.erase ∧ (c.run o).2.erase = (c'.run o').2.erase := by
    subst heq
    have happly : (c.apply o).map erase = (c'.apply o).map erase := by
      rw [← apply_erase hstep, ← apply_erase hstep, h]
    obtain ⟨hrun, ⟨d, d', ha, ha', hd⟩ | ⟨x, ha, ha'⟩⟩ := run_congr hstep h happly
    · rw [ha, ha']
      exact ⟨hrun, congrArg Answer.changed hd⟩
    · rw [ha, ha']
      exact ⟨hrun, rfl⟩
  cases o with
  | step u =>
    cases o' with
    | step u' =>
      obtain ⟨hrun, hout⟩ := runStep_erase h ho
      exact ⟨hrun, congrArg Answer.added hout⟩
    | select | selectExpression | source | groupBy | orderBy | paged => cases ho
  | select | selectExpression | source | groupBy | orderBy | paged =>
    exact hother nofun ho

/-- Alike runs give alike criteria and alike answers. -/
theorem runAll_erase {t : Target} {os os' : List Operation}
    (h : List.Forall₂ (Operation.Alike t) os os') (hc : c.erase = c'.erase) (ht : c.target = t) :
    (c.runAll os).1.erase = (c'.runAll os').1.erase ∧
      (c.runAll os).2.map Answer.erase = (c'.runAll os').2.map Answer.erase := by
  induction h generalizing c c' with
  | nil => exact ⟨hc, rfl⟩
  | @cons o o' os os' ho _ ih =>
    obtain ⟨hrun, hanswer⟩ := run_erase hc (ht ▸ ho)
    obtain ⟨hrest, hanswers⟩ := ih hrun ((target_run c o).trans ht)
    exact ⟨hrest, congrArg₂ List.cons hanswer hanswers⟩

end Criteria

end FilterSql
