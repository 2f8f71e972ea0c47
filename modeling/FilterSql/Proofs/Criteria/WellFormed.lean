import FilterSql.Proofs.Criteria.Keys
import FilterSql.Proofs.Query.Template
/-!
# Well-formed criteria

What operations build is well formed, whichever of them fail: every node is a condition whose
predicate fits its values, a group with members, or the one grouping column, which stands at the top
level. Values that say nothing were dropped, so every condition is written, and no bound value is
absent or empty.
-/
namespace FilterSql

open Node

theorem head?_arrowsToPoints {s : List Char} (h : (arrowsToPoints s).head? = some '>') :
    s.head? = some '>' := by
  fun_cases arrowsToPoints s with
  | case1 s => simp [arrowsToPoints] at h
  | case2 c s hs => simpa [arrowsToPoints] using h
  | case3 => simp [arrowsToPoints] at h

theorem arrow_not_infix (s : List Char) : ¬ ['-', '>'] <:+: arrowsToPoints s := by
  fun_induction arrowsToPoints s with
  | case1 s ih =>
    rw [List.infix_cons_iff, not_or]
    exact ⟨fun h => absurd (List.cons_prefix_cons.1 h).1 (by decide), ih⟩
  | case2 c s hs ih =>
    rw [List.infix_cons_iff, not_or]
    refine ⟨fun h => ?_, ih⟩
    obtain ⟨rfl, ht⟩ := List.cons_prefix_cons.1 h
    -- the head of the rest was there before, and then it would have been an arrow
    obtain ⟨t, ht⟩ := ht
    have hhead := head?_arrowsToPoints (s := s) (by rw [← ht]; rfl)
    obtain ⟨u, rfl⟩ := List.head?_eq_some_iff.1 hhead
    exact hs u rfl rfl
  | case3 => simp

/-- The keys that a target admits: declared properties, and in fetch mode references without
arrows. -/
def Target.Admits (t : Target) (key : String) : Prop :=
  if t.fetch then ¬ ['-', '>'] <:+: key.toList else (t.entity.field? key).isSome = true

theorem Target.stores_admits (t : Target) : t.Stores t.Admits := by
  intro property key h
  rw [Target.key] at h
  rw [Target.Admits]
  split at h
  next hf =>
    obtain rfl := Except.ok.inj h
    rw [if_pos hf, String.toList_ofList]
    exact arrow_not_infix _
  next hf =>
    split at h
    next hd => obtain rfl := Except.ok.inj h; rwa [if_neg hf]
    next => cases h

theorem Target.isVoid_of_drops {t : Target} {property : String} {v : Value}
    (h : t.drops property v = false) : v.isVoid = false := by
  rw [Target.drops, Bool.or_eq_false_iff] at h
  exact h.1

theorem Condition.isVoid_pattern (v : Value) : (pattern v).isVoid = false := by
  simp [pattern, Value.isVoid]

structure Value.AreDistinct (vs : List Value) : Prop where
  filled : ∀ v ∈ vs, v.isVoid = false
  distinct : vs.Pairwise fun v w => v.same w = false

theorem areDistinct_distinctValues (vs : List Value) : Value.AreDistinct (distinctValues vs) := by
  refine List.foldlRecOn vs _ ⟨nofun, .nil⟩ fun kept hkept v _ => ?_
  split
  next => exact hkept
  next hv =>
    rw [Bool.or_eq_true, not_or, Bool.not_eq_true, Bool.not_eq_true, List.any_eq_false] at hv
    refine ⟨List.forall_mem_append.2 ⟨hkept.filled, List.forall_mem_singleton.2 hv.1⟩, ?_⟩
    refine List.pairwise_append.2 ⟨hkept.distinct, List.pairwise_singleton _ _, fun w hw u hu => ?_⟩
    rw [List.mem_singleton.1 hu]
    simpa using hv.2 w hw

namespace Node

/-- The predicate fits the values, which all say something, and a group has members and no key. -/
def Fits : Node → Prop
  | scalar l v => l.predicate.isBinary = true ∧ v.isVoid = false
  | range l a b => l.predicate = .between ∧ a.isVoid = false ∧ b.isVoid = false
  | list l vs => (l.predicate = .among ∨ l.predicate = .notAmong) ∧ vs ≠ [] ∧ Value.AreDistinct vs
  | group l ns => l.predicate = .group ∧ l.key = "" ∧ ns ≠ []
  | marker _ => False

structure IsCondition (n : Node) : Prop where
  joined : n.conjunction = .and ∨ n.conjunction = .or
  fits : n.Fits

/-- A node is regular if it and all nodes inside it are conditions. -/
def Regular (n : Node) : Prop := ∀ m ∈ n.subnodes, m.IsCondition

theorem Regular.self {n : Node} (h : n.Regular) : n.IsCondition := h n (mem_subnodes_self n)

theorem Regular.child {l : Label} {ns : List Node} (h : (group l ns).Regular) {n : Node}
    (hn : n ∈ ns) : n.Regular := fun _ hm => h _ (mem_subnodes_group hn hm)

theorem Regular.leaf {n : Node} (hleaf : n.children? = none) (h : n.IsCondition) : n.Regular := by
  intro m hm
  rwa [eq_of_mem_subnodes hleaf hm]

theorem Regular.grouped {c : Connective} {ns : List Node} (hne : ns ≠ [])
    (h : ∀ n ∈ ns, n.Regular) : (grouped c.toConjunction ns).Regular := by
  intro m hm
  rw [Node.grouped, subnodes_group, List.mem_cons, List.mem_flatMap] at hm
  rcases hm with rfl | ⟨n, hn, hm⟩
  · exact ⟨by cases c <;> simp [conjunction, label, Connective.toConjunction], rfl, rfl, hne⟩
  · exact h n hn m hm

theorem Regular.not_isGroupBy {n : Node} (h : n.Regular) : n.isGroupBy = false := by
  rw [isGroupBy]
  rcases h.self.joined with hj | hj <;> rw [hj] <;> rfl

end Node

theorem Target.FilterNode.isCondition {t : Target} {property key : String} {c : Connective}
    {n : Node} (h : t.FilterNode property key c.toConjunction n) : n.IsCondition := by
  refine ⟨?_, ?_⟩
  · rw [h.leaf.2.1]
    cases c <;> simp [Connective.toConjunction]
  · cases h with
    | @compare op v hv => exact ⟨by cases op <;> rfl, isVoid_of_drops hv⟩
    | like v => exact ⟨rfl, Condition.isVoid_pattern v⟩
    | between ha hb => exact ⟨rfl, isVoid_of_drops ha, isVoid_of_drops hb⟩
    | @among negated vs hne =>
      refine ⟨?_, hne, areDistinct_distinctValues vs⟩
      cases negated <;> simp

theorem Target.builds_regular (t : Target) : t.Builds Regular := by
  refine ⟨fun c f n hn => ?_, fun c ns => .grouped⟩
  obtain ⟨key, -, hnode⟩ := Filter.filterNode_of_node? hn
  exact .leaf hnode.leaf.2.2 hnode.isCondition

namespace Node

theorem Regular.renders {n : Node} (h : n.Regular) : n.renders = true := by
  induction n using inductionOn with
  | scalar l v => rfl
  | range l a b => rfl
  | list l vs =>
    obtain ⟨-, hne, -⟩ := h.self.fits
    rw [Node.renders, List.isEmpty_eq_false_iff.2 hne]
    rfl
  | group l ns ih =>
    obtain ⟨-, -, hne⟩ := h.self.fits
    obtain ⟨n, hn⟩ := List.exists_mem_of_ne_nil ns hne
    rw [Node.renders, anyRenders_eq, List.any_eq_true]
    exact ⟨n, hn, ih n hn (h.child hn)⟩
  | marker l => exact h.self.fits.elim

end Node

/-- A value as it is bound: neither absent nor empty, and the name of an alternative as a text. -/
structure Value.IsBound (v : Value) : Prop where
  filled : v.isVoid = false
  text : ∀ name, v ≠ .choice name

theorem Value.isBound_toBind {v : Value} (h : v.isVoid = false) : v.toBind.IsBound := by
  cases v with
  | choice name => exact ⟨h, nofun⟩
  | null | bool | int | float | text | timestamp => exact ⟨h, nofun⟩

theorem Node.Regular.isBound_binds {n : Node} (h : n.Regular) : ∀ v ∈ n.binds, v.IsBound := by
  induction n using Node.inductionOn with
  | scalar l v =>
    obtain ⟨-, hv⟩ := h.self.fits
    exact List.forall_mem_singleton.2 (Value.isBound_toBind hv)
  | range l a b =>
    obtain ⟨-, ha, hb⟩ := h.self.fits
    exact List.forall_mem_cons.2 ⟨Value.isBound_toBind ha,
      List.forall_mem_singleton.2 (Value.isBound_toBind hb)⟩
  | list | marker => exact fun v hv => absurd hv List.not_mem_nil
  | group l ns ih =>
    intro v hv
    rw [binds, bindsList_eq, List.mem_flatMap] at hv
    obtain ⟨n, hn, hv⟩ := hv
    exact ih n hn (h.child hn) v hv

namespace Criteria

structure IsFresh (c : Criteria) : Prop where
  nodes : c.nodes = []
  orderBy : c.orderBy = none

theorem isFresh_plain (e : Entity) : (plain e).IsFresh := ⟨rfl, rfl⟩

theorem IsFresh.project {c c' : Criteria} {text : String} (h : c.IsFresh)
    (hc : c.project text = .ok c') : c'.IsFresh := by
  obtain ⟨ps, -, rfl⟩ := project_eq_ok hc
  exact ⟨h.nodes, h.orderBy⟩

theorem IsFresh.select {c c' : Criteria} {text : String} (h : c.IsFresh)
    (hc : c.select text = .ok c') : c'.IsFresh := by
  obtain ⟨p, -, hc⟩ := bind_eq_ok hc
  exact h.project hc

theorem IsFresh.selectExpression {c c' : Criteria} {text : String} (h : c.IsFresh)
    (hc : c.selectExpression text = .ok c') : c'.IsFresh := by
  obtain ⟨p, -, hc⟩ := bind_eq_ok hc
  exact h.project hc

theorem IsFresh.foldlM {select : Criteria → String → Except Error Criteria}
    (hselect : ∀ {c c' : Criteria} {text : String},
      c.IsFresh → select c text = .ok c' → c'.IsFresh)
    {c c' : Criteria} {texts : List String} (h : c.IsFresh)
    (hc : texts.foldlM select c = .ok c') : c'.IsFresh := by
  induction texts generalizing c with
  | nil =>
    obtain rfl := Except.ok.inj hc
    exact h
  | cons text texts ih =>
    rw [List.foldlM_cons] at hc
    obtain ⟨d, hs, hc⟩ := bind_eq_ok hc
    exact ih (hselect h hs) hc

/-- The result keys and the page of a request add nothing either. -/
theorem isFresh_fetch {provider : Provider} {name : String} {request : Option FetchRequest}
    {c : Criteria} (h : fetch provider name request = .ok c) : c.IsFresh := by
  obtain ⟨e, -, h⟩ := bind_eq_ok h
  cases request with
  | none =>
    obtain rfl := Except.ok.inj h
    exact ⟨rfl, rfl⟩
  | some r =>
    obtain ⟨d, hr, h⟩ := bind_eq_ok h
    obtain rfl := Except.ok.inj h
    have hd : d.IsFresh := .foldlM .selectExpression ⟨rfl, rfl⟩ hr
    exact ⟨hd.nodes, hd.orderBy⟩

/-- Every node at the top level is regular or the one grouping column, and all keys are such as the
target admits. -/
structure WellFormed (c : Criteria) : Prop extends Keyed c.target.Admits c where
  regular : ∀ n ∈ c.nodes, n.Regular ∨ ∃ key, n = .groupingColumn key
  grouping : (c.nodes.filter Node.isGroupBy).length ≤ 1

variable {c c' : Criteria}

theorem IsFresh.wellFormed (h : c.IsFresh) : c.WellFormed := by
  refine ⟨⟨?_, ?_⟩, ?_, ?_⟩
  · rw [h.nodes]
    exact nofun
  · rw [h.orderBy]
    exact nofun
  · rw [h.nodes]
    exact nofun
  · rw [h.nodes]
    exact Nat.zero_le 1

theorem WellFormed.change (h : c.WellFormed) (hc : Change Regular c c')
    (hkeyed : Keyed c.target.Admits c') : c'.WellFormed := by
  have hkeys : Keyed c'.target.Admits c' := by rwa [hc.target]
  refine ⟨hkeys, ?_, ?_⟩
  · cases hc with
    | nodes hns =>
      exact List.forall_mem_append.2 ⟨h.regular, fun n hn => Or.inl (hns n hn)⟩
    | @groupBy property key hk =>
      refine List.forall_mem_append.2 ⟨fun n hn => h.regular n (List.mem_filter.1 hn).1, ?_⟩
      exact List.forall_mem_singleton.2 (Or.inr ⟨key, rfl⟩)
    | none | projections | source | orderBy | paging => exact h.regular
  · cases hc with
    | @nodes ns hns =>
      have hnone : ns.filter isGroupBy = [] := List.filter_eq_nil_iff.2 fun n hn => by
        rw [(hns n hn).not_isGroupBy]
        exact Bool.false_ne_true
      change ((c.nodes ++ ns).filter isGroupBy).length ≤ 1
      rw [List.filter_append, hnone, List.append_nil]
      exact h.grouping
    | @groupBy property key hk =>
      change ((conditions c.nodes ++ [groupingColumn key]).filter isGroupBy).length ≤ 1
      rw [List.filter_append, filter_isGroupBy_conditions, List.nil_append]
      exact List.length_filter_le _ _
    | none | projections | source | orderBy | paging => exact h.grouping

theorem WellFormed.run {o : Operation} (h : c.WellFormed) (ho : o.isFluent = true) :
    (c.run o).1.WellFormed := by
  have hstores := c.target.stores_admits
  exact h.change (change_run c.target.builds_regular ho)
    (h.toKeyed.change hstores (change_run hstores.builds ho))

theorem WellFormed.runAll {os : List Operation} (h : c.WellFormed)
    (hos : ∀ o ∈ os, o.isFluent = true) : (c.runAll os).1.WellFormed :=
  runAll_invariant (fun _ o ho hd => hd.run (hos o ho)) h

theorem WellFormed.conditions (h : c.WellFormed) : ∀ n ∈ conditions c.nodes, n.Regular := by
  intro n hn
  obtain ⟨hn, hg⟩ := List.mem_filter.1 hn
  rcases h.regular n hn with hr | ⟨key, rfl⟩
  · exact hr
  · cases hg

theorem WellFormed.renders (h : c.WellFormed) {n : Node} (hn : n ∈ subnodesList c.nodes)
    (hg : n.isGroupBy = false) : n.renders = true := by
  rw [subnodesList_eq, List.mem_flatMap] at hn
  obtain ⟨m, hm, hn⟩ := hn
  rcases h.regular m hm with hr | ⟨key, rfl⟩
  · exact Regular.renders fun k hk => hr k (mem_subnodes_trans hn hk)
  · rw [eq_of_mem_subnodes rfl hn] at hg
    cases hg

theorem WellFormed.isBound_binds (h : c.WellFormed) {provider : Provider} {q : Query}
    (hq : c.compile provider = .ok q) : ∀ v ∈ q.binds, v.IsBound := by
  obtain ⟨-, -, -, -, hbinds, -⟩ := compile_eq_ok hq
  intro v hv
  rw [hbinds, bindsList_eq, List.mem_flatMap] at hv
  obtain ⟨n, hn, hv⟩ := hv
  exact (h.conditions n hn).isBound_binds v hv

/-- Every run without finished nodes ends in a well-formed criteria on the same target. So every
node but the grouping column is written, and no bound value is absent or empty. -/
theorem wellFormed_runAll {c₀ : Criteria} (h₀ : c₀.IsFresh) {os : List Operation}
    (hos : ∀ o ∈ os, o.isFluent = true) (hc : c = (c₀.runAll os).1) :
    c.WellFormed ∧ c.target = c₀.target ∧
      (∀ n ∈ subnodesList c.nodes, n.isGroupBy = false → n.renders = true) ∧
      ∀ provider q, c.compile provider = .ok q → ∀ v ∈ q.binds, v.IsBound := by
  have hwell : c.WellFormed := hc ▸ h₀.wellFormed.runAll hos
  refine ⟨hwell, ?_, fun n hn hg => hwell.renders hn hg, fun provider q hq => ?_⟩
  · rw [hc]
    exact target_runAll c₀ os
  · exact hwell.isBound_binds hq

end Criteria

/-- A run in fetch mode, in which one step fails and one group stays empty. -/
def fetchRun : List Operation :=
  [.step (.filter .and ⟨"User->id", .among true [.int 2, .null, .int 2, .text ""]⟩),
    .groupBy "User->name",
    .selectExpression "User->id;",
    .step (.group .or [.filter .or ⟨"User.name", .like (.choice "ann")⟩,
      .group .and [.filter .and ⟨"User.id", .compare .eq .null⟩]]),
    .groupBy "User->id",
    .orderBy "User->name" .desc]

def fetchCriteria : Criteria :=
  { entity := userEntity, paging := some ⟨1, 20⟩, projections := some ["User.name"] }

theorem wellFormed_fetchRun :
    Criteria.fetch (Registry.ofList [userEntity]).resolve "User"
        (some ⟨["User->name"], none, some 20⟩) = .ok fetchCriteria ∧
      (∀ o ∈ fetchRun, o.isFluent = true) ∧ (fetchCriteria.runAll fetchRun).1.WellFormed ∧
      ∃ q, (fetchCriteria.runAll fetchRun).1.compile (Registry.ofList [userEntity]).resolve =
        .ok q ∧ ∀ v ∈ q.binds, v.IsBound := by
  have hfetch : Criteria.fetch (Registry.ofList [userEntity]).resolve "User"
      (some ⟨["User->name"], none, some 20⟩) = .ok fetchCriteria := rfl
  have hfluent : ∀ o ∈ fetchRun, o.isFluent = true := by decide
  have hcompile : ∃ q, (fetchCriteria.runAll fetchRun).1.compile
      (Registry.ofList [userEntity]).resolve = .ok q := ⟨_, rfl⟩
  obtain ⟨q, hq⟩ := hcompile
  obtain ⟨hwell, -, -, hbound⟩ :=
    Criteria.wellFormed_runAll (Criteria.isFresh_fetch hfetch) hfluent rfl
  exact ⟨hfetch, hfluent, hwell, q, hq, hbound _ q hq⟩

end FilterSql
