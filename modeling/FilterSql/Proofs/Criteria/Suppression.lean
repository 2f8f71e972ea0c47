import FilterSql.Proofs.Criteria.Reduction
import FilterSql.Proofs.Value.Numerals
import FilterSql.Registry
import Mathlib.Data.List.TakeWhile
/-!
# Dropped filters

A filter is dropped if a value in it says nothing, and what that is depends on the declaration that
its reference leads to: the one that the target has under the reference's last name. An integer or
boolean property takes every number between minus one and one for zero. A zero is kept where the
target declares a property that may be absent, and dropped where it declares none, whatever another
entity declares.
-/
namespace FilterSql

/-- The values that each decide alone whether a condition is dropped. -/
def Condition.operands : Condition → List Value
  | compare _ v | like v => [v]
  | between a b => [a, b]
  | among _ _ => []

def Condition.isList : Condition → Bool
  | among .. => true
  | _ => false

theorem Condition.node?_eq_none_iff_operands {t : Target} {property key : String} {c : Conjunction}
    {x : Condition} (hx : x.isList = false) :
    x.node? t property key c = none ↔ ∃ v ∈ x.operands, t.drops property v = true := by
  rw [node?_eq_none_iff]
  cases x with
  | compare op v | like v => simp [isVoid, operands]
  | between a b => simp [isVoid, operands]
  | among => cases hx

/-- What a step that succeeds returns when it adds these nodes. -/
def Scope.added (s : Scope) (ns : List Node) : Scope × Outcome := (s.add ns, (s.add ns).outcome)

theorem Scope.added_nil (s : Scope) : s.added [] = (s, s.outcome) := by
  rw [added, Step.add_nil]

namespace Step

variable {s : Scope} {p key : String}

theorem run_filter_of_key (hkey : s.target.key p = .ok key) (k : Connective) (x : Condition) :
    run s (.filter k ⟨p, x⟩) = s.added (x.node? s.target p key k.toConjunction).toList := by
  apply run_filter_ok
  rw [Filter.node?, hkey]
  rfl

/-- A filter on an integer or boolean property that may not be absent is dropped if one of its
numerals lies between minus one and one, and adds its node if none does. Of the numerals without a
fraction only zero is dropped. -/
theorem run_filter_numerals {f : Field} (hkey : s.target.key p = .ok key)
    (hf : s.target.entity.field? (Target.trailingName p) = some f) (hnull : f.nullable = false)
    (hkind : f.kind.isWhole = true) :
    (∀ (v : Value) r, v.Denotes r → (v.isUnset (some f) = true ↔ |r| < 1)) ∧
      (∀ (v : Value) (n : Numeral), v.display.toList = n.text → n.fraction = none →
        (v.isUnset (some f) = true ↔ n.value = 0)) ∧
      ∀ k x, x.isList = false → (∀ v ∈ x.operands, ∃ r, v.Denotes r) →
        ((∃ v ∈ x.operands, ∃ r, v.Denotes r ∧ |r| < 1) →
          run s (.filter k ⟨p, x⟩) = (s, s.outcome)) ∧
        ((∀ v ∈ x.operands, ∀ r, v.Denotes r → 1 ≤ |r|) →
          ∃ n, s.target.FilterNode p key k.toConjunction n ∧
            run s (.filter k ⟨p, x⟩) = s.added [n]) := by
  have hunset {v : Value} {r} (h : v.Denotes r) : v.isUnset (some f) = true ↔ |r| < 1 :=
    h.isUnset_iff hnull hkind
  have hdrops {v : Value} {r} (h : v.Denotes r) : s.target.drops p v = true ↔ |r| < 1 := by
    rw [Target.drops, h.isVoid_eq_false, Bool.false_or, hf, hunset h]
  refine ⟨fun v r => hunset, fun v n hn hfraction => ?_, fun k x hx hnumerals => ⟨?_, ?_⟩⟩
  · rw [hunset ⟨n, hn, rfl⟩, n.value_eq_zero_iff_of_fraction hfraction]
  · rintro ⟨v, hv, r, hr, hlt⟩
    have hnone : x.node? s.target p key k.toConjunction = none :=
      (Condition.node?_eq_none_iff_operands hx).2 ⟨v, hv, (hdrops hr).2 hlt⟩
    rw [run_filter_of_key hkey, hnone, Option.toList_none, Scope.added_nil]
  · intro hge
    cases hnode : x.node? s.target p key k.toConjunction with
    | none =>
      obtain ⟨v, hv, hdropped⟩ := (Condition.node?_eq_none_iff_operands hx).1 hnode
      obtain ⟨r, hr⟩ := hnumerals v hv
      exact absurd ((hdrops hr).1 hdropped) (not_lt.2 (hge v hv r hr))
    | some n =>
      refine ⟨n, Condition.filterNode_of_node? hnode, ?_⟩
      rw [run_filter_of_key hkey, hnode, Option.toList_some]

end Step

def half : Value := .float (.ofQuotient .double false 1 2)

theorem denotes_half : half.Denotes (1 / 2) :=
  ⟨{ whole := ['0'], fraction := some ['5'] }, by decide +kernel, by decide +kernel⟩

theorem run_filter_numerals_id :
    Step.run (Criteria.plain userEntity).scope (.filter .and ⟨"id", .between half (.int 7)⟩) =
        ((Criteria.plain userEntity).scope, (Criteria.plain userEntity).scope.outcome) ∧
      ∃ n, n.key = "id" ∧
        Step.run (Criteria.plain userEntity).scope
            (.filter .or ⟨"id", .between (.text "-12.5") (.int 7)⟩) =
          (Criteria.plain userEntity).scope.added [n] := by
  have hkey : (Criteria.plain userEntity).scope.target.key "id" = .ok "id" := by decide +kernel
  obtain ⟨hunset, -, hrun⟩ := Step.run_filter_numerals hkey
    (f := ⟨"user_id", .int, false⟩) (by decide +kernel) rfl rfl
  have hseven : (Value.int 7).Denotes 7 :=
    ⟨{ whole := ['7'] }, by decide +kernel, by decide +kernel⟩
  have htwelve : (Value.text "-12.5").Denotes (-25 / 2) :=
    ⟨{ sign := some true, whole := ['1', '2'], fraction := some ['5'] }, by decide +kernel,
      by decide +kernel⟩
  have hnumerals {v w : Value} {q r : ℚ} (hv : v.Denotes q) (hw : w.Denotes r) :
      ∀ u ∈ (Condition.between v w).operands, ∃ r, u.Denotes r := by
    simpa [Condition.operands] using ⟨⟨q, hv⟩, r, hw⟩
  have hlarge {v : Value} (hv : v.isUnset (some ⟨"user_id", .int, false⟩) = false) (r : ℚ)
      (hr : v.Denotes r) : 1 ≤ |r| := by
    rw [← not_lt, ← hunset v r hr, hv]
    exact Bool.false_ne_true
  constructor
  · exact (hrun .and (.between half (.int 7)) rfl (hnumerals denotes_half hseven)).1
      ⟨half, List.mem_cons_self, _, denotes_half, by norm_num [abs_lt]⟩
  · have hkept : ∀ v ∈ [Value.text "-12.5", Value.int 7], ∀ r, v.Denotes r → 1 ≤ |r| := by
      simp only [List.forall_mem_cons]
      exact ⟨hlarge (by decide +kernel), hlarge (by decide +kernel), nofun⟩
    obtain ⟨n, hn, hadded⟩ :=
      (hrun .or (.between (.text "-12.5") (.int 7)) rfl (hnumerals htwelve hseven)).2 hkept
    exact ⟨n, hn.leaf.1, hadded⟩

/-- One half is not zero, but says as little as zero about an integer property, and so does minus a
quarter about a boolean one: a comparison with one half is dropped. -/
theorem not_onlyZero_half :
    (half.Denotes (1 / 2) ∧ half.isUnset (some ⟨"user_id", .int, false⟩) = true) ∧
      ((Value.text "-0.25").Denotes (-1 / 4) ∧
        (Value.text "-0.25").isUnset (some ⟨"active", .bool, false⟩) = true) ∧
      (Step.run (Criteria.plain userEntity).scope
        (.filter .and ⟨"id", .compare .gt half⟩)).1.nodes.isEmpty = true := by
  have hquarter : (Value.text "-0.25").Denotes (-1 / 4) :=
    ⟨{ sign := some true, whole := ['0'], fraction := some ['2', '5'] }, by decide +kernel,
      by decide +kernel⟩
  exact ⟨⟨denotes_half, by decide +kernel⟩, ⟨hquarter, by decide +kernel⟩, by decide +kernel⟩

/-- A name that stands in a reference as it is: nothing in it ends the reference or cuts it. -/
structure IsSegment (s : List Char) : Prop where
  blank : ' ' ∉ s
  point : '.' ∉ s
  arrow : ¬ ['-', '>'] <:+: s

def qualified (arrow : Bool) (entity property : String) : String :=
  entity ++ (if arrow then "->" else ".") ++ property

theorem arrowsToPoints_append {s r : List Char} (hs : ¬ ['-', '>'] <:+: s)
    (hr : r.head? ≠ some '>') : arrowsToPoints (s ++ r) = s ++ arrowsToPoints r := by
  induction s with
  | nil => rfl
  | cons c s ih =>
    rw [List.infix_cons_iff, not_or] at hs
    rw [List.cons_append, List.cons_append, arrowsToPoints, ih hs.2]
    -- an arrow would end in `s` or at the head of `r`
    rintro t rfl ht
    cases s with
    | nil =>
      rw [List.nil_append] at ht
      exact hr (ht ▸ rfl)
    | cons d s =>
      rw [List.cons_append, List.cons.injEq] at ht
      obtain ⟨rfl, -⟩ := ht
      exact hs.1 ⟨s, rfl⟩

theorem arrowsToPoints_eq_self {s : List Char} (hs : ¬ ['-', '>'] <:+: s) :
    arrowsToPoints s = s := by
  simpa [arrowsToPoints] using arrowsToPoints_append (r := []) hs (by simp)

section

variable {E p : String} (hE : IsSegment E.toList) (hp : IsSegment p.toList) (arrow : Bool)
include hE hp

theorem arrowsToPoints_qualified :
    arrowsToPoints (qualified arrow E p).toList = E.toList ++ '.' :: p.toList := by
  have hproperty := arrowsToPoints_eq_self hp.arrow
  cases arrow with
  | true =>
    have htext : (qualified true E p).toList = E.toList ++ '-' :: '>' :: p.toList := by
      simp [qualified]
    rw [htext, arrowsToPoints_append hE.arrow (by simp), arrowsToPoints, hproperty]
  | false =>
    have htext : (qualified false E p).toList = E.toList ++ '.' :: p.toList := by
      simp [qualified]
    rw [htext, arrowsToPoints_append hE.arrow (by simp), arrowsToPoints, hproperty]
    rintro t ⟨⟩

theorem Target.key_qualified {t : Target} (ht : t.fetch = true) :
    t.key (qualified arrow E p) = .ok (E ++ "." ++ p) := by
  have htext : E.toList ++ '.' :: p.toList = (E ++ "." ++ p).toList := by simp
  rw [key, if_pos ht, arrowsToPoints_qualified hE hp, htext, String.ofList_toList]

theorem Target.trailingName_qualified : trailingName (qualified arrow E p) = p := by
  have hblank : (qualified arrow E p).toList.takeWhile (· != ' ') =
      (qualified arrow E p).toList := by
    rw [List.takeWhile_eq_self_iff]
    intro c hc
    rw [bne_iff_ne]
    rintro rfl
    cases arrow <;> simp [qualified, hE.blank, hp.blank] at hc
  have hcut : (E.toList ++ '.' :: p.toList).splitOn '.' = [E.toList, p.toList] := by
    rw [List.splitOn_append_cons_self_of_not_mem hE.point, List.splitOn_eq_singleton hp.point]
  rw [trailingName, hblank, arrowsToPoints_qualified hE hp, hcut]
  exact String.ofList_toList

end

def ScalarKind.hasZero : ScalarKind → Bool
  | int | long | short | byte | float | double | bool => true
  | text | timestamp | decimal | other => false

theorem Value.isUnset_zero (f : Field) :
    (Value.int 0).isUnset (some f) = (!f.nullable && f.kind.hasZero) := by
  have hwhole : isWholeZero (Value.int 0).display.toList = true := by decide +kernel
  have hnumeral : isNumeralZero (Value.int 0).display.toList = true := by decide +kernel
  unfold isUnset
  simp only [hwhole, hnumeral]
  obtain ⟨_, kind, _⟩ := f
  cases kind <;> rfl

theorem Value.isUnset_zero_none : (Value.int 0).isUnset none = true := by
  decide +kernel

def Registry.DeclaresNullable (r : Registry) (entity property : String) : Prop :=
  ∃ e f, r.resolve entity = .ok e ∧ e.field? property = some f ∧ f.nullable = true

namespace Step

/-- A comparison with zero on a qualified property that may be absent is kept if the target itself
declares a property of that name that may be absent or has no zero, which the named entity does. It
is dropped if the target declares none. -/
theorem run_filter_zero {r : Registry} {E p : String} (h : r.DeclaresNullable E p)
    (hE : IsSegment E.toList) (hp : IsSegment p.toList) {s : Scope} (hs : s.target.fetch = true)
    (arrow : Bool) (k : Connective) (op : Comparison) :
    (r.resolve E = .ok s.target.entity ∨
        (∃ f, s.target.entity.field? p = some f ∧ (f.nullable = true ∨ f.kind.hasZero = false)) →
      run s (.filter k ⟨qualified arrow E p, .compare op (.int 0)⟩) =
        s.added [.scalar ⟨k.toConjunction, op.predicate, E ++ "." ++ p⟩ (.int 0)]) ∧
      (s.target.entity.field? p = none →
        run s (.filter k ⟨qualified arrow E p, .compare op (.int 0)⟩) = (s, s.outcome)) := by
  have hkey := Target.key_qualified hE hp arrow hs
  have hdrops : s.target.drops (qualified arrow E p) (.int 0) =
      (Value.int 0).isUnset (s.target.entity.field? p) := by
    rw [Target.drops, Target.trailingName_qualified hE hp]
    rfl
  constructor
  · intro hkept
    have hfield : ∃ f, s.target.entity.field? p = some f ∧
        (f.nullable = true ∨ f.kind.hasZero = false) := by
      obtain hsame | hkept := hkept
      · obtain ⟨e, f, he, hf, hnull⟩ := h
        obtain rfl := Except.ok.inj (he.symm.trans hsame)
        exact ⟨f, hf, .inl hnull⟩
      · exact hkept
    obtain ⟨f, hf, hzero⟩ := hfield
    have hunset : (Value.int 0).isUnset (some f) = false := by
      rw [Value.isUnset_zero]
      obtain hnull | hzero := hzero
      · rw [hnull]
        rfl
      · rw [hzero, Bool.and_false]
    rw [run_filter_of_key hkey, Condition.node?, hdrops, hf, hunset]
    rfl
  · intro hf
    rw [run_filter_of_key hkey, Condition.node?, hdrops, hf, Value.isUnset_zero_none, if_pos rfl,
      Option.toList_none, Scope.added_nil]

end Step

def scoredEntity (name : String) : Entity :=
  { name, table := "t_match"
    fields := .ofList [("score", ⟨"score", .int, true⟩), ("net score", ⟨"net_score", .int, true⟩),
      ("net.score", ⟨"net_score", .int, true⟩), ("net->score", ⟨"net_score", .int, true⟩)] }

def playerEntity : Entity :=
  { name := "Player", table := "t_player", fields := .ofList [("score", ⟨"score", .int, false⟩)] }

def scores : Registry :=
  .ofList [scoredEntity "Match", scoredEntity "Home Match", playerEntity, userEntity]

def nodesOfZero (target : Entity) (reference : String) : List Node :=
  (Step.run { target := ⟨target, true⟩ }
    (.filter .and ⟨reference, .compare .eq (.int 0)⟩)).1.nodes

theorem declaresNullable_score : scores.DeclaresNullable "Match" "score" :=
  ⟨scoredEntity "Match", ⟨"score", .int, true⟩, by rfl, by decide +kernel, rfl⟩

theorem run_filter_zero_score :
    nodesOfZero (scoredEntity "Match") "Match->score" =
        [.scalar ⟨.and, .eq, "Match.score"⟩ (.int 0)] ∧
      nodesOfZero userEntity "Match.score" = [] := by
  have hrun (t : Entity) := Step.run_filter_zero declaresNullable_score
    (by constructor <;> decide) (by constructor <;> decide) (s := { target := ⟨t, true⟩ }) rfl
  constructor
  · exact congrArg (·.1.nodes) ((hrun (scoredEntity "Match") true .and .eq).1 (.inl (by rfl)))
  · exact congrArg (·.1.nodes) ((hrun userEntity false .and .eq).2 (by decide +kernel))

/-- A zero on a property that may be absent is dropped where the target has no property of that
name, or one that is never absent, and where a blank, a point or an arrow in a name ends it early,
even on the named entity itself. -/
theorem not_keepsZero_scores :
    scores.DeclaresNullable "Match" "score" ∧
      [nodesOfZero userEntity "Match.score", nodesOfZero userEntity "Match->score",
        nodesOfZero playerEntity "Match.score", nodesOfZero playerEntity "Match->score",
        nodesOfZero (scoredEntity "Match") "Match.net score",
        nodesOfZero (scoredEntity "Match") "Match.net.score",
        nodesOfZero (scoredEntity "Match") "Match.net->score",
        nodesOfZero (scoredEntity "Home Match") "Home Match.score"] =
      [[], [], [], [], [], [], [], []] :=
  ⟨declaresNullable_score, by rfl⟩

end FilterSql
