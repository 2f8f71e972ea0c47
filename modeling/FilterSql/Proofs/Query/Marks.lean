import FilterSql.Proofs.Query.Clauses
import FilterSql.Proofs.Query.Names
import FilterSql.Proofs.Query.Template
/-!
# Marks of statements

Apart from its placeholders a statement has quotes and other marks only in the literals of lists,
and these are well quoted. So a statement is well quoted with one placeholder for every value that
is bound, before and after its select list is filled in and its names are resolved.
-/
namespace FilterSql

open Sql Text Node

/-- A property of a text and a number of placeholders in it that is kept when texts are joined, and
that texts without the characters of `p` and the lists of values have. -/
structure IsTally (p : Char → Bool) (P : Nat → List Char → Prop) : Prop where
  isMark : ∀ c, p c = true → isMark c = true
  of_lacks : ∀ {s}, Lacks p s → P 0 s
  append : ∀ {m n s t}, P m s → P n t → P (m + n) (s ++ t)
  placeholder : P 1 "?".toList
  list : ∀ {vs}, Value.IsUniform vs → P 0 (listLiterals vs ++ ")").toList

theorem isTally_wellQuoted : IsTally isMark WellQuoted where
  isMark _ h := h
  of_lacks := .of_lacks
  append := .append
  placeholder := ⟨.of_lacks (by decide), by decide⟩
  list h := by
    rw [String.toList_append]
    exact (Value.wellQuoted_listLiterals h).append (.of_lacks (by decide))

theorem isTally_balanced : IsTally isQuote fun _ => Balanced where
  isMark _ := isMark_of_isQuote
  of_lacks := .of_lacks
  append := .append
  placeholder := .of_lacks (by decide)
  list h := (isTally_wellQuoted.list h).toBalanced

namespace IsTally

variable {p : Char → Bool} {P : Nat → List Char → Prop}

theorem word (hP : IsTally p P) {s : String} (h : Lacks Sql.isMark s.toList) : P 0 s.toList :=
  hP.of_lacks (h.mono hP.isMark)

theorem compositional (hP : IsTally p P) : Compositional fun n s _ => P n s.toList := by
  have hrange : P (1 + (0 + 1)) ("?".toList ++ (" AND ".toList ++ "?".toList)) :=
    hP.append hP.placeholder (hP.append (hP.word (by decide)) hP.placeholder)
  refine ⟨hP.word (by decide), fun hs ht => ?_, hP.word (by decide), hP.word (by decide),
    fun c => ?_, fun q => ?_, hP.placeholder, hrange⟩
  · rw [String.toList_append]
    exact hP.append hs ht
  · cases c <;> exact hP.word (by decide)
  · cases q <;> exact hP.word (by decide)

theorem key (hP : IsTally p P) {k : String} (h : Lacks p k.toList) : P 0 (k ++ " ").toList := by
  rw [String.toList_append]
  exact hP.append (hP.of_lacks h) (hP.word (s := " ") (by decide))

theorem leaf (hP : IsTally p P) {n : Node} (hleaf : n.children? = none)
    (hkey : Lacks p n.key.toList) (hlist : ∀ l vs, n = .list l vs → Value.IsUniform vs) :
    P n.binds.length n.sql.toList :=
  hP.compositional.leaf hleaf (k := n.key) (hP.key hkey) fun l vs h => hP.list (hlist l vs h)

end IsTally

/-- Characters replaced inside of quotes leave what is outside. -/
theorem outside_of_replaced {tail new s t : List Char} (htail : '\'' ∉ tail) (hnew : '\'' ∉ new)
    (h : Replaced ('$' :: tail) new s t) {q : Bool} (hd : '$' ∉ outside q s) :
    inside q t = inside q s ∧ outside q t = outside q s := by
  induction h generalizing q with
  | nil => exact ⟨rfl, rfl⟩
  | @keep c s t _ ih =>
    rw [outside] at hd
    rw [inside, inside, outside, outside]
    by_cases hc : c = '\''
    · rw [if_pos hc] at hd
      rw [if_pos hc, if_pos hc, if_pos hc]
      exact ih hd
    · rw [if_neg hc] at hd
      rw [if_neg hc, if_neg hc, if_neg hc]
      cases q with
      | false =>
        rw [if_neg (by simp), List.mem_cons, not_or] at hd
        obtain ⟨hi, ho⟩ := ih hd.2
        exact ⟨hi, congrArg (c :: ·) ho⟩
      | true => exact ih hd
  | @swap s t _ ih =>
    have hold : '\'' ∉ '$' :: tail := by simpa using htail
    have hout := outside_true_of_not_mem hold
    cases q with
    -- an occurrence starts with a dollar sign, which does not stand outside
    | false => exact absurd (by simp [outside]) hd
    | true =>
      rw [outside_append, inside_of_not_mem hold, hout, List.nil_append] at hd
      rw [inside_append, inside_append, outside_append, outside_append, inside_of_not_mem hold,
        inside_of_not_mem hnew, hout, outside_true_of_not_mem hnew]
      exact ih hd

theorem wellQuoted_replace_projectionTag {n : Nat} {s new : List Char} (h : WellQuoted n s)
    (hnew : '\'' ∉ new) : WellQuoted n (replace projectionTag.toList new s) := by
  have hreplaced : Replaced ('$' :: projectionTag.toList.tail) new s
      (replace projectionTag.toList new s) := replaced_replace (by decide) s
  obtain ⟨hi, ho⟩ := outside_of_replaced (by decide) hnew hreplaced (q := false) h.noDollar
  exact ⟨⟨hi.trans h.paired, by rw [ho]; exact h.noDollar⟩, by rw [ho]; exact h.count⟩

namespace Criteria

/-- None of the names that a criteria mentions has one of the characters that satisfy `p`. -/
structure Unmarked (p : Char → Bool) (c : Criteria) : Prop where
  keys : ∀ m ∈ subnodesList c.nodes, Lacks p m.key.toList
  orderBy : ∀ o, c.orderBy = some o → Lacks p o.property.toList
  source : ∀ s, c.source = some s → Lacks p s.toList
  projections : ∀ s ∈ c.projectionList, Lacks p s.toList
  table : Lacks p c.entity.table.toList

/-- In every list all values are numbers, or the first one is none. -/
def HasUniformLists (c : Criteria) : Prop :=
  ∀ l vs, Node.list l vs ∈ subnodesList c.nodes → Value.IsUniform vs

variable {c : Criteria} {p : Char → Bool}

theorem Unmarked.selectList (h : c.Unmarked p) (hp : ∀ c, p c = true → isMark c = true) :
    Lacks p c.selectList.toList :=
  lacks_selectList hp h.projections

theorem Unmarked.fromClause (h : c.Unmarked p) (hp : ∀ c, p c = true → isMark c = true) :
    Lacks p c.fromClause.toList := by
  rw [Criteria.fromClause, String.toList_append]
  refine Lacks.append (Lacks.mono hp (by decide)) ?_
  cases hs : c.source with
  | none => exact h.table
  | some s => exact h.source s hs

theorem Unmarked.orderClause (h : c.Unmarked p) (hp : ∀ c, p c = true → isMark c = true) :
    Lacks p c.orderClause.toList := by
  rw [Criteria.orderClause]
  cases ho : c.orderBy with
  | none => exact List.forall_mem_nil _
  | some o =>
    have hdirection : Lacks p o.direction.sql.toList := by
      refine Lacks.mono hp ?_
      cases o.direction <;> decide
    simp only [String.toList_append]
    exact (((Lacks.mono hp (by decide)).append (h.orderBy o ho)).append
      (Lacks.mono hp (by decide))).append hdirection

theorem tally_whereClause {P : Nat → List Char → Prop} (hP : IsTally p P) (hc : c.Unmarked p)
    (hl : c.HasUniformLists) :
    P (bindsList (conditions c.nodes)).length (whereClause c.nodes).toList :=
  hP.compositional.whereClause_rename (g := id) (hP.word (by decide))
    (fun m hm _ => hP.key (hc.keys m (mem_subnodesList_of_conditions hm)))
    fun l vs hm => hP.list (hl l vs (mem_subnodesList_of_conditions hm))

/-- What all three statements have in common has a placeholder for every bound value. -/
theorem tally_tail {P : Nat → List Char → Prop} (hP : IsTally p P) (hc : c.Unmarked p)
    (hl : c.HasUniformLists) : P (bindsList (conditions c.nodes)).length c.tail.toList := by
  have hfrom := hP.of_lacks (hc.fromClause hP.isMark)
  have horder := hP.of_lacks (hc.orderClause hP.isMark)
  have h := hP.append (hP.append hfrom (tally_whereClause hP hc hl)) horder
  rw [Nat.zero_add, Nat.add_zero] at h
  rwa [tail, String.toList_append, String.toList_append]

theorem wellQuoted_fillTemplate {n : Nat} (h : WellQuoted n c.tail.toList) {selectList : String}
    (hs : Lacks isMark selectList.toList) :
    WellQuoted n (fillTemplate c.template selectList).toList := by
  have hquote : '\'' ∉ selectList.toList := fun hq => absurd (hs _ hq) (by decide)
  have hselect : WellQuoted 0 "SELECT ".toList := .of_lacks (by decide)
  have hfilled := hselect.append
    ((WellQuoted.of_lacks hs).append (wellQuoted_replace_projectionTag h hquote))
  rw [Nat.zero_add, Nat.zero_add] at hfilled
  rwa [toList_fillTemplate]

variable {f : String → Option String}

theorem wellQuoted_resolve {n : Nat} {s : String} (hf : Yields (Lacks isMark) f)
    (h : WellQuoted n s.toList) : WellQuoted n (resolve f s).toList := by
  rw [toList_resolve]
  exact h.congr (filter_resolveFrom hf (fun _ h => h) _)

theorem lacks_replaced_select (hf : Yields (Lacks p) f)
    (hp : ∀ c, p c = true → isMark c = true) : Lacks p (replaced f "SELECT".toList) :=
  hf.replaced (fun _ => (isPathLike_lacks hp).path) (.name (by decide))

theorem tokens_resolve_template (hf : Yields (Lacks isQuote) f) (s : String) :
    tokens (resolve f ("SELECT " ++ projectionTag ++ s)).toList =
      tokens (replaced f "SELECT".toList ++ [' ']) ++
        ⟨.tag, projectionTag.toList⟩ :: tokens (resolveFrom f false s.toList) := by
  have hselect : Balanced (replaced f "SELECT".toList ++ [' ']) :=
    (Balanced.of_lacks (lacks_replaced_select hf fun _ => isMark_of_isQuote)).append
      (.of_lacks (by decide))
  rw [resolve_template, ← tokens_projectionTag]
  have h := tokens_append_of_isComplete hselect.unquoted.1
    (r := projectionTag.toList ++ resolveFrom f false s.toList) (startsMark_dollar _) nofun
  rwa [List.append_assoc] at h

end Criteria
end FilterSql
