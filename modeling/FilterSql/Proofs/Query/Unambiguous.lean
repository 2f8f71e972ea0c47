import FilterSql.Proofs.Criteria.WellFormed
import FilterSql.Proofs.Value.Literal
import Mathlib.Data.List.Forall2
/-!
# Reading a WHERE clause back

A node's text says where it ends: the key ends at its first blank, the predicate in front of the
first placeholder or parenthesis and so tells the form of the values, and a list ends at the first
closing parenthesis outside of quotes. So the text of a clause determines the forest of nodes but
for the bound values and the conjunction of each first sibling.
-/
namespace FilterSql

open Sql Node

/-- There is one place to cut a text at its first character of a kind. -/
theorem Sql.cut_unique {p : Char → Bool} {s t r u : List Char} {c d : Char} (hs : Lacks p s)
    (ht : Lacks p t) (hc : p c = true) (hd : p d = true) (h : s ++ c :: r = t ++ d :: u) :
    s = t ∧ c = d ∧ r = u := by
  induction s generalizing t with
  | nil =>
    cases t with
    | nil => exact ⟨rfl, List.cons.inj h⟩
    | cons e t =>
      obtain ⟨rfl, -⟩ := List.cons.inj h
      rw [ht c List.mem_cons_self] at hc
      cases hc
  | cons e s ih =>
    cases t with
    | nil =>
      obtain ⟨rfl, -⟩ := List.cons.inj h
      rw [hs e List.mem_cons_self] at hd
      cases hd
    | cons f t =>
      obtain ⟨rfl, htail⟩ := List.cons.inj h
      obtain ⟨rfl, hrest⟩ := ih (fun x hx => hs x (List.mem_cons_of_mem _ hx))
        (fun x hx => ht x (List.mem_cons_of_mem _ hx)) htail
      exact ⟨rfl, hrest⟩

structure Sql.Enclosed (s : List Char) : Prop where
  paired : inside false s = false
  unclosed : ')' ∉ outside false s

theorem Sql.Enclosed.append {s t : List Char} (hs : Enclosed s) (ht : Enclosed t) :
    Enclosed (s ++ t) := by
  constructor
  · rw [inside_append, hs.paired, ht.paired]
  · rw [outside_append, hs.paired, List.mem_append, not_or]
    exact ⟨hs.unclosed, ht.unclosed⟩

theorem Sql.Enclosed.of_not_mem {s : List Char} (hq : '\'' ∉ s) (hp : ')' ∉ s) : Enclosed s :=
  ⟨inside_of_not_mem hq false, by rwa [outside_of_not_mem hq]⟩

theorem Sql.not_mem_outside_tail {c d : Char} {q : Bool} {s : List Char}
    (h : d ∉ outside q (c :: s)) : d ∉ outside (if c = '\'' then !q else q) s := by
  intro hmem
  apply h
  rw [outside]
  by_cases hc : c = '\''
  · rwa [if_pos hc] at hmem ⊢
  · rw [if_neg hc] at hmem ⊢
    cases q with
    | false => exact List.mem_cons_of_mem c hmem
    | true => exact hmem

theorem Sql.outside_cut_unique {q : Bool} {s t r u : List Char} (hs : inside q s = false)
    (hs' : ')' ∉ outside q s) (ht : inside q t = false) (ht' : ')' ∉ outside q t)
    (h : s ++ ')' :: r = t ++ ')' :: u) : s = t ∧ r = u := by
  induction s generalizing t q with
  | nil =>
    obtain rfl : q = false := hs
    cases t with
    | nil => exact ⟨rfl, (List.cons.inj h).2⟩
    | cons e t =>
      obtain ⟨rfl, -⟩ := List.cons.inj h
      exact absurd (by simp [outside]) ht'
  | cons e s ih =>
    cases t with
    | nil =>
      obtain ⟨rfl, -⟩ := List.cons.inj h
      obtain rfl : q = false := ht
      exact absurd (by simp [outside]) hs'
    | cons f t =>
      obtain ⟨rfl, htail⟩ := List.cons.inj h
      obtain ⟨rfl, hrest⟩ :=
        ih hs (not_mem_outside_tail hs') ht (not_mem_outside_tail ht') htail
      exact ⟨rfl, hrest⟩

/-- There is one place to cut a text at the first parenthesis closed outside of quotes. -/
theorem Sql.Enclosed.cut_unique {s t r u : List Char} (hs : Enclosed s) (ht : Enclosed t)
    (h : s ++ ')' :: r = t ++ ')' :: u) : s = t ∧ r = u :=
  outside_cut_unique hs.paired hs.unclosed ht.paired ht.unclosed h

theorem enclosed_listLiterals {vs : List Value} (h : Value.IsLexical vs) :
    Enclosed (listLiterals vs).toList := by
  rw [Value.toList_listLiterals]
  refine Value.intercalate_closed (.of_not_mem (by decide) (by decide))
    (.of_not_mem (by decide) (by decide)) (fun _ _ => Enclosed.append) fun s hs => ?_
  obtain ⟨v, hv, rfl⟩ := List.mem_map.1 hs
  cases hq : vs.head?.any Value.isNumeric with
  | false =>
    obtain ⟨hi, ho⟩ := Value.inside_outside_literal v
    exact ⟨hi, by rw [Bool.not_false, ho]; exact List.not_mem_nil⟩
  | true =>
    rcases h with h | h
    · obtain ⟨n, rfl⟩ := h v hv
      refine .of_not_mem (fun hmem => ?_) (fun hmem => ?_)
      · rcases Value.chars_display_int n _ hmem with hd | hd <;> exact absurd hd (by decide)
      · rcases Value.chars_display_int n _ hmem with hd | hd <;> exact absurd hd (by decide)
    · rw [hq] at h
      cases h

theorem Predicate.sql_injective {p q : Predicate} (h : p.sql = q.sql) : p = q := by
  have hfind (p : Predicate) : Predicate.all.find? (·.sql == p.sql) = some p := by cases p <;> rfl
  exact Option.some.inj ((hfind p).symm.trans (h ▸ hfind q))

theorem Conjunction.sql_injective {c d : Conjunction} (h : c.sql = d.sql) :
    c = d := by
  have hfind (c : Conjunction) : Conjunction.all.find? (·.sql == c.sql) = some c := by
    cases c <;> rfl
  exact Option.some.inj ((hfind c).symm.trans (h ▸ hfind d))

structure Label.Agrees (l m : Label) : Prop where
  key : l.key = m.key
  predicate : l.predicate = m.predicate

namespace Node

/-- Nodes that differ in their own conjunctions, in those of first siblings inside them and in bound
values at most. -/
inductive Matches : Node → Node → Prop
  | scalar {l m : Label} (h : l.Agrees m) (v w : Value) : Matches (scalar l v) (scalar m w)
  | range {l m : Label} (h : l.Agrees m) (a b a' b' : Value) : Matches (range l a b) (range m a' b')
  | list {l m : Label} {vs ws : List Value} (h : l.Agrees m)
    (literals : listLiterals vs = listLiterals ws) : Matches (list l vs) (list m ws)
  | group {l m : Label} {ns ms : List Node} (h : l.Agrees m) (children : List.Forall₂ Matches ns ms)
    (conjunctions : ns.tail.map conjunction = ms.tail.map conjunction) :
    Matches (group l ns) (group m ms)

structure SiblingsMatch (ns ms : List Node) : Prop where
  nodes : List.Forall₂ Matches ns ms
  conjunctions : ns.tail.map conjunction = ms.tail.map conjunction

/-- A regular node whose keys are paths and whose lists are written without doubt. -/
structure Readable (n : Node) : Prop where
  regular : n.Regular
  keys : n.Keyed fun key => IsPath key.toList
  lists : ∀ l vs, list l vs ∈ n.subnodes → Value.IsLexical vs

theorem Readable.child {l : Label} {ns : List Node} (h : (group l ns).Readable) {n : Node}
    (hn : n ∈ ns) : n.Readable :=
  ⟨h.regular.child hn, fun m hm => h.keys m (mem_subnodes_group hn hm),
    fun k vs hm => h.lists k vs (mem_subnodes_group hn hm)⟩

def operand : Node → String
  | scalar .. => "?"
  | range .. => "? AND ?"
  | list _ vs => "(" ++ listLiterals vs ++ ")"
  | group .. | marker .. => ""

theorem sql_leaf {n : Node} (hleaf : n.children? = none) (h : n.Regular) :
    n.sql.toList =
      n.key.toList ++ ' ' :: (n.predicate.sql.toList ++ ' ' :: n.operand.toList) := by
  cases n with
  | group l ns => cases hleaf
  | marker l => exact h.self.fits.elim
  | scalar l v => simp [sql, operand, key, predicate, label]
  | range l a b => simp [sql, operand, key, predicate, label]
  | list l vs => simp [sql, operand, key, predicate, label]

def startsOperand (c : Char) : Bool := c == '?' || c == '('

theorem operand_cons {n : Node} (hleaf : n.children? = none) (h : n.Regular) :
    ∃ c s, n.operand.toList = c :: s ∧ startsOperand c = true := by
  cases n with
  | group l ns => cases hleaf
  | marker l => exact h.self.fits.elim
  | scalar l v => exact ⟨'?', [], by simp [operand], rfl⟩
  | range l a b => exact ⟨'?', " AND ?".toList, by simp [operand], rfl⟩
  | list l vs => exact ⟨'(', (listLiterals vs ++ ")").toList, by simp [operand], rfl⟩

/-- Equal texts of leaves are cut behind the key and behind the predicate. -/
theorem leaf_cut {n m : Node} (hn : n.Readable) (hm : m.Readable) (hnl : n.children? = none)
    (hml : m.children? = none) {r s : List Char} (h : n.sql.toList ++ r = m.sql.toList ++ s) :
    n.label.Agrees m.label ∧ n.operand.toList ++ r = m.operand.toList ++ s := by
  have hkey {k : Node} (hk : k.Readable) (hkl : k.children? = none) :
      Lacks (· == ' ') k.key.toList := by
    intro c hc
    rcases (hk.keys k (mem_subnodes_self k) hkl).chars hc with hc | rfl
    · exact beq_eq_false_iff_ne.2 (ne_of_true_of_false hc (by decide))
    · rfl
  have hword (p : Predicate) : Lacks startsOperand (p.sql.toList ++ [' ']) := by
    cases p <;> decide
  obtain ⟨c, o, ho, hc⟩ := operand_cons hnl hn.regular
  obtain ⟨d, u, hu, hd⟩ := operand_cons hml hm.regular
  rw [sql_leaf hnl hn.regular, sql_leaf hml hm.regular] at h
  simp only [List.append_assoc, List.cons_append] at h
  obtain ⟨hk, -, h⟩ := cut_unique (hkey hn hnl) (hkey hm hml) rfl rfl h
  have hsplit (p : Predicate) (t : List Char) :
      p.sql.toList ++ ' ' :: t = p.sql.toList ++ [' '] ++ t := by simp
  rw [hsplit n.predicate, hsplit m.predicate, ho, hu, List.cons_append, List.cons_append] at h
  obtain ⟨hp, hcd, hou⟩ := cut_unique (hword _) (hword _) hc hd h
  refine ⟨⟨String.toList_inj.1 hk, ?_⟩, ?_⟩
  · exact Predicate.sql_injective (String.toList_inj.1 (List.append_cancel_right hp))
  · rw [ho, hu, hcd, List.cons_append, List.cons_append, hou]

inductive Form where
  | one
  | two
  | many
  | nodes
  | nothing

def form : Node → Form
  | scalar .. => .one
  | range .. => .two
  | list .. => .many
  | group .. => .nodes
  | marker .. => .nothing

def predicateForm (p : Predicate) : Form :=
  if p.isBinary then .one
  else if p = .between then .two
  else if p = .group then .nodes
  else .many

theorem Fits.form {n : Node} (h : n.Fits) : n.form = predicateForm n.predicate := by
  cases n with
  | scalar l v => exact (if_pos h.1).symm
  | range l a b => exact (congrArg predicateForm h.1).symm
  | list l vs => rcases h.1 with hp | hp <;> exact (congrArg predicateForm hp).symm
  | group l ns => exact (congrArg predicateForm h.1).symm
  | marker l => exact h.elim

/-- The predicate tells the form of the values, so leaves that agree match. -/
theorem matches_of_operand {n m : Node} (hn : n.Readable) (hm : m.Readable)
    (hnl : n.children? = none) (ha : n.label.Agrees m.label)
    {r s : List Char} (h : n.operand.toList ++ r = m.operand.toList ++ s) :
    Matches n m ∧ r = s := by
  have hform : n.form = m.form := by
    rw [hn.regular.self.fits.form, hm.regular.self.fits.form]
    exact congrArg predicateForm ha.predicate
  cases n with
  | group l ns => cases hnl
  | marker l => exact hn.regular.self.fits.elim
  | scalar l v => cases m with
    | scalar k w => exact ⟨.scalar ha v w, List.append_cancel_left h⟩
    | range | list | group | marker => cases hform
  | range l a b => cases m with
    | range k a' b' => exact ⟨.range ha a b a' b', List.append_cancel_left h⟩
    | scalar | list | group | marker => cases hform
  | list l vs => cases m with
    | list k ws =>
      have hvs := enclosed_listLiterals (hn.lists l vs (mem_subnodes_self _))
      have hws := enclosed_listLiterals (hm.lists k ws (mem_subnodes_self _))
      simp only [operand, String.toList_append, List.append_assoc] at h
      obtain ⟨hlit, hrest⟩ := hvs.cut_unique hws (List.append_cancel_left h)
      exact ⟨.list ha (String.toList_inj.1 hlit), hrest⟩
    | scalar | range | group | marker => cases hform

theorem sql_leaf_cons {n : Node} (hleaf : n.children? = none) (h : n.Readable) :
    ∃ c s, n.sql.toList = c :: s ∧ isNameStart c = true := by
  have hpath : IsPath n.key.toList := h.keys n (mem_subnodes_self n) hleaf
  obtain ⟨c, s, hk, hc, -⟩ := pathTail_path hpath []
  exact ⟨c, _, by rw [sql_leaf hleaf h.regular, hk, List.cons_append], hc⟩

def followers (ns : List Node) : String :=
  String.join (ns.map fun n => " " ++ n.conjunction.sql ++ " " ++ n.sql)

theorem toList_followers_cons (n : Node) (ns : List Node) :
    (followers (n :: ns)).toList =
      ' ' :: (n.conjunction.sql.toList ++ ' ' :: (n.sql.toList ++ (followers ns).toList)) := by
  simp [followers, String.join_cons]

theorem joinClauses_cons {n : Node} {ns : List Node} (h : ∀ k ∈ n :: ns, k.Regular) :
    joinClauses (clauses (n :: ns)) = n.sql ++ followers ns := by
  rw [clauses_eq, List.filter_eq_self.2 fun k hk => (h k hk).renders, List.map_cons, joinClauses,
    List.map_map]
  rfl

/-- Whatever follows, the text of the node tells the node and where it ends. -/
def Cuts (n : Node) : Prop :=
  ∀ m r s, m.Readable → n.sql.toList ++ r = m.sql.toList ++ s → Matches n m ∧ r = s

theorem followers_cut {ns ms : List Node} (hcut : ∀ n ∈ ns, n.Cuts) (hns : ∀ n ∈ ns, n.Readable)
    (hms : ∀ m ∈ ms, m.Readable) {r s : List Char} (hr : r.head? ≠ some ' ')
    (hs : s.head? ≠ some ' ') (h : (followers ns).toList ++ r = (followers ms).toList ++ s) :
    List.Forall₂ Matches ns ms ∧ ns.map conjunction = ms.map conjunction ∧ r = s := by
  induction ns generalizing ms with
  | nil =>
    cases ms with
    | nil => exact ⟨.nil, rfl, h⟩
    | cons m ms =>
      change r = _ at h
      rw [toList_followers_cons] at h
      exact absurd (by rw [h]; rfl) hr
  | cons n ns ih =>
    cases ms with
    | nil =>
      change _ = s at h
      rw [toList_followers_cons] at h
      exact absurd (by rw [← h]; rfl) hs
    | cons m ms =>
      rw [List.forall_mem_cons] at hcut hns hms
      have hconjunction {k : Node} (hk : k.Readable) :
          Lacks (· == ' ') k.conjunction.sql.toList := by
        rcases hk.regular.self.joined with hj | hj <;> rw [hj] <;> decide
      rw [toList_followers_cons, toList_followers_cons] at h
      simp only [List.cons_append, List.append_assoc] at h
      obtain ⟨hc, -, h⟩ := cut_unique (hconjunction hns.1) (hconjunction hms.1) rfl rfl
        (List.cons.inj h).2
      obtain ⟨hmatch, h⟩ := hcut.1 m _ _ hms.1 h
      obtain ⟨hrest, hconj, hrs⟩ := ih hcut.2 hns.2 hms.2 h
      refine ⟨.cons hmatch hrest, ?_, hrs⟩
      rw [List.map_cons, List.map_cons, hconj, Conjunction.sql_injective (String.toList_inj.1 hc)]

theorem siblings_cut {ns ms : List Node} (hcut : ∀ n ∈ ns, n.Cuts) (hns : ∀ n ∈ ns, n.Readable)
    (hms : ∀ m ∈ ms, m.Readable) (hn : ns ≠ []) (hm : ms ≠ []) {r s : List Char}
    (hr : r.head? ≠ some ' ') (hs : s.head? ≠ some ' ')
    (h : (joinClauses (clauses ns)).toList ++ r = (joinClauses (clauses ms)).toList ++ s) :
    SiblingsMatch ns ms ∧ r = s := by
  obtain ⟨n, ns, rfl⟩ := List.exists_cons_of_ne_nil hn
  obtain ⟨m, ms, rfl⟩ := List.exists_cons_of_ne_nil hm
  rw [joinClauses_cons fun k hk => (hns k hk).regular,
    joinClauses_cons fun k hk => (hms k hk).regular, String.toList_append, String.toList_append,
    List.append_assoc, List.append_assoc] at h
  rw [List.forall_mem_cons] at hcut hns hms
  obtain ⟨hmatch, h⟩ := hcut.1 m _ _ hms.1 h
  obtain ⟨hrest, hconj, hrs⟩ := followers_cut hcut.2 hns.2 hms.2 hr hs h
  exact ⟨⟨.cons hmatch hrest, hconj⟩, hrs⟩

/-- A parenthesis is no name, so a group is no leaf; inside the parentheses the siblings are cut one
by one. -/
theorem Readable.cuts {n : Node} (hn : n.Readable) : n.Cuts := by
  have hopen (l : Label) (ns : List Node) (r : List Char) :
      (group l ns).sql.toList ++ r = '(' :: ((joinClauses (clauses ns)).toList ++ ')' :: r) := by
    simp [sql]
  have hleaf {n : Node} (hn : n.Readable) (hnl : n.children? = none) : n.Cuts := by
    intro m r s hm h
    cases hml : m.children? with
    | none =>
      obtain ⟨ha, ho⟩ := leaf_cut hn hm hnl hml h
      exact matches_of_operand hn hm hnl ha ho
    | some ms =>
      obtain ⟨c, t, ht, hc⟩ := sql_leaf_cons hnl hn
      obtain ⟨l, rfl⟩ : ∃ l, m = group l ms := by cases m <;> simp_all [children?]
      rw [ht, hopen, List.cons_append] at h
      obtain ⟨rfl, -⟩ := List.cons.inj h
      cases hc
  induction n using inductionOn with
  | group l ns ih =>
    intro m r s hm h
    cases hml : m.children? with
    | none =>
      obtain ⟨c, t, ht, hc⟩ := sql_leaf_cons hml hm
      rw [ht, hopen, List.cons_append] at h
      obtain ⟨rfl, -⟩ := List.cons.inj h
      cases hc
    | some ms =>
      obtain ⟨k, rfl⟩ : ∃ k, m = group k ms := by cases m <;> simp_all [children?]
      obtain ⟨hp, hk, hne⟩ := hn.regular.self.fits
      obtain ⟨hq, hj, hme⟩ := hm.regular.self.fits
      rw [hopen, hopen] at h
      obtain ⟨hmatch, hrest⟩ := siblings_cut (fun n hmem => ih n hmem (hn.child hmem))
        (fun n => hn.child) (fun m => hm.child) hne hme (by simp) (by simp) (List.cons.inj h).2
      exact ⟨.group ⟨hk.trans hj.symm, hp.trans hq.symm⟩ hmatch.nodes hmatch.conjunctions,
        (List.cons.inj hrest).2⟩
  | scalar | range | list | marker => exact hleaf hn rfl

theorem SiblingsMatch.joinClauses {ns ms : List Node} (h : SiblingsMatch ns ms)
    (hns : ∀ n ∈ ns, n.Regular) (hms : ∀ m ∈ ms, m.Regular)
    (hsql : ∀ n ∈ ns, ∀ m ∈ ms, Matches n m → n.sql = m.sql) :
    joinClauses (clauses ns) = joinClauses (clauses ms) := by
  have hfollowers {ns ms : List Node} (hmatch : List.Forall₂ Matches ns ms)
      (hconj : ns.map conjunction = ms.map conjunction)
      (hsql : ∀ n ∈ ns, ∀ m ∈ ms, Matches n m → n.sql = m.sql) : followers ns = followers ms := by
    induction hmatch with
    | nil => rfl
    | @cons n m ns ms hnm _ ih =>
      rw [List.forall_mem_cons] at hsql
      obtain ⟨hc, hconj⟩ := List.cons.inj hconj
      apply String.toList_inj.1
      rw [toList_followers_cons, toList_followers_cons, hc, hsql.1 m List.mem_cons_self hnm,
        ih hconj fun n hn m hm => hsql.2 n hn m (List.mem_cons_of_mem _ hm)]
  obtain ⟨hnodes, hconj⟩ := h
  cases hnodes with
  | nil => rfl
  | @cons n m ns ms hnm hrest =>
    rw [List.forall_mem_cons] at hsql
    rw [joinClauses_cons hns, joinClauses_cons hms, hsql.1 m List.mem_cons_self hnm,
      hfollowers hrest hconj fun n hn m hm => hsql.2 n hn m (List.mem_cons_of_mem _ hm)]

theorem Matches.sql_eq {n m : Node} (h : Matches n m) (hn : n.Regular) (hm : m.Regular) :
    n.sql = m.sql := by
  induction n using inductionOn generalizing m with
  | scalar l v =>
    cases h with
    | scalar ha v w => rw [sql, sql, ha.key, ha.predicate]
  | range l a b =>
    cases h with
    | range ha a b => rw [sql, sql, ha.key, ha.predicate]
  | list l vs =>
    cases h with
    | list ha hlit => rw [sql, sql, ha.key, ha.predicate, hlit]
  | group l ns ih =>
    cases h with
    | group ha hchildren hconj =>
      have hchild (n : Node) (hmem : n ∈ ns) (m : Node) (hmem' : m ∈ _) (hnm : Matches n m) :
          n.sql = m.sql := ih n hmem hnm (hn.child hmem) (hm.child hmem')
      rw [sql, sql, SiblingsMatch.joinClauses ⟨hchildren, hconj⟩ (fun n => hn.child)
        (fun m => hm.child) hchild]
  | marker l => exact hn.self.fits.elim

end Node

namespace Criteria

def IsBuilt (c : Criteria) : Prop :=
  ∃ c₀ os, IsFresh c₀ ∧ (∀ o ∈ os, o.isFluent = true) ∧ c = (c₀.runAll os).1

theorem IsBuilt.wellFormed {c : Criteria} (h : c.IsBuilt) : c.WellFormed := by
  obtain ⟨c₀, os, h₀, hos, rfl⟩ := h
  exact h₀.wellFormed.runAll hos

/-- The keys of all conditions are paths, and all lists are written without doubt. -/
structure IsReadable (c : Criteria) : Prop where
  keys : ∀ n ∈ conditions c.nodes, n.Keyed fun key => IsPath key.toList
  lists : ∀ l vs, list l vs ∈ subnodesList (conditions c.nodes) → Value.IsLexical vs

variable {c d : Criteria}

theorem WellFormed.readable (h : c.WellFormed) (hc : c.IsReadable) :
    ∀ n ∈ Node.conditions c.nodes, n.Readable := fun n hn =>
  ⟨h.conditions n hn, hc.keys n hn, fun l vs hvs => hc.lists l vs (mem_subnodesList hn hvs)⟩

theorem WellFormed.whereClause {ns : List Node} (h : c.WellFormed)
    (hns : ns = Node.conditions c.nodes) :
    whereClause c.nodes = if ns = [] then "" else " WHERE " ++ joinClauses (clauses ns) := by
  have hempty : (clauses ns).isEmpty = true ↔ ns = [] := by
    rw [clauses_eq, List.filter_eq_self.2 fun n hn => (h.conditions n (hns ▸ hn)).renders,
      List.isEmpty_iff, List.map_eq_nil_iff]
  rw [Node.whereClause, ← hns]
  exact if_congr hempty rfl rfl

/-- Criteria that runs ended in have one WHERE clause exactly if their conditions match: same
nesting, keys, predicates and forms of values, same literals in every list, and same conjunctions
but for the first of each siblings. -/
theorem whereClause_eq_iff (hc : c.IsBuilt) (hd : d.IsBuilt) (hcr : c.IsReadable)
    (hdr : d.IsReadable) :
    whereClause c.nodes = whereClause d.nodes ↔
      SiblingsMatch (conditions c.nodes) (conditions d.nodes) := by
  have hread := hc.wellFormed.readable hcr
  have hread' := hd.wellFormed.readable hdr
  rw [hc.wellFormed.whereClause rfl, hd.wellFormed.whereClause rfl]
  constructor
  · intro h
    by_cases hn : conditions c.nodes = []
    · by_cases hm : conditions d.nodes = []
      · rw [hn, hm]
        exact ⟨.nil, rfl⟩
      · rw [if_pos hn, if_neg hm] at h
        exact absurd (congrArg String.toList h) (by simp)
    · by_cases hm : conditions d.nodes = []
      · rw [if_neg hn, if_pos hm] at h
        exact absurd (congrArg String.toList h) (by simp)
      · rw [if_neg hn, if_neg hm] at h
        have htext := List.append_cancel_left
          ((String.toList_append ..).symm.trans ((congrArg _ h).trans (String.toList_append ..)))
        exact (siblings_cut (fun n hn => (hread n hn).cuts) hread hread' hn hm (r := []) (s := [])
          nofun nofun (congrArg (· ++ []) htext)).1
  · intro h
    have hempty : conditions c.nodes = [] ↔ conditions d.nodes = [] := by
      rw [← List.length_eq_zero_iff, h.nodes.length_eq, List.length_eq_zero_iff]
    exact if_congr hempty rfl (congrArg (" WHERE " ++ ·) (h.joinClauses
      (fun n hn => (hread n hn).regular) (fun m hm => (hread' m hm).regular)
      fun n hn m hm hnm => hnm.sql_eq (hread n hn).regular (hread' m hm).regular))

end Criteria

/-- Runs that differ in first conjunctions and in bound values only, with a list that spells a
clause. -/
def rangeRun (c : Connective) (low : Int64) : List Operation :=
  [.step (.filter c ⟨"id", .between (.int low) (.int 9)⟩),
    .step (.group .or [.filter c ⟨"name", .among true [.text "a) OR (b", .text "it's"]⟩,
      .group .and [.filter c ⟨"id", .compare .lt (.int low)⟩]])]

def rangeNodes (c : Connective) (low : Int64) : List Node :=
  [.range ⟨c.toConjunction, .between, "id"⟩ (.int low) (.int 9),
    .group ⟨.or, .group, ""⟩
      [.list ⟨c.toConjunction, .notAmong, "name"⟩ [.text "a) OR (b", .text "it's"],
        .group ⟨.and, .group, ""⟩ [.scalar ⟨c.toConjunction, .lt, "id"⟩ (.int low)]]]

theorem isReadable_rangeNodes (c : Connective) (low : Int64) {d : Criteria}
    (h : d.nodes = rangeNodes c low) : d.IsReadable := by
  have hconditions : conditions d.nodes = rangeNodes c low := by
    rw [h]
    cases c <;> rfl
  have hid : IsPath "id".toList := .name (by decide)
  have hname : IsPath "name".toList := .name (by decide)
  constructor <;> rw [hconditions]
  · intro n hn m hm hleaf
    have hmem := mem_subnodesList hn hm
    simp only [rangeNodes, subnodesList, subnodes, List.cons_append, List.nil_append,
      List.mem_cons, List.not_mem_nil, or_false] at hmem
    rcases hmem with rfl | rfl | rfl | rfl | rfl
    · exact hid
    · cases hleaf
    · exact hname
    · cases hleaf
    · exact hid
  · intro l vs hvs
    obtain ⟨-, rfl⟩ : l = ⟨c.toConjunction, .notAmong, "name"⟩ ∧
        vs = [.text "a) OR (b", .text "it's"] := by
      simpa [rangeNodes, subnodesList, subnodes] using hvs
    exact Or.inr rfl

theorem whereClause_rangeRun :
    whereClause (rangeNodes .and 1) = whereClause (rangeNodes .or 5) ∧
      SiblingsMatch (rangeNodes .and 1) (rangeNodes .or 5) := by
  have htext : whereClause ((Criteria.plain userEntity).runAll (rangeRun .and 1)).1.nodes =
    whereClause ((Criteria.plain userEntity).runAll (rangeRun .or 5)).1.nodes := rfl
  refine ⟨htext, (Criteria.whereClause_eq_iff ?_ ?_ ?_ ?_).1 htext⟩
  · exact ⟨_, _, Criteria.isFresh_plain userEntity, by decide, rfl⟩
  · exact ⟨_, _, Criteria.isFresh_plain userEntity, by decide, rfl⟩
  · exact isReadable_rangeNodes .and 1 rfl
  · exact isReadable_rangeNodes .or 5 rfl

end FilterSql
