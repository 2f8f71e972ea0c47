import FilterSql.Proofs.Query.Direct
import FilterSql.Proofs.Sql.Renaming
/-!
# Statements in pieces

A statement is written in the words of the compiler and in the texts between them: keys, signs,
lists, the table or the source. Words stand apart from the texts at characters that are in no path
and not in the tag, so neither a path nor the tag reaches from a text into a word.
-/
namespace FilterSql

open Sql Text

/-- A word that the compiler writes, or anything else. -/
inductive Piece where
  | word (w : String)
  | text (s : String)
  deriving DecidableEq, Repr

namespace Piece

def sql : Piece → String
  | word w => w
  | text s => s

/-- The select list filled in, wherever the tag stands in a text. -/
def fill (selectList : String) : Piece → Piece
  | word w => word w
  | text s => text (fillTemplate s selectList)

end Piece

def joined (ps : List Piece) : String := String.join (ps.map Piece.sql)

@[simp] theorem joined_nil : joined [] = "" := rfl

@[simp] theorem joined_cons (p : Piece) (ps : List Piece) :
    joined (p :: ps) = p.sql ++ joined ps := by
  rw [joined, List.map_cons, String.join_cons, joined]

@[simp] theorem joined_append (ps qs : List Piece) :
    joined (ps ++ qs) = joined ps ++ joined qs := by
  induction ps with
  | nil => rw [List.nil_append, joined_nil, String.empty_append]
  | cons p ps ih => rw [List.cons_append, joined_cons, joined_cons, ih, String.append_assoc]

namespace Predicate

def pieces : Predicate → List Piece
  | like => [.word "LIKE"]
  | between => [.word "BETWEEN"]
  | among => [.word "IN"]
  | notAmong => [.word "NOT", .text " ", .word "IN"]
  | p => [.text p.sql]

end Predicate

namespace Conjunction

def pieces : Conjunction → List Piece
  | and => [.word "AND"]
  | or => [.word "OR"]
  | groupBy => [.word "GROUP", .text " ", .word "BY"]
  | orderBy => [.word "ORDER", .text " ", .word "BY"]

end Conjunction

namespace Node

def joinPieces : List (Conjunction × List Piece) → List Piece
  | [] => []
  | c :: cs => c.2 ++ cs.flatMap fun d => .text " " :: (d.1.pieces ++ .text " " :: d.2)

mutual

def pieces : Node → List Piece
  | scalar l _ => .text (l.key ++ " ") :: (l.predicate.pieces ++ [.text " ?"])
  | range l _ _ =>
    .text (l.key ++ " ") :: (l.predicate.pieces ++ [.text " ? ", .word "AND", .text " ?"])
  | list l vs =>
    .text (l.key ++ " ") :: (l.predicate.pieces ++ [.text (" (" ++ listLiterals vs ++ ")")])
  | group _ ns => .text "(" :: (joinPieces (clausePieces ns) ++ [.text ")"])
  | marker _ => []

def clausePieces : List Node → List (Conjunction × List Piece)
  | [] => []
  | n :: ns => if n.renders then (n.conjunction, n.pieces) :: clausePieces ns else clausePieces ns

end

def wherePieces (ns : List Node) : List Piece :=
  let cs := clausePieces (conditions ns)
  if cs.isEmpty then [] else .text " " :: .word "WHERE" :: .text " " :: joinPieces cs

end Node

namespace Criteria

def orderPieces (c : Criteria) : List Piece :=
  match c.orderBy with
  | some o => [.text " ", .word "ORDER", .text " ", .word "BY", .text (" " ++ o.property ++ " "),
      .word o.direction.sql]
  | none => []

def tailPieces (c : Criteria) : List Piece :=
  [.text " ", .word "FROM", .text (" " ++ c.source.getD c.entity.table)] ++
    (Node.wherePieces c.nodes ++ c.orderPieces)

end Criteria

def statement (selected tail : List Piece) : List Piece :=
  .word "SELECT" :: .text " " :: (selected ++ tail)

def countPieces : List Piece := [.word "COUNT", .text "(*) ", .word "count"]

theorem Predicate.joined_pieces (p : Predicate) : joined p.pieces = p.sql := by
  cases p <;> rfl

theorem Conjunction.joined_pieces (c : Conjunction) : joined c.pieces = c.sql := by
  cases c <;> rfl

namespace Node

theorem joined_joinPieces (cs : List (Conjunction × List Piece)) :
    joined (joinPieces cs) = joinClauses (cs.map fun c => (c.1, joined c.2)) := by
  cases cs with
  | nil => rfl
  | cons c cs =>
    rw [joinPieces, List.map_cons, joinClauses, joined_append]
    congr 1
    induction cs with
    | nil => rfl
    | cons d cs ih =>
      rw [List.flatMap_cons, joined_append, ih, List.map_cons, List.map_cons, String.join_cons,
        joined_cons, joined_append, joined_cons, Conjunction.joined_pieces]
      simp only [Piece.sql, String.append_assoc]

theorem clausePieces_eq (ns : List Node) :
    clausePieces ns = (ns.filter renders).map fun n => (n.conjunction, n.pieces) :=
  eq_map_filter rfl (fun _ _ => rfl) ns

theorem map_clausePieces {ns : List Node} (h : ∀ n ∈ ns, joined n.pieces = n.sql) :
    (clausePieces ns).map (fun c => (c.1, joined c.2)) = clauses ns := by
  rw [clausePieces_eq, clauses_eq, List.map_map]
  refine List.map_congr_left fun n hn => ?_
  exact congrArg (Prod.mk n.conjunction) (h n (List.mem_filter.1 hn).1)

theorem joined_pieces (n : Node) : joined n.pieces = n.sql := by
  induction n using inductionOn with
  | group l ns ih =>
    rw [pieces, Node.sql, joined_cons, joined_append, joined_joinPieces, map_clausePieces ih]
    simp only [joined_cons, joined_nil, Piece.sql, String.append_empty, String.append_assoc]
  | range l a b =>
    have hwords : (" ? AND ?" : String) = " ? " ++ ("AND" ++ " ?") := rfl
    rw [pieces, Node.sql, joined_cons, joined_append, Predicate.joined_pieces, hwords]
    simp only [joined_cons, joined_nil, Piece.sql, String.append_empty, String.append_assoc]
  | scalar | list =>
    rw [pieces, Node.sql, joined_cons, joined_append, Predicate.joined_pieces]
    simp only [joined_cons, joined_nil, Piece.sql, String.append_empty, String.append_assoc]
  | marker => rfl

theorem joined_wherePieces (ns : List Node) : joined (wherePieces ns) = whereClause ns := by
  have hclauses : (clausePieces (conditions ns)).map (fun c => (c.1, joined c.2)) = _ :=
    map_clausePieces fun n _ => joined_pieces n
  have hempty : (clausePieces (conditions ns)).isEmpty = (clauses (conditions ns)).isEmpty := by
    rw [← hclauses, List.isEmpty_map]
  have hword : (" WHERE " : String) = " " ++ ("WHERE" ++ " ") := rfl
  rw [wherePieces, whereClause, hempty, ← hclauses, ← joined_joinPieces, hword]
  split
  · rfl
  · simp only [joined_cons, Piece.sql, String.append_assoc]

end Node

namespace Criteria

theorem joined_orderPieces (c : Criteria) : joined c.orderPieces = c.orderClause := by
  rw [orderPieces, orderClause]
  cases c.orderBy with
  | none => rfl
  | some o =>
    have hwords : (" ORDER BY " : String) = " " ++ ("ORDER" ++ (" " ++ ("BY" ++ " "))) := rfl
    rw [hwords]
    simp only [joined_cons, joined_nil, Piece.sql, String.append_empty, String.append_assoc]

theorem joined_tailPieces (c : Criteria) : joined c.tailPieces = c.tail := by
  have hword : (" FROM " : String) = " " ++ ("FROM" ++ " ") := rfl
  rw [tailPieces, joined_append, joined_append, Node.joined_wherePieces, joined_orderPieces, tail,
    fromClause, hword]
  simp only [joined_cons, joined_nil, Piece.sql, String.append_empty, String.append_assoc]

end Criteria

theorem joined_statement (selected tail : List Piece) :
    joined (statement selected tail) = "SELECT " ++ joined selected ++ joined tail := by
  have hword : ("SELECT " : String) = "SELECT" ++ " " := rfl
  rw [statement, joined_cons, joined_cons, joined_append, hword]
  simp only [Piece.sql, String.append_assoc]

def isKeyword (w : String) : Bool := isWord w && w.toList.all isNameStart

/-- The characters that are in no path and not in the tag. -/
def isBreak (c : Char) : Bool := !(isPathChar c || c == '$' || c == '{' || c == '}')

def endsApart (s : List Char) : Bool := s.getLast?.any isBreak

def startsApart (s : List Char) : Bool := s.head?.all isBreak

theorem endsApart_append (s : List Char) {t : List Char} (h : endsApart t = true) :
    endsApart (s ++ t) = true := by
  rw [endsApart, List.getLast?_append]
  cases ht : t.getLast? with
  | none => rw [endsApart, ht] at h; cases h
  | some c => rw [endsApart, ht] at h; exact h

/-- Words are the compiler's own, and wherever two pieces meet, one of them has a character at the
seam that is in no path and not in the tag. -/
inductive IsLaid : List Piece → Prop
  | nil : IsLaid []
  | text {s : String} {ps : List Piece}
    (h : endsApart s.toList = true ∨ startsApart (joined ps).toList = true) (hps : IsLaid ps) :
    IsLaid (.text s :: ps)
  | word {w : String} {ps : List Piece} (hw : isKeyword w = true)
    (h : startsApart (joined ps).toList = true) (hps : IsLaid ps) : IsLaid (.word w :: ps)

theorem startsApart_text {s : String} (h : s.toList.head?.any isBreak = true) (ps : List Piece) :
    startsApart (joined (.text s :: ps)).toList = true := by
  rw [joined_cons, String.toList_append, startsApart, List.head?_append]
  cases hs : (Piece.text s).sql.toList.head? with
  | none => rw [show s.toList.head? = none from hs] at h; cases h
  | some c => rw [show s.toList.head? = some c from hs] at h; exact h

namespace IsLaid

variable {ps : List Piece}

theorem predicate (hps : IsLaid ps) (hs : startsApart (joined ps).toList = true) (p : Predicate) :
    IsLaid (p.pieces ++ ps) := by
  cases p with
  | eq | lt | lte | gt | gte | not | group => exact .text (Or.inr hs) hps
  | like | between | among => exact .word rfl hs hps
  | notAmong => exact .word rfl (startsApart_text rfl _) (.text (Or.inl rfl) (.word rfl hs hps))

theorem conjunction (hps : IsLaid ps) (hs : startsApart (joined ps).toList = true)
    (c : Conjunction) : IsLaid (c.pieces ++ ps) := by
  cases c with
  | and | or => exact .word rfl hs hps
  | groupBy | orderBy =>
    exact .word rfl (startsApart_text rfl _) (.text (Or.inl rfl) (.word rfl hs hps))

theorem joinPieces {cs : List (Conjunction × List Piece)}
    (h : ∀ c ∈ cs, ∀ {ps}, IsLaid ps → IsLaid (c.2 ++ ps)) (hps : IsLaid ps) :
    IsLaid (Node.joinPieces cs ++ ps) := by
  cases cs with
  | nil => exact hps
  | cons c cs =>
    rw [List.forall_mem_cons] at h
    rw [Node.joinPieces, List.append_assoc]
    refine h.1 ?_
    induction cs with
    | nil => exact hps
    | cons d cs ih =>
      have hd := List.forall_mem_cons.1 h.2
      rw [List.flatMap_cons, List.append_assoc, List.cons_append, List.append_assoc,
        List.cons_append]
      exact .text (Or.inl rfl) ((IsLaid.text (Or.inl rfl) (hd.1 (ih ⟨h.1, hd.2⟩))).conjunction
        (startsApart_text rfl _) d.1)

theorem clausePieces {ns : List Node}
    (h : ∀ n ∈ ns, ∀ {ps}, IsLaid ps → IsLaid (n.pieces ++ ps)) (hps : IsLaid ps) :
    IsLaid (Node.joinPieces (Node.clausePieces ns) ++ ps) := by
  rw [Node.clausePieces_eq]
  refine joinPieces (fun c hc => ?_) hps
  obtain ⟨n, hn, rfl⟩ := List.mem_map.1 hc
  exact h n (List.mem_filter.1 hn).1

theorem key (k : String) {qs : List Piece} (hqs : IsLaid qs)
    (hs : startsApart (joined qs).toList = true) (p : Predicate) :
    IsLaid (.text (k ++ " ") :: (p.pieces ++ qs)) := by
  refine .text (Or.inl ?_) (hqs.predicate hs p)
  rw [String.toList_append]
  exact endsApart_append _ rfl

theorem node (n : Node) (hps : IsLaid ps) : IsLaid (n.pieces ++ ps) := by
  induction n using Node.inductionOn generalizing ps with
  | scalar l v =>
    rw [Node.pieces, List.cons_append, List.append_assoc]
    exact key l.key (.text (Or.inl rfl) hps) (startsApart_text rfl _) l.predicate
  | range l a b =>
    rw [Node.pieces, List.cons_append, List.append_assoc]
    have hps : IsLaid (.word "AND" :: .text " ?" :: ps) :=
      .word rfl (startsApart_text rfl _) (.text (Or.inl rfl) hps)
    exact key l.key (.text (Or.inl rfl) hps) (startsApart_text rfl _) l.predicate
  | list l vs =>
    rw [Node.pieces, List.cons_append, List.append_assoc]
    refine key l.key (.text (Or.inl ?_) hps) (startsApart_text ?_ _) l.predicate
    · rw [String.toList_append]
      exact endsApart_append _ rfl
    · rw [String.toList_append, String.toList_append]
      rfl
  | group l ns ih =>
    rw [Node.pieces, List.cons_append, List.append_assoc]
    exact .text (Or.inl rfl) (clausePieces (fun n hn {ps} => ih n hn) (.text (Or.inl rfl) hps))
  | marker l => exact hps

theorem whereClause (ns : List Node) (hps : IsLaid ps) : IsLaid (Node.wherePieces ns ++ ps) := by
  rw [Node.wherePieces]
  split
  · exact hps
  · exact .text (Or.inl rfl) (.word rfl (startsApart_text rfl _)
      (.text (Or.inl rfl) (clausePieces (fun n _ => node n) hps)))

theorem orderClause (c : Criteria) : IsLaid c.orderPieces := by
  rw [Criteria.orderPieces]
  cases c.orderBy with
  | none => exact .nil
  | some o =>
    have hdirection : isKeyword o.direction.sql = true := by cases o.direction <;> rfl
    refine .text (Or.inl rfl) (.word rfl (startsApart_text rfl _) (.text (Or.inl rfl)
      (.word rfl (startsApart_text ?_ _) (.text (Or.inl ?_) (.word hdirection rfl .nil)))))
    · rw [String.toList_append, String.toList_append]
      rfl
    · rw [String.toList_append]
      exact endsApart_append _ rfl

theorem tail (c : Criteria) : IsLaid c.tailPieces := by
  have hclauses :
      startsApart (joined (Node.wherePieces c.nodes ++ c.orderPieces)).toList = true := by
    rw [joined_append, Node.joined_wherePieces, Criteria.joined_orderPieces]
    obtain h | ⟨w, -, t, h⟩ := c.tail_cases
    · rw [h]
      rfl
    · rw [h, String.toList_append]
      rfl
  refine .text (Or.inl rfl) (.word rfl (startsApart_text ?_ _)
    (.text (Or.inr hclauses) (whereClause c.nodes (orderClause c))))
  rw [String.toList_append]
  rfl

end IsLaid

section

variable {new s : List Char}

theorem not_mem_projectionTag {c : Char} (hc : isBreak c = true) : c ∉ projectionTag.toList := by
  have htag : projectionTag.toList.any isBreak = false := by decide
  exact fun hmem => List.any_eq_false.1 htag c hmem hc

theorem replace_break {c : Char} (hc : isBreak c = true) (s : List Char) :
    replace projectionTag.toList new (c :: s) = c :: replace projectionTag.toList new s := by
  have hdollar : '$' ∉ [c] := by
    rintro hmem
    obtain rfl := List.mem_singleton.1 hmem
    cases hc
  exact replace_append_of_head (p := [c]) hdollar s

theorem replace_append_of_startsApart (s : List Char) {t : List Char} (h : startsApart t = true) :
    replace projectionTag.toList new (s ++ t) =
      replace projectionTag.toList new s ++ replace projectionTag.toList new t := by
  cases t with
  | nil => simp
  | cons c t => exact replace_append_stop (not_mem_projectionTag h) s t

theorem startsApart_replace (h : startsApart s = true) :
    startsApart (replace projectionTag.toList new s) = true := by
  cases s with
  | nil => simpa using h
  | cons c s =>
    rw [replace_break h]
    exact h

theorem exists_of_endsApart (h : endsApart s = true) : ∃ t c, s = t ++ [c] ∧ isBreak c = true := by
  rcases List.eq_nil_or_concat s with rfl | ⟨t, c, rfl⟩
  · cases h
  · rw [List.concat_eq_append, endsApart, List.getLast?_concat] at h
    exact ⟨t, c, List.concat_eq_append .., h⟩

theorem replace_append_of_endsApart (h : endsApart s = true) (t : List Char) :
    replace projectionTag.toList new (s ++ t) =
      replace projectionTag.toList new s ++ replace projectionTag.toList new t := by
  obtain ⟨u, c, rfl, hc⟩ := exists_of_endsApart h
  have hstop := not_mem_projectionTag hc
  rw [List.append_assoc, List.singleton_append, replace_append_stop hstop,
    replace_append_stop hstop, replace_break hc, replace_break hc, List.append_assoc]
  simp

theorem endsApart_replace (h : endsApart s = true) :
    endsApart (replace projectionTag.toList new s) = true := by
  obtain ⟨u, c, rfl, hc⟩ := exists_of_endsApart h
  rw [replace_append_stop (not_mem_projectionTag hc), replace_break hc, replace_nil]
  exact endsApart_append _ hc

end

variable {ps : List Piece}

theorem fillTemplate_keyword {w : String} (hw : isKeyword w = true) (new : String) :
    fillTemplate w new = w := by
  rw [isKeyword, Bool.and_eq_true] at hw
  have hdollar : '$' ∉ w.toList := fun h => absurd (List.all_eq_true.1 hw.2 _ h) (by decide)
  rw [fillTemplate, (unreplaced_of_not_mem hdollar).replace_eq, String.ofList_toList]

/-- Filling in the select list changes texts only, and the pieces still stand apart. -/
theorem IsLaid.fill (h : IsLaid ps) (new : String) :
    fillTemplate (joined ps) new = joined (ps.map (Piece.fill new)) ∧
      IsLaid (ps.map (Piece.fill new)) := by
  have hpiece {p : Piece} {qs : List Piece}
      (hp : replace projectionTag.toList new.toList (p.sql.toList ++ (joined qs).toList) =
        (p.fill new).sql.toList ++ replace projectionTag.toList new.toList (joined qs).toList)
      (hqs : fillTemplate (joined qs) new = joined (qs.map (Piece.fill new))) :
      fillTemplate (joined (p :: qs)) new = joined ((p :: qs).map (Piece.fill new)) := by
    apply String.toList_inj.1
    rw [List.map_cons, joined_cons, joined_cons, ← hqs, fillTemplate, String.toList_ofList,
      String.toList_append, String.toList_append, hp, fillTemplate, String.toList_ofList]
  have hstarts {qs : List Piece} (hs : startsApart (joined qs).toList = true)
      (hqs : fillTemplate (joined qs) new = joined (qs.map (Piece.fill new))) :
      startsApart (joined (qs.map (Piece.fill new))).toList = true := by
    rw [← hqs, fillTemplate, String.toList_ofList]
    exact startsApart_replace hs
  induction h with
  | nil => exact ⟨rfl, .nil⟩
  | text h _ ih =>
    refine ⟨hpiece ?_ ih.1, .text ?_ ih.2⟩
    · rw [Piece.fill, Piece.sql, Piece.sql, fillTemplate, String.toList_ofList]
      rcases h with h | h
      · exact replace_append_of_endsApart h _
      · exact replace_append_of_startsApart _ h
    · rw [fillTemplate, String.toList_ofList]
      exact h.imp endsApart_replace fun h => hstarts h ih.1
  | @word w qs hw h _ ih =>
    refine ⟨hpiece ?_ ih.1, .word hw (hstarts h ih.1) ih.2⟩
    have hkept := congrArg String.toList (fillTemplate_keyword hw new)
    rw [fillTemplate, String.toList_ofList] at hkept
    rw [Piece.fill, Piece.sql, replace_append_of_startsApart _ h, hkept]

theorem startsApart_tailPieces (c : Criteria) : startsApart (joined c.tailPieces).toList = true :=
  startsApart_text rfl _

theorem IsLaid.statement {selected tail : List Piece} (h : IsLaid (selected ++ tail)) :
    IsLaid (statement selected tail) :=
  .word rfl (startsApart_text rfl _) (.text (Or.inl rfl) h)

theorem IsLaid.countPieces (hps : IsLaid ps) (hs : startsApart (joined ps).toList = true) :
    IsLaid (countPieces ++ ps) :=
  .word rfl (startsApart_text rfl _) (.text (Or.inl rfl) (.word rfl hs hps))

namespace Criteria

variable (c : Criteria)

def templatePieces : List Piece := statement [.text projectionTag] c.tailPieces

def filledPieces (selected : List Piece) : List Piece :=
  statement selected (c.tailPieces.map (Piece.fill (joined selected)))

theorem template_eq : c.template = joined c.templatePieces := by
  rw [templatePieces, joined_statement, joined_tailPieces, joined_cons, joined_nil,
    String.append_empty]
  rfl

theorem fillTemplate_eq_joined (selected : List Piece) :
    fillTemplate c.template (joined selected) = joined (c.filledPieces selected) := by
  apply String.toList_inj.1
  rw [toList_fillTemplate, filledPieces, joined_statement, ← ((IsLaid.tail c).fill _).1,
    joined_tailPieces, fillTemplate]
  simp only [String.toList_append, String.toList_ofList, List.append_assoc]

theorem isLaid_templatePieces : IsLaid c.templatePieces :=
  .statement (.text (Or.inr (startsApart_tailPieces c)) (.tail c))

/-- A select list that is laid in front of everything that starts apart is laid in a statement. -/
theorem isLaid_filledPieces {selected : List Piece}
    (h : ∀ ps, IsLaid ps → startsApart (joined ps).toList = true → IsLaid (selected ++ ps)) :
    IsLaid (c.filledPieces selected) := by
  have hfill := (IsLaid.tail c).fill (joined selected)
  refine .statement (h _ hfill.2 ?_)
  rw [← hfill.1, fillTemplate, String.toList_ofList]
  exact startsApart_replace (startsApart_tailPieces c)

end Criteria

end FilterSql
