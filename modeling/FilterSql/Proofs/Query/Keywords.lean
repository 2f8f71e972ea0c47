import FilterSql.Proofs.Query.Entities
import FilterSql.Proofs.Query.Pieces
import FilterSql.Proofs.Query.Written
/-!
# The compiler's own words

The words of a statement are read as names like everything else in it. So a word stays where it
stands unless an entity is known under that name: in a criteria with a source the entity that some
path of the data query starts with, in any other the criteria's own. Then its table may stand there.
-/
namespace FilterSql

open Sql Text

/-- What a piece becomes: a word stays or gives way to the table of an entity that it is taken for,
and in a text paths are replaced. -/
inductive Piece.Reads (known : String → Entity → Prop) (f : String → Option String) :
    Piece → Piece → Prop
  | word (w : String) : Reads known f (.word w) (.word w)
  | table {w : String} {e : Entity} (h : known w e) : Reads known f (.word w) (.word e.table)
  | text {s t : String}
    (h : Renamed (fun p q => q = p ∨ q = replaced f p) true s.toList t.toList) :
    Reads known f (.text s) (.text t)

def Reads (known : String → Entity → Prop) (f : String → Option String) (ps : List Piece)
    (sql : String) : Prop :=
  ∃ us, List.Forall₂ (Piece.Reads known f) ps us ∧ sql = joined us

variable {known : String → Entity → Prop} {f : String → Option String}

/-- The words of SQL have no replacement but the tables of the entities that they are taken for. -/
def ReadsKeywords (known : String → Entity → Prop) (f : String → Option String) : Prop :=
  ∀ w, isKeyword w = true → f w = none ∨ ∃ e, known w e ∧ f w = some e.table

theorem Piece.reads_word (hf : ReadsKeywords known f) {w : String} (hw : isKeyword w = true)
    {t : List Char} (h : Renamed (fun p q => q = p ∨ q = replaced f p) true w.toList t) :
    Piece.Reads known f (.word w) (.word (String.ofList t)) := by
  have hletters := hw
  rw [isKeyword, Bool.and_eq_true] at hletters
  have hkept : Piece.Reads known f (.word w) (.word (String.ofList w.toList)) := by
    rw [String.ofList_toList]
    exact .word w
  have hor : t = w.toList ∨ t = replaced f w.toList := by
    rcases h.letters_inv hletters.2 with h | h | h
    · exact Or.inl h
    · exact Or.inl h
    · exact Or.inr h
  rcases hor with rfl | rfl
  · exact hkept
  · rw [replaced, String.ofList_toList]
    rcases hf w hw with hnone | ⟨e, he, hsome⟩
    · rw [hnone]
      exact hkept
    · rw [hsome]
      change Piece.Reads known f (.word w) (.word (String.ofList e.table.toList))
      rw [String.ofList_toList]
      exact .table he

/-- No path reaches over a seam, so a renamed statement is renamed piece by piece. -/
theorem IsLaid.exists_reads (hf : ReadsKeywords known f) {ps : List Piece} (hps : IsLaid ps)
    {t : List Char}
    (h : Renamed (fun p q => q = p ∨ q = replaced f p) true (joined ps).toList t) :
    Reads known f ps (String.ofList t) := by
  have hseam {c : Char} (hc : isBreak c = true) : isPathChar c = false := by
    rw [isBreak, Bool.not_eq_true', Bool.or_eq_false_iff, Bool.or_eq_false_iff,
      Bool.or_eq_false_iff] at hc
    exact hc.1.1.1
  have hstarts {s : List Char} (hs : startsApart s = true) :
      ∀ c ∈ s.head?, isPathChar c = false := fun c hc => by
    rw [startsApart, hc] at hs
    exact hseam hs
  have hends {s : List Char} (hs : endsApart s = true) :
      ∀ c ∈ s.getLast?, isPathChar c = false := fun c hc => by
    rw [endsApart, hc] at hs
    exact hseam hs
  induction hps generalizing t with
  | nil =>
    rw [h.nil_inv]
    exact ⟨[], .nil, rfl⟩
  | text hs _ ih =>
    rw [joined_cons, String.toList_append] at h
    obtain ⟨u, v, rfl, hu, hv⟩ := h.append_inv (hs.imp hends hstarts)
    obtain ⟨us, hus, hv⟩ := ih hv
    rw [← String.toList_ofList (l := u)] at hu
    refine ⟨.text (String.ofList u) :: us, .cons (.text hu) hus, ?_⟩
    rw [joined_cons, ← hv, String.ofList_append, Piece.sql]
  | word hw hs _ ih =>
    rw [joined_cons, String.toList_append] at h
    obtain ⟨u, v, rfl, hu, hv⟩ := h.append_inv (Or.inr (hstarts hs))
    obtain ⟨us, hus, hv⟩ := ih hv
    refine ⟨.word (String.ofList u) :: us, .cons (Piece.reads_word hf hw hu) hus, ?_⟩
    rw [joined_cons, ← hv, String.ofList_append, Piece.sql]

theorem IsLaid.reads (hf : ReadsKeywords known f) {ps : List Piece} (hps : IsLaid ps) :
    Reads known f ps (resolve f (joined ps)) := by
  have h := hps.exists_reads hf (renamed_resolveFrom f false (joined ps).toList)
  rwa [← toList_resolve, String.ofList_toList] at h

namespace Criteria

variable {c : Criteria} {provider : Provider} {q : Query}

def TakesFor (c : Criteria) (provider : Provider) (w : String) (e : Entity) : Prop :=
  match c.source with
  | some _ => (∃ p, Mentions (tokenize (fillTemplate c.template c.selectList)) w p) ∧
      provider w = .ok e
  | none => provider c.entity.name = .ok e ∧ e.name = w

theorem exists_readsKeywords {x : (String → String) × Option NameTable}
    (h : c.resolver provider (fillTemplate c.template c.selectList) = .ok x) :
    ∃ f, x.1 = resolve f ∧ ReadsKeywords (c.TakesFor provider) f := by
  cases resolvedBy h with
  | @record s r hs hr =>
    refine ⟨r.replacement?, rfl, fun w hw => ?_⟩
    rw [isKeyword, Bool.and_eq_true] at hw
    rw [Resolution.replacement?_name (not_mem_of_isName (isWord_iff.1 hw.1).1)]
    cases he : r.entities.find? w with
    | none => exact Or.inl rfl
    | some e =>
      refine Or.inr ⟨e, ?_, rfl⟩
      rw [TakesFor, hs]
      exact ((Resolution.records_of_ofSql hr).entities w e).1 he
  | @entity e hs he =>
    refine ⟨e.replacement?, rfl, fun w hw => ?_⟩
    rw [isKeyword, Bool.and_eq_true] at hw
    by_cases hname : e.name = w
    · refine Or.inr ⟨e, ?_, ?_⟩
      · rw [TakesFor, hs]
        exact ⟨he, hname⟩
      · rw [Entity.replacement?, cutAt_of_not_mem (not_mem_of_isName (isWord_iff.1 hw.1).1)]
        exact if_pos hname.symm
    · exact Or.inl (e.replacement?_word hw.1 hname)

/-- Every word that compiling writes stands at its place in the three statements, or the table of
the entity that it is taken for does. The texts between the words change in their paths only. -/
theorem compile_keywords (h : c.compile provider = .ok q) :
    ∃ f names, c.resolver provider (fillTemplate c.template c.selectList) =
        .ok (resolve f, names) ∧
      Reads (c.TakesFor provider) f c.templatePieces q.template ∧
      Reads (c.TakesFor provider) f (c.filledPieces [.text c.selectList]) q.data ∧
      (Node.groupingKey? c.nodes = none →
        Reads (c.TakesFor provider) f (c.filledPieces countPieces) q.count) := by
  obtain ⟨⟨rewrite, names⟩, hx, hdata, htemplate, -, hcount⟩ := compile_eq_ok h
  obtain ⟨f, rfl, hf⟩ := exists_readsKeywords hx
  refine ⟨f, names, hx, ?_, ?_, fun hkey => ?_⟩
  · rw [htemplate, template_eq]
    exact (isLaid_templatePieces c).reads hf
  · have hlist : joined [.text c.selectList] = c.selectList := by
      rw [joined_cons, joined_nil, String.append_empty, Piece.sql]
    have hfilled := c.fillTemplate_eq_joined [.text c.selectList]
    rw [hlist] at hfilled
    rw [hdata, hfilled]
    exact (c.isLaid_filledPieces fun ps hps hs => .text (Or.inr hs) hps).reads hf
  · have hfilled : fillTemplate c.template "COUNT(*) count" = _ :=
      c.fillTemplate_eq_joined countPieces
    rw [hkey] at hcount
    rw [hcount, hfilled]
    exact (c.isLaid_filledPieces fun ps hps hs => hps.countPieces hs).reads hf

end Criteria

def countEntity : Entity :=
  { name := "Count", table := "t_count", fields := .ofList [("id", ⟨"count_id", .int, false⟩)] }

/-- A criteria whose source and select list name an entity like the count itself. -/
def countCriteria : Criteria :=
  ((Criteria.fetching countEntity).runAll [.select "count.id", .source "count"]).1

theorem compiled_countCriteria : ∃ q,
    countCriteria.compile (Registry.ofList [countEntity]).resolve = .ok q ∧
      q.count = "SELECT COUNT(*) t_count FROM t_count" := by
  have hcount : (countCriteria.compile (Registry.ofList [countEntity]).resolve).toOption.map
      (·.count) = some "SELECT COUNT(*) t_count FROM t_count" := by decide +kernel
  exact exists_of_toOption_map hcount

theorem compile_countCriteria : ∃ q f,
    countCriteria.compile (Registry.ofList [countEntity]).resolve = .ok q ∧
      q.count = "SELECT COUNT(*) t_count FROM t_count" ∧
      Reads (countCriteria.TakesFor (Registry.ofList [countEntity]).resolve) f
        (countCriteria.filledPieces countPieces) q.count := by
  obtain ⟨q, hq, hcount⟩ := compiled_countCriteria
  obtain ⟨f, -, -, -, -, hreads⟩ := Criteria.compile_keywords hq
  exact ⟨q, f, hq, hcount, hreads rfl⟩

theorem Reads.word_inv {w : String} {ps : List Piece} {sql : String}
    (h : Reads (fun _ _ => False) f (.word w :: ps) sql) :
    ∃ r, sql = w ++ r ∧ Reads (fun _ _ => False) f ps r := by
  obtain ⟨us, hus, rfl⟩ := h
  cases hus with
  | @cons _ u _ us hu hus =>
    cases hu with
    | word => exact ⟨joined us, joined_cons .., us, hus, rfl⟩
    | table h => exact h.elim

theorem Reads.text_inv {s : String} (hs : s.toList.any isNameStart = false)
    {ps : List Piece} {sql : String} (h : Reads known f (.text s :: ps) sql) :
    ∃ r, sql = s ++ r ∧ Reads known f ps r := by
  obtain ⟨us, hus, rfl⟩ := h
  cases hus with
  | @cons _ u _ us hu hus =>
    cases hu with
    | text h =>
      have ht := String.toList_inj.1 (h.eq_of_nameless hs)
      rw [ht]
      exact ⟨joined us, joined_cons .., us, hus, rfl⟩

/-- With the entity's table for the word `count` the count does not keep the compiler's words; and
in a criteria without a source the table of an entity of the name `WHERE` stands for that word. -/
theorem not_keepsKeywords_countCriteria :
    (∃ q, countCriteria.compile (Registry.ofList [countEntity]).resolve = .ok q ∧
      ∀ f, ¬ Reads (fun _ _ => False) f (countCriteria.filledPieces countPieces) q.count) ∧
    compiledStatements { countEntity with name := "WHERE" }
        ((Criteria.plain { countEntity with name := "WHERE" }).runAll
          [.step (.filter .and ⟨"id", .compare .eq (.int 1)⟩)]).1 =
      some ("SELECT COUNT(*) count FROM t_count t_count count_id = ?",
        "SELECT * FROM t_count t_count count_id = ?",
        "SELECT ${PROJECTION} FROM t_count t_count count_id = ?") := by
  refine ⟨?_, by decide +kernel⟩
  obtain ⟨q, hq, hcount⟩ := compiled_countCriteria
  refine ⟨q, hq, fun f hreads => ?_⟩
  rw [hcount] at hreads
  obtain ⟨_, hsql, hblank⟩ := Reads.word_inv hreads
  obtain ⟨_, rfl, hword⟩ := Reads.text_inv (by decide) hblank
  obtain ⟨_, rfl, hstar⟩ := Reads.word_inv hword
  obtain ⟨_, rfl, hname⟩ := Reads.text_inv (by decide) hstar
  obtain ⟨r, rfl, -⟩ := Reads.word_inv hname
  have hprefix : "SELECT COUNT(*) count".toList <+:
      "SELECT COUNT(*) t_count FROM t_count".toList := by
    rw [hsql, String.toList_append, String.toList_append, String.toList_append,
      String.toList_append, String.toList_append]
    exact ⟨r.toList, rfl⟩
  revert hprefix
  decide

end FilterSql
