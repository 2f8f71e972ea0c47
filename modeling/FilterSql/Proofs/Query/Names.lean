import FilterSql.Proofs.Query.Entities
import FilterSql.Proofs.Query.Template
import FilterSql.Proofs.Sql.Shapes
/-!
# Properties of names

What a criteria's references are replaced by is put together from tables, columns and paths. So a
property that all paths have, that is kept when texts are joined by a point and that the tables and
columns of a provider have, is a property of all replacements. Two such properties are being a path
and having no quote, dollar sign or question mark.
-/
namespace FilterSql

open Sql Text

/-- All paths have the property, and joining by a point keeps it. -/
structure Sql.IsPathLike (Q : List Char → Prop) : Prop where
  path : ∀ {s}, IsPath s → Q s
  point : ∀ {s t}, Q s → Q t → Q (s ++ '.' :: t)

theorem Sql.isPathLike_isPath : IsPathLike IsPath := ⟨id, IsPath.append_point⟩

theorem Sql.isPathLike_lacks {p : Char → Bool} (hp : ∀ c, p c = true → isMark c = true) :
    IsPathLike (Lacks p) where
  path h := h.lacks.mono hp
  point hs ht := by
    have hpoint : Lacks p ['.'] := Lacks.mono hp (by decide)
    exact hs.append (hpoint.append ht)

/-- The table and the columns have the property. -/
structure Entity.NamesSatisfy (Q : List Char → Prop) (e : Entity) : Prop where
  table : Q e.table.toList
  columns : ∀ property field, e.field? property = some field → Q field.column.toList

def Provider.NamesSatisfy (Q : List Char → Prop) (provider : Provider) : Prop :=
  ∀ name e, provider name = .ok e → e.NamesSatisfy Q

theorem Dictionary.mem_entries_of_find? {α : Type} {d : Dictionary α} {key : String} {value : α}
    (h : d.find? key = some value) : (key, value) ∈ d.entries := by
  rw [find?, List.lookup_eq_some_iff] at h
  obtain ⟨l, r, hentries, -⟩ := h
  simp [hentries]

theorem Sql.isPath_of_cutAt {p name property : List Char} (hp : IsPath p)
    (h : cutAt '.' p = some (name, property)) : IsPath property := by
  rw [cutAt_eq_some] at h
  obtain ⟨rfl, hname⟩ := h
  generalize hs : name ++ '.' :: property = s at hp
  cases hp with
  | name hn => exact absurd (hs ▸ by simp) (not_mem_of_isName hn)
  | @qualified n q hn hq =>
    have hcut : cutAt '.' (n ++ '.' :: q) = some (name, property) :=
      cutAt_eq_some.2 ⟨hs.symm, hname⟩
    rw [cutAt_eq_some.2 ⟨rfl, not_mem_of_isName hn⟩] at hcut
    obtain ⟨-, rfl⟩ := Prod.mk.inj (Option.some.inj hcut)
    exact hq

variable {Q : List Char → Prop}

namespace Entity.NamesSatisfy

variable {e : Entity}

theorem qualified (he : e.NamesSatisfy Q) (hQ : IsPathLike Q) {property : String}
    (hp : IsPath property.toList) : Q (e.table ++ "." ++ e.columnOf property).toList := by
  have hcolumn : Q (e.columnOf property).toList := by
    rw [columnOf, column?]
    cases hf : e.field? property with
    | none => exact hQ.path hp
    | some field => exact he.columns property field hf
  simpa using hQ.point he.table hcolumn

theorem yields (he : e.NamesSatisfy Q) (hQ : IsPathLike Q) : Yields Q e.replacement? := by
  intro s t hs ht
  rw [replacement?] at ht
  split at ht
  next name property hcut =>
    split at ht
    · obtain rfl := Option.some.inj ht
      refine he.qualified hQ ?_
      rw [String.toList_ofList]
      exact isPath_of_cutAt hs hcut
    · cases ht
  next =>
    split at ht
    · obtain rfl := Option.some.inj ht
      exact he.table
    split at ht
    · cases ht
    · rw [column?] at ht
      obtain ⟨field, hf, rfl⟩ := Option.map_eq_some_iff.1 ht
      exact he.columns s field hf

theorem of_entries (htable : Q e.table.toList)
    (hcolumns : ∀ x ∈ e.fields.entries, Q x.2.column.toList) : e.NamesSatisfy Q :=
  ⟨htable, fun _ _ h => hcolumns _ (Dictionary.mem_entries_of_find? h)⟩

end Entity.NamesSatisfy

theorem Registry.namesSatisfy_resolve {r : Registry}
    (h : ∀ x ∈ r.entities.entries, x.2.NamesSatisfy Q) : r.resolve.NamesSatisfy Q := by
  intro name e he
  rw [resolve] at he
  split at he
  next e' he' =>
    obtain rfl := Except.ok.inj he
    rcases Option.or_eq_some_iff.1 he' with he' | ⟨-, he'⟩
    · exact h _ (Dictionary.mem_entries_of_find? he')
    · exact h _ (Dictionary.mem_entries_of_find? he')
  next => cases he

theorem Registry.namesSatisfy_singleton {e : Entity} (he : e.NamesSatisfy Q) :
    (Registry.ofList [e]).resolve.NamesSatisfy Q := by
  refine namesSatisfy_resolve fun x hx => ?_
  obtain rfl := List.mem_singleton.1 hx
  exact he

theorem Sql.isPath_of_mentions {sql name property : String}
    (h : Mentions (tokenize sql) name property) : IsPath property.toList := by
  obtain ⟨t, ht, hnames⟩ := h
  have htext := congrArg String.toList hnames.text
  rw [Token.text, String.toList_ofList, String.toList_append, String.toList_append,
    List.append_assoc] at htext
  exact isPath_of_cutAt (isPath_of_mem_tokens ht hnames.path)
    (cutAt_eq_some.2 ⟨htext, hnames.entity⟩)

theorem Resolution.yields {provider : Provider} (hprovider : provider.NamesSatisfy Q)
    (hQ : IsPathLike Q) {sql : String} {r : Resolution} (h : ofSql provider sql = .ok r) :
    Yields Q r.replacement? := by
  have hrecords := records_of_ofSql h
  intro s t _ ht
  rw [replacement?] at ht
  split at ht
  · obtain ⟨name, property, e, hm, he, -, rfl⟩ := (hrecords.names s t).1 ht
    exact (hprovider name e he).qualified hQ (isPath_of_mentions hm)
  · obtain ⟨e, he, rfl⟩ := Option.map_eq_some_iff.1 ht
    exact (hprovider s e ((hrecords.entities s e).1 he).2).table

namespace Criteria

/-- What the references of a criteria's statements are replaced by: the names recorded from its data
query, or the declarations of its entity. -/
inductive ReplacedBy (c : Criteria) (provider : Provider) (data : String) :
    (String → Option String) → Prop
  | record {s : String} {r : Resolution} (hs : c.source = some s)
    (hr : Resolution.ofSql provider data = .ok r) : ReplacedBy c provider data r.replacement?
  | entity {e : Entity} (hs : c.source = none) (he : provider c.entity.name = .ok e) :
    ReplacedBy c provider data e.replacement?

variable {c : Criteria} {provider : Provider} {data : String}
  {x : (String → String) × Option NameTable}

theorem exists_replacedBy (h : c.resolver provider data = .ok x) :
    ∃ f, c.ReplacedBy provider data f ∧ x.1 = Sql.resolve f := by
  cases resolvedBy h with
  | record hs hr => exact ⟨_, .record hs hr, rfl⟩
  | entity hs he => exact ⟨_, .entity hs he, rfl⟩

theorem ReplacedBy.yields {f : String → Option String} (h : c.ReplacedBy provider data f)
    (hprovider : provider.NamesSatisfy Q) (hQ : IsPathLike Q) : Yields Q f := by
  cases h with
  | record _ hr => exact Resolution.yields hprovider hQ hr
  | entity _ he => exact (hprovider _ _ he).yields hQ

theorem exists_yields (hprovider : provider.NamesSatisfy Q) (hQ : IsPathLike Q)
    (h : c.resolver provider data = .ok x) : ∃ f, Yields Q f ∧ x.1 = Sql.resolve f := by
  obtain ⟨f, hf, hx⟩ := exists_replacedBy h
  exact ⟨f, hf.yields hprovider hQ, hx⟩

end Criteria

end FilterSql
