import FilterSql.Names
import FilterSql.Proofs.Criteria.Run
import FilterSql.Proofs.Sql.Aliases
import FilterSql.Proofs.Text.Replacing
/-!
# Names of several entities

Every path of two names in a text is looked up, the one behind `AS` as well as any other, and each
of them is recorded. What the record of a prefix of the tokens holds is an invariant, so the record
of a whole text knows exactly its paths, and resolving the text by it leaves none of them over.
-/
namespace FilterSql

open Sql

structure Sql.Token.IsQualified (t : Token) (entity property : String) : Prop where
  path : t.kind = .path
  text : t.text = entity ++ "." ++ property
  entity : '.' ∉ entity.toList
  property : '.' ∉ property.toList

def Sql.Token.names? (t : Token) : Option (String × String) :=
  if t.kind = .path then splitPath? t.chars else none

def Sql.Mentions (ts : List Token) (entity property : String) : Prop :=
  ∃ t ∈ ts, t.IsQualified entity property

namespace Sql

theorem qualified_inj {e p e' p' : String} (he : '.' ∉ e.toList) (he' : '.' ∉ e'.toList)
    (h : e ++ "." ++ p = e' ++ "." ++ p') : e = e' ∧ p = p' := by
  have hcut (a b : String) (ha : '.' ∉ a.toList) :
      Text.cutAt '.' (a ++ "." ++ b).toList = some (a.toList, b.toList) :=
    Text.cutAt_eq_some.2 ⟨by simp, ha⟩
  have hsame := (hcut e p he).symm.trans (h ▸ hcut e' p' he')
  obtain ⟨hentity, hproperty⟩ := Prod.mk.inj (Option.some.inj hsame)
  exact ⟨String.toList_inj.1 hentity, String.toList_inj.1 hproperty⟩

theorem splitPath?_eq_some {path : List Char} {e p : String} :
    splitPath? path = some (e, p) ↔
      String.ofList path = e ++ "." ++ p ∧ '.' ∉ e.toList ∧ '.' ∉ p.toList := by
  have hcut : String.ofList path = e ++ "." ++ p ∧ '.' ∉ e.toList ↔
      Text.cutAt '.' path = some (e.toList, p.toList) := by
    rw [Text.cutAt_eq_some, ← String.toList_inj]
    simp
  rw [← and_assoc, hcut, splitPath?]
  constructor
  · intro h
    split at h
    next a b hab =>
      split at h
      · cases h
      next hb =>
        obtain ⟨rfl, rfl⟩ := Prod.mk.inj (Option.some.inj h)
        simpa [hab] using hb
    next => cases h
  · rintro ⟨h, hp⟩
    simp [h, hp]

namespace Token.IsQualified

variable {t : Token} {e p e' p' : String}

theorem iff_names? : t.names? = some (e, p) ↔ t.IsQualified e p := by
  rw [names?]
  by_cases hk : t.kind = .path
  · rw [if_pos hk, splitPath?_eq_some]
    exact ⟨fun ⟨h, he, hp⟩ => ⟨hk, h, he, hp⟩, fun ⟨_, h, he, hp⟩ => ⟨h, he, hp⟩⟩
  · rw [if_neg hk]
    exact iff_of_false nofun fun h => hk h.path

theorem unique (h : t.IsQualified e p) (h' : t.IsQualified e' p') : e' = e ∧ p' = p :=
  qualified_inj h'.entity h.entity (h'.text.symm.trans h.text)

theorem count_point (h : t.IsQualified e p) : t.chars.count '.' = 1 := by
  have hchars : t.chars = e.toList ++ '.' :: p.toList := by
    have htext := congrArg String.toList h.text
    simpa [Token.text] using htext
  rw [hchars, List.count_append, List.count_cons_self, List.count_eq_zero_of_not_mem h.entity,
    List.count_eq_zero_of_not_mem h.property]

end Token.IsQualified

theorem two_le_count_point {s : List Char} (hmem : '.' ∈ s) (h : splitPath? s = none) :
    2 ≤ s.count '.' := by
  obtain ⟨a, b, rfl, ha⟩ := List.eq_append_cons_of_mem hmem
  have hb : '.' ∈ b := by
    by_contra hb
    have hsplit : splitPath? (a ++ '.' :: b) = some (String.ofList a, String.ofList b) :=
      splitPath?_eq_some.2 ⟨by simp [← String.toList_inj], by simpa using ha, by simpa using hb⟩
    rw [h] at hsplit
    cases hsplit
  have hpos := List.count_pos_iff.2 hb
  rw [List.count_append, List.count_cons_self]
  omega

variable {ts : List Token} {t : Token} {e p e' p' : String}

theorem mentions_iff {sql : String} :
    Mentions (tokenize sql) e p ↔ (e, p) ∈ qualifiedPaths sql := by
  refine Iff.trans ?_ List.mem_filterMap.symm
  exact exists_congr fun t => and_congr_right fun _ => Token.IsQualified.iff_names?.symm

theorem not_mentions_nil : ¬ Mentions [] e p := nofun

theorem mentions_concat : Mentions (ts ++ [t]) e p ↔ Mentions ts e p ∨ t.IsQualified e p := by
  simp only [Mentions, List.mem_append, List.mem_singleton, or_and_right, exists_or,
    exists_eq_left]

theorem Token.IsQualified.mentions_concat (h : t.IsQualified e p) :
    Mentions (ts ++ [t]) e' p' ↔ Mentions ts e' p' ∨ e' = e ∧ p' = p := by
  rw [Sql.mentions_concat]
  refine or_congr_right ⟨fun h' => h.unique h', ?_⟩
  rintro ⟨rfl, rfl⟩
  exact h

theorem Mentions.point (h : Mentions ts e p) : '.' ∉ e.toList := by
  obtain ⟨t, -, ht⟩ := h
  exact ht.entity

end Sql

theorem NameTable.physical?_insert (t : NameTable) (logical physical k : String) :
    (t.insert logical physical).physical? k =
      if k = logical then some physical else t.physical? k :=
  t.forward.find?_insert logical k physical

theorem NameTable.logical?_insert (t : NameTable) (logical physical s : String) :
    (t.insert logical physical).logical? s =
      if s = physical then some logical else t.logical? s :=
  t.reverse.find?_insert physical s logical

/-- Every physical name has a logical name of which it is the physical one. -/
def NameTable.RoundTrips (t : NameTable) : Prop :=
  ∀ k s, t.physical? k = some s → ∃ l, t.logical? s = some l ∧ t.physical? l = some s

theorem NameTable.RoundTrips.insert {t : NameTable} (h : t.RoundTrips) {logical physical : String}
    (hknown : ∀ s, t.physical? logical = some s → s = physical) :
    (t.insert logical physical).RoundTrips := by
  intro k s hk
  rw [physical?_insert] at hk
  simp only [physical?_insert, logical?_insert]
  by_cases hs : s = physical
  · exact ⟨logical, if_pos hs, (if_pos rfl).trans (congrArg some hs.symm)⟩
  · rw [if_neg fun hk' => hs (Option.some.inj ((if_pos hk').symm.trans hk)).symm] at hk
    obtain ⟨l, hl, hls⟩ := h k s hk
    refine ⟨l, (if_neg hs).trans hl, ?_⟩
    rw [if_neg, hls]
    rintro rfl
    exact hs (hknown s hls)

namespace Resolution

/-- What is known after the paths among `ts` were looked up. -/
structure Records (provider : Provider) (ts : List Token) (r : Resolution) : Prop where
  resolved : ∀ name p, Mentions ts name p → ∃ e, provider name = .ok e
  entities : ∀ name e, r.entities.find? name = some e ↔
    (∃ p, Mentions ts name p) ∧ provider name = .ok e
  names : ∀ k s, r.names.physical? k = some s ↔ ∃ name p e, Mentions ts name p ∧
    provider name = .ok e ∧ k = name ++ "." ++ p ∧ s = e.table ++ "." ++ e.columnOf p
  reverse : r.names.RoundTrips

variable {provider : Provider} {ts : List Token} {r : Resolution}

theorem replacement?_name {name : String} (h : '.' ∉ name.toList) :
    r.replacement? name = (r.entities.find? name).map (·.table) := by
  rw [replacement?, if_neg (by simpa using h)]

theorem Records.replacement?_eq_none (h : r.Records provider ts) {name : String}
    (hpoint : '.' ∉ name.toList) (hnot : ∀ p, ¬ Mentions ts name p) :
    r.replacement? name = none := by
  rw [replacement?_name hpoint, Option.map_eq_none_iff, Option.eq_none_iff_forall_ne_some]
  intro e he
  obtain ⟨⟨p, hp⟩, -⟩ := (h.entities name e).1 he
  exact hnot p hp

theorem Records.empty : Records provider [] {} := by
  refine ⟨fun _ _ h => absurd h not_mentions_nil, fun _ _ => iff_of_false nofun ?_,
    fun _ _ => iff_of_false nofun ?_, nofun⟩
  · rintro ⟨⟨_, h⟩, -⟩
    exact not_mentions_nil h
  · rintro ⟨_, _, _, h, -⟩
    exact not_mentions_nil h

/-- A known entity is not asked for again, which makes no difference. -/
theorem lookUp_eq {name : String} (h : ∀ e, r.entities.find? name = some e → provider name = .ok e)
    (property : String) : r.lookUp provider (name, property) = (provider name).map fun e =>
      ⟨r.names.insert (name ++ "." ++ property) (e.table ++ "." ++ e.columnOf property),
        r.entities.insert name e⟩ := by
  rw [lookUp]
  cases hfind : r.entities.find? name with
  | some e =>
    rw [h e hfind]
    rfl
  | none => cases provider name <;> rfl

theorem Records.lookUp_eq (h : r.Records provider ts) (name property : String) :
    r.lookUp provider (name, property) = (provider name).map fun e =>
      ⟨r.names.insert (name ++ "." ++ property) (e.table ++ "." ++ e.columnOf property),
        r.entities.insert name e⟩ :=
  Resolution.lookUp_eq (fun e he => ((h.entities name e).1 he).2) property

theorem Records.keep (h : r.Records provider ts) {t : Token}
    (ht : ∀ name p, ¬ t.IsQualified name p) : r.Records provider (ts ++ [t]) := by
  have hmentions (name p : String) : Mentions (ts ++ [t]) name p ↔ Mentions ts name p :=
    mentions_concat.trans (or_iff_left (ht name p))
  constructor
  · simpa only [hmentions] using h.resolved
  · simpa only [hmentions] using h.entities
  · simpa only [hmentions] using h.names
  · exact h.reverse

section

variable {t : Token} {name property : String} {e : Entity}

theorem Records.entities_insert (h : r.Records provider ts) (ht : t.IsQualified name property)
    (he : provider name = .ok e) (name' : String) (e' : Entity) :
    (r.entities.insert name e).find? name' = some e' ↔
      (∃ p, Mentions (ts ++ [t]) name' p) ∧ provider name' = .ok e' := by
  rw [Dictionary.find?_insert]
  simp only [ht.mentions_concat]
  by_cases hn : name' = name
  · subst hn
    rw [if_pos rfl]
    refine ⟨fun hs => ?_, fun ⟨_, he'⟩ => congrArg some (Except.ok.inj (he.symm.trans he'))⟩
    obtain rfl := Option.some.inj hs
    exact ⟨⟨property, Or.inr ⟨rfl, rfl⟩⟩, he⟩
  · rw [if_neg hn, h.entities]
    simp only [hn, false_and, or_false]

theorem Records.physical?_known (h : r.Records provider ts) (ht : t.IsQualified name property)
    (he : provider name = .ok e) {s : String}
    (hs : r.names.physical? (name ++ "." ++ property) = some s) :
    s = e.table ++ "." ++ e.columnOf property := by
  obtain ⟨name', p, e', hm, he', hk, rfl⟩ := (h.names _ _).1 hs
  obtain ⟨rfl, rfl⟩ := qualified_inj ht.entity hm.point hk
  rw [Except.ok.inj (he'.symm.trans he)]

theorem Records.names_insert (h : r.Records provider ts) (ht : t.IsQualified name property)
    (he : provider name = .ok e) (k s : String) :
    (r.names.insert (name ++ "." ++ property)
        (e.table ++ "." ++ e.columnOf property)).physical? k = some s ↔
      ∃ name' p e', Mentions (ts ++ [t]) name' p ∧ provider name' = .ok e' ∧
        k = name' ++ "." ++ p ∧ s = e'.table ++ "." ++ e'.columnOf p := by
  rw [NameTable.physical?_insert]
  by_cases hk : k = name ++ "." ++ property
  · rw [if_pos hk]
    constructor
    · intro hs
      obtain rfl := Option.some.inj hs
      exact ⟨name, property, e, ht.mentions_concat.2 (Or.inr ⟨rfl, rfl⟩), he, hk, rfl⟩
    · rintro ⟨name', p, e', hm, he', hk', rfl⟩
      obtain ⟨rfl, rfl⟩ := qualified_inj ht.entity hm.point (hk.symm.trans hk')
      rw [Except.ok.inj (he.symm.trans he')]
  · rw [if_neg hk, h.names]
    constructor
    · rintro ⟨name', p, e', hm, hrest⟩
      exact ⟨name', p, e', ht.mentions_concat.2 (Or.inl hm), hrest⟩
    · rintro ⟨name', p, e', hm, he', hk', hs⟩
      rcases ht.mentions_concat.1 hm with hm | ⟨rfl, rfl⟩
      · exact ⟨name', p, e', hm, he', hk', hs⟩
      · exact absurd hk' hk

theorem Records.insert (h : r.Records provider ts) (ht : t.IsQualified name property)
    (he : provider name = .ok e) :
    Records provider (ts ++ [t])
      ⟨r.names.insert (name ++ "." ++ property) (e.table ++ "." ++ e.columnOf property),
        r.entities.insert name e⟩ := by
  refine ⟨fun name' p hm => ?_, h.entities_insert ht he, h.names_insert ht he,
    h.reverse.insert fun s => h.physical?_known ht he⟩
  rcases ht.mentions_concat.1 hm with hm | ⟨rfl, -⟩
  · exact h.resolved name' p hm
  · exact ⟨e, he⟩

end

/-- Some path is not found, and all paths of two names in front of it are. -/
def FailsFirst (provider : Provider) (ts : List Token) (x : Error) : Prop :=
  ∃ before t after name property, ts = before ++ t :: after ∧
    (∀ name' p, Mentions before name' p → ∃ e, provider name' = .ok e) ∧
    t.IsQualified name property ∧ provider name = .error x

theorem FailsFirst.unique {x y : Error} (hx : FailsFirst provider ts x)
    (hy : FailsFirst provider ts y) : x = y := by
  obtain ⟨before, t, after, name, p, rfl, hbefore, ht, he⟩ := hx
  obtain ⟨before', t', after', name', p', hts, hbefore', ht', he'⟩ := hy
  have hnot {us : List Token} {u : Token} {n q : String} {z : Error}
      (hus : ∀ m s, Mentions us m s → ∃ e, provider m = .ok e) (hu : u.IsQualified n q)
      (hz : provider n = .error z) : u ∉ us := by
    intro hmem
    obtain ⟨e, hok⟩ := hus n q ⟨u, hmem, hu⟩
    rw [hz] at hok
    cases hok
  -- neither of the two paths stands in front of the other
  have hsame : t = t' := by
    rcases List.append_eq_append_iff.1 hts with ⟨us, hus, hrest⟩ | ⟨us, hus, hrest⟩
    · cases us with
      | nil => exact (List.cons.inj hrest).1
      | cons u us =>
        obtain ⟨rfl, -⟩ := List.cons.inj hrest
        exact absurd (by simp [hus]) (hnot hbefore' ht he)
    · cases us with
      | nil => exact (List.cons.inj hrest).1.symm
      | cons u us =>
        obtain ⟨rfl, -⟩ := List.cons.inj hrest
        exact absurd (by simp [hus]) (hnot hbefore ht' he')
  subst hsame
  obtain ⟨rfl, -⟩ := ht.unique ht'
  exact Except.error.inj (he.symm.trans he')

theorem FailsFirst.not_found {x : Error} (h : FailsFirst provider ts x) :
    ¬ ∀ name p, Mentions ts name p → ∃ e, provider name = .ok e := by
  obtain ⟨before, t, after, name, p, rfl, -, ht, he⟩ := h
  intro hall
  obtain ⟨e, hok⟩ := hall name p ⟨t, by simp, ht⟩
  rw [he] at hok
  cases hok

theorem FailsFirst.cons {t : Token} {us : List Token} {x : Error}
    (ht : ∀ name p, t.IsQualified name p → ∃ e, provider name = .ok e)
    (h : FailsFirst provider us x) : FailsFirst provider (t :: us) x := by
  obtain ⟨before, u, after, name, p, rfl, hbefore, hu, he⟩ := h
  refine ⟨t :: before, u, after, name, p, rfl, ?_, hu, he⟩
  rintro name' p' ⟨v, hv, hv'⟩
  rcases List.mem_cons.1 hv with rfl | hv
  · exact ht name' p' hv'
  · exact hbefore name' p' ⟨v, hv, hv'⟩

/-- All paths are recorded, or looking up the paths of `ts` failed at the first not to be found. -/
inductive Outcome (provider : Provider) (all ts : List Token) : Except Error Resolution → Prop
  | ok {r : Resolution} (h : r.Records provider all) : Outcome provider all ts (.ok r)
  | error {x : Error} (h : FailsFirst provider ts x) : Outcome provider all ts (.error x)

theorem Outcome.cons {all : List Token} {t : Token} {y : Except Error Resolution}
    (ht : ∀ name p, t.IsQualified name p → ∃ e, provider name = .ok e)
    (h : Outcome provider all ts y) : Outcome provider all (t :: ts) y := by
  cases h with
  | ok h => exact .ok h
  | error h => exact .error (h.cons ht)

theorem Records.run (h : r.Records provider ts) (us : List Token) :
    Outcome provider (ts ++ us) us
      ((us.filterMap Token.names?).foldlM (Resolution.lookUp provider) r) := by
  induction us generalizing ts r with
  | nil =>
    rw [List.append_nil]
    exact .ok h
  | cons t us ih =>
    rw [List.append_cons]
    cases hq : t.names? with
    | none =>
      have hnot (name p : String) : ¬ t.IsQualified name p := fun ht => by
        rw [Token.IsQualified.iff_names?.2 ht] at hq
        cases hq
      rw [List.filterMap_cons_none hq]
      exact (ih (h.keep hnot)).cons fun name p ht => absurd ht (hnot name p)
    | some path =>
      obtain ⟨name, property⟩ := path
      have ht := Token.IsQualified.iff_names?.1 hq
      rw [List.filterMap_cons_some hq, List.foldlM_cons, h.lookUp_eq]
      cases he : provider name with
      | error x =>
        exact .error ⟨[], t, us, name, property, rfl,
          fun _ _ hm => absurd hm not_mentions_nil, ht, he⟩
      | ok e =>
        refine (ih (h.insert ht he)).cons fun name' p ht' => ?_
        obtain ⟨rfl, -⟩ := ht.unique ht'
        exact ⟨e, he⟩

theorem outcome_ofSql (provider : Provider) (sql : String) :
    Outcome provider (tokenize sql) (tokenize sql) (ofSql provider sql) :=
  Records.empty.run (tokenize sql)

theorem records_of_ofSql {sql : String} (h : ofSql provider sql = .ok r) :
    r.Records provider (tokenize sql) := by
  have houtcome := outcome_ofSql provider sql
  rw [h] at houtcome
  cases houtcome with
  | ok h => exact h

theorem exists_ofSql {sql : String}
    (h : ∀ name p, Mentions (tokenize sql) name p → ∃ e, provider name = .ok e) :
    ∃ r, ofSql provider sql = .ok r := by
  have houtcome := outcome_ofSql provider sql
  cases hr : ofSql provider sql with
  | ok r => exact ⟨r, rfl⟩
  | error x =>
    rw [hr] at houtcome
    cases houtcome with
    | error hfirst => exact absurd h hfirst.not_found

/-- What stands for a token in the text in tables and columns. -/
inductive Translates (provider : Provider) (ts : List Token) : Bool → Token → String → Prop
  | other {aliased : Bool} {t : Token} (hk : t.kind ≠ .path) :
    Translates provider ts aliased t t.text
  | aliasName {t : Token} (hk : t.kind = .path) : Translates provider ts true t t.text
  | keyword {t : Token} (has : t.isAs = true) : Translates provider ts false t t.text
  | column {t : Token} {name property : String} {e : Entity} (ht : t.IsQualified name property)
    (he : provider name = .ok e) :
    Translates provider ts false t (e.table ++ "." ++ e.columnOf property)
  | table {t : Token} {property : String} {e : Entity} (hk : t.kind = .path) (has : t.isAs = false)
    (hm : Mentions ts t.text property) (he : provider t.text = .ok e) :
    Translates provider ts false t e.table
  | name {t : Token} (hk : t.kind = .path) (hpoint : '.' ∉ t.chars)
    (hm : ∀ property, ¬ Mentions ts t.text property) : Translates provider ts false t t.text
  | long {t : Token} (hk : t.kind = .path) (hpoints : 2 ≤ t.chars.count '.') :
    Translates provider ts false t t.text

theorem not_isAs_of_point {t : Token} (h : '.' ∈ t.chars) : t.isAs = false :=
  Bool.and_eq_false_iff.2 (Or.inr (isAsWord_of_point h))

theorem Translates.unique {aliased : Bool} {t : Token} {u v : String}
    (hu : Translates provider ts aliased t u) (hv : Translates provider ts aliased t v) :
    u = v := by
  have hcolumn {name property : String} (ht : t.IsQualified name property) :
      t.isAs = false ∧ '.' ∈ t.chars := by
    have hmem : '.' ∈ t.chars := List.count_pos_iff.1 (by rw [ht.count_point]; exact Nat.one_pos)
    exact ⟨not_isAs_of_point hmem, hmem⟩
  have htable {property : String} (hm : Mentions ts t.text property) : '.' ∉ t.chars := by
    have hpoint := hm.point
    rwa [Token.text, String.toList_ofList] at hpoint
  cases hu with
  | other hk => cases hv with
    | column ht => exact absurd ht.path hk
    | table hk' => exact absurd hk' hk
    | _ => rfl
  | aliasName hk => cases hv with
    | _ => rfl
  | keyword has => cases hv with
    | column ht => rw [(hcolumn ht).1] at has; cases has
    | table hk has' => rw [has'] at has; cases has
    | _ => rfl
  | column ht he => cases hv with
    | other hk => exact absurd ht.path hk
    | keyword has => rw [(hcolumn ht).1] at has; cases has
    | column ht' he' =>
      obtain ⟨rfl, rfl⟩ := ht.unique ht'
      rw [Except.ok.inj (he.symm.trans he')]
    | table hk has hm he' => exact absurd (hcolumn ht).2 (htable hm)
    | name hk hpoint hm => exact absurd (hcolumn ht).2 hpoint
    | long hk hpoints => rw [ht.count_point] at hpoints; omega
  | table hk has hm he => cases hv with
    | other hk' => exact absurd hk hk'
    | keyword has' => rw [has] at has'; cases has'
    | column ht he' => exact absurd (hcolumn ht).2 (htable hm)
    | table hk' has' hm' he' => rw [Except.ok.inj (he.symm.trans he')]
    | name hk' hpoint hm' => exact absurd hm (hm' _)
    | long hk' hpoints =>
      rw [List.count_eq_zero_of_not_mem (htable hm)] at hpoints
      omega
  | name hk hpoint hm => cases hv with
    | column ht he => exact absurd (hcolumn ht).2 hpoint
    | table hk' has hm' => exact absurd hm' (hm _)
    | _ => rfl
  | long hk hpoints => cases hv with
    | column ht he => rw [ht.count_point] at hpoints; omega
    | table hk' has hm =>
      rw [List.count_eq_zero_of_not_mem (htable hm)] at hpoints
      omega
    | _ => rfl

theorem text_replaceReference (f : String → Option String) (t : Token) :
    (replaceReference f (true, t)).text = (f t.text).getD t.text := by
  rw [replaceReference]
  cases f t.text with
  | none => rfl
  | some s => exact String.ofList_toList

/-- The record of all paths replaces each reference by what stands for it. -/
theorem Records.translates_reference (h : r.Records provider ts) {t : Token} (hmem : t ∈ ts)
    (hk : t.kind = .path) (has : t.isAs = false) :
    Translates provider ts false t ((r.replacement? t.text).getD t.text) := by
  rw [replacement?, Token.text, String.toList_ofList, List.contains_eq_mem, ← Token.text]
  by_cases hpoint : '.' ∈ t.chars
  · rw [if_pos (decide_eq_true hpoint)]
    cases hq : t.names? with
    | some path =>
      obtain ⟨name, property⟩ := path
      have ht := Token.IsQualified.iff_names?.1 hq
      obtain ⟨e, he⟩ := h.resolved name property ⟨t, hmem, ht⟩
      rw [(h.names _ _).2 ⟨name, property, e, ⟨t, hmem, ht⟩, he, ht.text, rfl⟩]
      exact .column ht he
    | none =>
      have hnone : r.names.physical? t.text = none := by
        refine Option.eq_none_iff_forall_ne_some.2 fun s hs => ?_
        obtain ⟨name, property, e, ⟨u, -, hu⟩, -, htext, -⟩ := (h.names _ _).1 hs
        rw [Token.IsQualified.iff_names?.2 ⟨hk, htext, hu.entity, hu.property⟩] at hq
        cases hq
      rw [Token.names?, if_pos hk] at hq
      rw [hnone]
      exact .long hk (two_le_count_point hpoint hq)
  · rw [if_neg (by simpa using hpoint)]
    cases hf : r.entities.find? t.text with
    | some e =>
      obtain ⟨⟨property, hm⟩, he⟩ := (h.entities _ _).1 hf
      exact .table hk has hm he
    | none =>
      refine .name hk hpoint fun property hm => ?_
      obtain ⟨e, he⟩ := h.resolved _ property hm
      rw [(h.entities _ _).2 ⟨⟨property, hm⟩, he⟩] at hf
      cases hf

theorem Records.translates (h : r.Records provider ts) {t : Token} (hmem : t ∈ ts)
    (aliased : Bool) : Translates provider ts aliased t
      (replaceReference r.replacement? (t.kind == .path && !aliased && !t.isAs, t)).text := by
  by_cases hk : t.kind = .path
  case neg =>
    rw [beq_false_of_ne hk]
    exact .other hk
  rw [beq_iff_eq.2 hk]
  cases aliased with
  | true => exact .aliasName hk
  | false =>
    cases has : t.isAs with
    | true => exact .keyword has
    | false =>
      rw [show (true && !false && !false) = true from rfl, text_replaceReference]
      exact h.translates_reference hmem hk has

/-- The text is translated token by token, the table has exactly the paths of two names, and its
physical names have their ways back. -/
structure IsExact (provider : Provider) (sql : String) (r : Resolution) : Prop where
  text : ∃ us : List String, r.resolve sql = String.join us ∧
    us.length = (tokenize sql).length ∧
    ∀ i t u, (tokenize sql)[i]? = some t → us[i]? = some u →
      Translates provider (tokenize sql) (behindAs ((tokenize sql).take i).reverse) t u
  names : ∀ k s, r.names.physical? k = some s ↔ ∃ name p e, Mentions (tokenize sql) name p ∧
    provider name = .ok e ∧ k = name ++ "." ++ p ∧ s = e.table ++ "." ++ e.columnOf p
  reverse : r.names.RoundTrips

theorem Records.isExact {sql : String} (h : r.Records provider (tokenize sql)) :
    r.IsExact provider sql := by
  refine ⟨⟨(markReferences false (tokenize sql)).map fun m =>
    (replaceReference r.replacement? m).text, ?_, ?_, fun i t u ht hu => ?_⟩, h.names, h.reverse⟩
  · apply String.toList_inj.1
    rw [resolve, Sql.resolve, String.toList_ofList, String.toList_join, concat, List.flatMap_map,
      List.flatMap_map]
    simp only [Token.text, String.toList_ofList]
  · rw [List.length_map, length_markReferences]
  · rw [List.getElem?_map, getElem?_markReferences, ht] at hu
    obtain rfl := Option.some.inj hu
    obtain ⟨hi, rfl⟩ := List.getElem?_eq_some_iff.1 ht
    have hsplit := (List.take_append_drop i (tokenize sql)).symm
    rw [List.drop_eq_getElem_cons hi] at hsplit
    beta_reduce
    rw [isReference_eq hsplit]
    exact h.translates (List.getElem_mem hi) _

/-- Looking up the paths of a text succeeds exactly if all their entities are found, and fails with
the error of the first that is not. -/
theorem ofSql_exact (provider : Provider) (sql : String) :
    ((∃ r, ofSql provider sql = .ok r) ↔
      ∀ name p, Mentions (tokenize sql) name p → ∃ e, provider name = .ok e) ∧
    (∀ x, ofSql provider sql = .error x ↔ FailsFirst provider (tokenize sql) x) ∧
    ∀ r, ofSql provider sql = .ok r → r.IsExact provider sql := by
  have houtcome := outcome_ofSql provider sql
  cases hr : ofSql provider sql with
  | ok r =>
    rw [hr] at houtcome
    cases houtcome with
    | ok h =>
      refine ⟨iff_of_true ⟨r, rfl⟩ h.resolved, fun x => ?_, fun r' hr' => ?_⟩
      · exact iff_of_false nofun fun hfirst => hfirst.not_found h.resolved
      · obtain rfl := Except.ok.inj hr'
        exact h.isExact
  | error x =>
    rw [hr] at houtcome
    cases houtcome with
    | error h =>
      refine ⟨iff_of_false nofun h.not_found, fun y => ⟨fun hy => ?_, fun hy => ?_⟩, nofun⟩
      · obtain rfl := Except.error.inj hy
        exact h
      · rw [h.unique hy]

end Resolution

/-- A text with an alias that looks like a path, a longer path and a literal. -/
def joinText : String :=
  "SELECT User.id AS User.name, x.User.id FROM User WHERE User.age = 'User.id'"

def joinTextInColumns : String :=
  "SELECT t_user.user_id AS User.name, x.User.id FROM t_user WHERE t_user.age = 'User.id'"

theorem isExact_joinText :
    ∃ r, Resolution.ofSql (Registry.ofList [userEntity]).resolve joinText = .ok r ∧
      r.IsExact (Registry.ofList [userEntity]).resolve joinText ∧
      r.resolve joinText = joinTextInColumns := by
  have htext : (Resolution.ofSql (Registry.ofList [userEntity]).resolve joinText).toOption.map
      (·.resolve joinText) = some joinTextInColumns := by
    decide +kernel
  cases hr : Resolution.ofSql (Registry.ofList [userEntity]).resolve joinText with
  | error x => rw [hr] at htext; cases htext
  | ok r =>
    rw [hr] at htext
    exact ⟨r, rfl, (Resolution.ofSql_exact _ joinText).2.2 r hr, Option.some.inj htext⟩

end FilterSql
