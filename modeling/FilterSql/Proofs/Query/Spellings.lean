import FilterSql.Expression
import FilterSql.Proofs.Sql.Lexing
import Mathlib.Data.List.TakeWhile
/-!
# Spellings of expressions

An expression of names is spelled with an arrow or a point in its reference and with one of two
marks in front of its alias. Reading takes apart what is such a spelling and nothing else. It is
ambiguous in one place only: behind a point, a property `as` with an alias behind `.as.` looks like
the start of the alias, so this spelling is refused. With an arrow every expression can be written.
-/
namespace FilterSql

open Sql

def EndsName (r : List Char) : Prop := ∀ c t, r = c :: t → isNameChar c = false

theorem EndsName.nil : EndsName [] := nofun

theorem EndsName.cons {c : Char} (h : isNameChar c = false) (r : List Char) :
    EndsName (c :: r) := by
  rintro d t hd
  obtain ⟨rfl, -⟩ := List.cons.inj hd
  exact h

theorem takeName?_append {n r : List Char} (hn : isName n = true) (hr : EndsName r) :
    takeName? (n ++ r) = some (n, r) := by
  obtain ⟨c, s, rfl, hc, hs⟩ := isName_cases hn
  obtain ⟨htake, hdrop⟩ := takeWhile_append_of_head hr s
  have hall : ∀ d ∈ s, isNameChar d = true := List.all_eq_true.1 hs
  rw [List.cons_append, takeName?, if_pos hc, htake, hdrop, List.takeWhile_eq_self_iff.2 hall,
    List.dropWhile_eq_nil_iff.2 hall, List.nil_append]

theorem takeName?_eq_some {s n r : List Char} :
    takeName? s = some (n, r) ↔ s = n ++ r ∧ isName n = true ∧ EndsName r := by
  refine ⟨fun h => ?_, fun ⟨hs, hn, hr⟩ => hs ▸ takeName?_append hn hr⟩
  fun_cases takeName? s with
  | case1 c s hc =>
    rw [takeName?, if_pos hc] at h
    obtain ⟨rfl, rfl⟩ := Prod.mk.inj (Option.some.inj h)
    refine ⟨?_, ?_, fun d t hd => ?_⟩
    · rw [List.cons_append, List.takeWhile_append_dropWhile]
    · rw [isName, hc, List.all_takeWhile]
      rfl
    · have hstop := List.head?_dropWhile_not isNameChar s
      rw [hd] at hstop
      simpa using hstop
  | case2 c s hc => rw [takeName?, if_neg hc] at h; cases h
  | case3 => cases h

namespace Expression

/-- What stands between the entity and the property of a reference. -/
inductive Link where
  | arrow
  | point
  deriving DecidableEq

def Link.text : Link → String
  | .arrow => "->"
  | .point => "."

/-- What stands in front of an alias. -/
inductive AliasMark where
  | dotted
  | colon
  deriving DecidableEq

def AliasMark.text : AliasMark → String
  | .dotted => ".as."
  | .colon => ":"

def linked (x : Expression) (link : Link) : String :=
  match x.entity with
  | some e => e ++ link.text ++ x.property
  | none => x.property

/-- The expression as it is spelled with this link and this mark, where it has a use for them. -/
def spelling (x : Expression) (link : Link) (mark : AliasMark) : String :=
  (match x.function with
    | some f => f ++ "[" ++ x.linked link ++ "]"
    | none => x.linked link) ++
  (match x.aliasName with
    | some a => mark.text ++ a
    | none => "")

structure IsNamed (x : Expression) : Prop where
  function : ∀ f, x.function = some f → isName f.toList = true
  entity : ∀ e, x.entity = some e → isName e.toList = true
  property : isName x.property.toList = true
  aliasName : ∀ a, x.aliasName = some a → isName a.toList = true

/-- A property `as` behind a point and in front of `.as.`, which looks like the alias. -/
structure IsHidden (x : Expression) (link : Link) (mark : AliasMark) : Prop where
  function : x.function = none
  entity : x.entity.isSome
  link : link = .point
  property : x.property = "as"
  aliasName : x.aliasName.isSome
  mark : mark = .dotted

def AreNames (reference : List Char × Option (List Char)) : Prop :=
  isName reference.1 = true ∧ ∀ n, reference.2 = some n → isName n = true

def secondChars (link : Link) : Option (List Char) → List Char
  | some n => link.text.toList ++ n
  | none => []

def referenceChars (link : Link) (reference : List Char × Option (List Char)) : List Char :=
  reference.1 ++ secondChars link reference.2

def bodyChars (link : Link) : Option (List Char) → List Char × Option (List Char) → List Char
  | some f, reference => f ++ '[' :: (referenceChars link reference ++ [']'])
  | none, reference => referenceChars link reference

def aliasChars (mark : AliasMark) : Option (List Char) → List Char
  | some a => mark.text.toList ++ a
  | none => []

def ofParts (function : Option (List Char)) (reference : List Char × Option (List Char))
    (aliasName : Option (List Char)) : Expression where
  function := function.map String.ofList
  entity := reference.2.map fun _ => String.ofList reference.1
  property := String.ofList (reference.2.getD reference.1)
  aliasName := aliasName.map String.ofList

theorem exists_parts (x : Expression) : ∃ f reference a, x = ofParts f reference a := by
  obtain ⟨f, e, p, a⟩ := x
  have hnames (o : Option String) : (o.map String.toList).map String.ofList = o := by
    cases o <;> simp
  refine ⟨f.map String.toList, match e with
    | some e => (e.toList, some p.toList)
    | none => (p.toList, none), a.map String.toList, ?_⟩
  cases e <;> simp [ofParts, hnames]

variable {f a : Option (List Char)} {reference : List Char × Option (List Char)} {link : Link}
  {mark : AliasMark}

theorem toList_spelling_ofParts : ((ofParts f reference a).spelling link mark).toList =
    bodyChars link f reference ++ aliasChars mark a := by
  obtain ⟨n, b⟩ := reference
  have hlinked : ((ofParts f (n, b) a).linked link).toList = referenceChars link (n, b) := by
    cases b <;> simp [ofParts, linked, referenceChars, secondChars]
  have halias : (match (ofParts f (n, b) a).aliasName with
      | some a => mark.text ++ a
      | none => "").toList = aliasChars mark a := by
    cases a <;> simp [ofParts, aliasChars]
  rw [spelling, String.toList_append, halias]
  congr 1
  cases f with
  | none => exact hlinked
  | some g =>
    change (String.ofList g ++ "[" ++ (ofParts (some g) (n, b) a).linked link ++ "]").toList = _
    simp [bodyChars, hlinked]

theorem isNamed_ofParts_iff : (ofParts f reference a).IsNamed ↔
    (∀ n, f = some n → isName n = true) ∧ AreNames reference ∧
      ∀ n, a = some n → isName n = true := by
  have hnames (o : Option (List Char)) : (∀ n, o.map String.ofList = some n →
      isName n.toList = true) ↔ ∀ n, o = some n → isName n = true := by
    cases o <;> simp
  constructor
  · rintro ⟨hf, he, hp, ha⟩
    refine ⟨(hnames f).1 hf, ?_, (hnames a).1 ha⟩
    obtain ⟨n, b⟩ := reference
    cases b with
    | none => exact ⟨by simpa [ofParts] using hp, nofun⟩
    | some b => exact ⟨by simpa [ofParts] using he, by simpa [ofParts] using hp⟩
  · rintro ⟨hf, ⟨hn, hb⟩, ha⟩
    obtain ⟨n, b⟩ := reference
    refine ⟨(hnames f).2 hf, fun e he => ?_, ?_, (hnames a).2 ha⟩
    · obtain ⟨_, -, rfl⟩ := Option.map_eq_some_iff.1 he
      simpa using hn
    · cases b with
      | none => simpa [ofParts] using hn
      | some b => simpa [ofParts] using hb

variable {s r : List Char}

theorem takeSecond_spelled (s : List Char) :
    (∀ n, (takeSecond s).1 = some n → isName n = true) ∧
      ∃ link, s = secondChars link (takeSecond s).1 ++ (takeSecond s).2 := by
  fun_cases takeSecond s with
  | case2 s n r h =>
    obtain ⟨rfl, hn, -⟩ := takeName?_eq_some.1 h
    exact ⟨by rintro _ ⟨⟩; exact hn, .arrow, rfl⟩
  | case4 s _ n r h =>
    obtain ⟨rfl, hn, -⟩ := takeName?_eq_some.1 h
    exact ⟨by rintro _ ⟨⟩; exact hn, .point, rfl⟩
  | case1 | case3 | case5 | case6 => exact ⟨nofun, .arrow, rfl⟩

theorem takeReference?_spelled (h : takeReference? s = some (reference, r)) :
    AreNames reference ∧ ∃ link, s = referenceChars link reference ++ r := by
  rw [takeReference?, Option.bind_eq_bind, Option.bind_eq_some_iff] at h
  obtain ⟨⟨first, t⟩, hfirst, h⟩ := h
  obtain ⟨rfl, rfl⟩ := Prod.mk.inj (Option.some.inj h)
  obtain ⟨rfl, hn, -⟩ := takeName?_eq_some.1 hfirst
  obtain ⟨hsecond, link, hlink⟩ := takeSecond_spelled t
  exact ⟨⟨hn, hsecond⟩, link,
    (congrArg (first ++ ·) hlink).trans (List.append_assoc ..).symm⟩

theorem takeCall?_spelled {g : List Char} (h : takeCall? s = some ((g, reference), r)) :
    isName g = true ∧ AreNames reference ∧
      ∃ link, s = bodyChars link (some g) reference ++ r := by
  rw [takeCall?, Option.bind_eq_bind, Option.bind_eq_some_iff] at h
  obtain ⟨⟨g', t⟩, hg, h⟩ := h
  obtain ⟨rfl, hname, -⟩ := takeName?_eq_some.1 hg
  dsimp only at h
  split at h
  next u =>
    rw [Option.bind_eq_bind, Option.bind_some, Option.bind_eq_bind, Option.bind_eq_some_iff] at h
    obtain ⟨⟨reference', v⟩, href, h⟩ := h
    dsimp only at h
    split at h
    next v =>
      obtain ⟨hparts, rfl⟩ := Prod.mk.inj (Option.some.inj h)
      obtain ⟨rfl, rfl⟩ := Prod.mk.inj hparts
      obtain ⟨hnames, link, rfl⟩ := takeReference?_spelled href
      exact ⟨hname, hnames, link, by simp [bodyChars]⟩
    next => cases h
  next => cases h

theorem takeBody?_spelled (h : takeBody? s = some ((f, reference), r)) :
    (∀ n, f = some n → isName n = true) ∧ AreNames reference ∧
      ∃ link, s = bodyChars link f reference ++ r := by
  rw [takeBody?] at h
  split at h
  next g reference' t hcall =>
    obtain ⟨hparts, rfl⟩ := Prod.mk.inj (Option.some.inj h)
    obtain ⟨rfl, rfl⟩ := Prod.mk.inj hparts
    obtain ⟨hg, hnames, hlink⟩ := takeCall?_spelled hcall
    exact ⟨by rintro _ ⟨⟩; exact hg, hnames, hlink⟩
  next =>
    obtain ⟨⟨reference', t⟩, href, h⟩ := Option.map_eq_some_iff.1 h
    obtain ⟨hparts, rfl⟩ := Prod.mk.inj h
    obtain ⟨rfl, rfl⟩ := Prod.mk.inj hparts
    exact ⟨nofun, takeReference?_spelled href⟩

theorem readAlias?_spelled (h : readAlias? s = some a) :
    (∀ n, a = some n → isName n = true) ∧ ∃ mark, s = aliasChars mark a := by
  revert h
  fun_cases readAlias? s with
  | case1 =>
    rintro ⟨⟩
    exact ⟨nofun, .colon, rfl⟩
  | case2 s n h =>
    rintro ⟨⟩
    obtain ⟨rfl, hn, -⟩ := takeName?_eq_some.1 h
    exact ⟨by rintro _ ⟨⟩; exact hn, .dotted, by simp [aliasChars, AliasMark.text]⟩
  | case4 s n h =>
    rintro ⟨⟩
    obtain ⟨rfl, hn, -⟩ := takeName?_eq_some.1 h
    exact ⟨by rintro _ ⟨⟩; exact hn, .colon, by simp [aliasChars, AliasMark.text]⟩
  | case3 | case5 | case6 => exact nofun

theorem ofChars?_eq (s : List Char) : ofChars? s = (takeBody? s).bind fun body =>
    (readAlias? body.2).map fun a => ofParts body.1.1 body.1.2 a := by
  rw [ofChars?]
  cases takeBody? s with
  | none => rfl
  | some body => cases h : readAlias? body.2 <;> simp [h, ofParts]

theorem parse_eq_ok_iff {s : String} {x : Expression} :
    parse s = .ok x ↔ ofChars? s.toList = some x := by
  rw [parse]
  cases ofChars? s.toList <;> simp

/-- An accepted text is a spelling of the expression, and all of its parts are names. -/
theorem spelled_of_parse {s : String} {x : Expression} (h : parse s = .ok x) :
    x.IsNamed ∧ ∃ link mark, s = x.spelling link mark := by
  rw [parse_eq_ok_iff, ofChars?_eq, Option.bind_eq_some_iff] at h
  obtain ⟨⟨⟨f, reference⟩, t⟩, hbody, h⟩ := h
  obtain ⟨a, halias, rfl⟩ := Option.map_eq_some_iff.1 h
  obtain ⟨hf, hnames, link, hs⟩ := takeBody?_spelled hbody
  obtain ⟨ha, mark, rfl⟩ := readAlias?_spelled halias
  exact ⟨isNamed_ofParts_iff.2 ⟨hf, hnames, ha⟩, link, mark,
    String.toList_inj.1 (hs.trans toList_spelling_ofParts.symm)⟩

/-- What may stand behind a reference: nothing, a bracket, or the mark of an alias. -/
inductive EndsReference : List Char → Prop
  | nil : EndsReference []
  | bracket (r : List Char) : EndsReference (']' :: r)
  | colon (r : List Char) : EndsReference (':' :: r)
  | dotted (r : List Char) : EndsReference ('.' :: 'a' :: 's' :: '.' :: r)

namespace EndsReference

theorem endsName (h : EndsReference r) : EndsName r := by
  cases h with
  | nil => exact .nil
  | bracket | colon | dotted => exact .cons (by decide) _

theorem takeSecond (h : EndsReference r) : takeSecond r = (none, r) := by
  cases h <;> rfl

theorem aliasChars (mark : AliasMark) (a : Option (List Char)) :
    EndsReference (aliasChars mark a) := by
  cases a with
  | none => exact .nil
  | some a => cases mark with
    | dotted => exact .dotted a
    | colon => exact .colon a

end EndsReference

theorem takeSecond_arrow {n : List Char} (hn : isName n = true) (hr : EndsName r) :
    takeSecond ('-' :: '>' :: (n ++ r)) = (some n, r) := by
  rw [takeSecond, takeName?_append hn hr]

theorem takeSecond_point {n : List Char} (hn : isName n = true) (hr : EndsName r)
    (has : n = ['a', 's'] → ∀ t, r ≠ '.' :: t) : takeSecond ('.' :: (n ++ r)) = (some n, r) := by
  have hread := takeName?_append hn hr
  rw [takeSecond, hread]
  -- a name `as` in front of a point would be the mark of an alias
  rintro t ht
  have hmark : takeName? (['a', 's'] ++ '.' :: t) = some (['a', 's'], '.' :: t) :=
    takeName?_append (by decide) (.cons (by decide) t)
  rw [ht] at hread
  obtain ⟨hn', hr'⟩ := Prod.mk.inj (Option.some.inj (hread.symm.trans hmark))
  exact has hn' t hr'

theorem endsName_secondChars (link : Link) (b : Option (List Char)) (hr : EndsReference r) :
    EndsName (secondChars link b ++ r) := by
  cases b with
  | none => exact hr.endsName
  | some b => cases link <;> exact .cons (by decide) _

theorem takeReference?_referenceChars (hnames : AreNames reference) (hr : EndsReference r)
    (has : link = .point → reference.2 = some ['a', 's'] → ∀ t, r ≠ '.' :: t) :
    takeReference? (referenceChars link reference ++ r) = some (reference, r) := by
  obtain ⟨n, b⟩ := reference
  obtain ⟨hn, hb⟩ := hnames
  have hsecond : takeSecond (secondChars link b ++ r) = (b, r) := by
    cases b with
    | none => exact hr.takeSecond
    | some b => cases link with
      | arrow => exact takeSecond_arrow (hb b rfl) hr.endsName
      | point => exact takeSecond_point (hb b rfl) hr.endsName fun h => has rfl (congrArg some h)
  rw [referenceChars, List.append_assoc, takeReference?,
    takeName?_append hn (endsName_secondChars link b hr), Option.bind_eq_bind, Option.bind_some]
  dsimp only
  rw [hsecond]

theorem takeCall?_call {g : List Char} (hg : isName g = true) (hnames : AreNames reference)
    (link : Link) (r : List Char) :
    takeCall? (bodyChars link (some g) reference ++ r) = some ((g, reference), r) := by
  have htext : bodyChars link (some g) reference ++ r =
      g ++ '[' :: (referenceChars link reference ++ ']' :: r) := by
    simp [bodyChars]
  have hread : takeReference? (referenceChars link reference ++ ']' :: r) =
      some (reference, ']' :: r) :=
    takeReference?_referenceChars hnames (.bracket r) fun _ _ t h => by cases h
  rw [htext, takeCall?, takeName?_append hg (.cons (by decide) _)]
  change (takeReference? (referenceChars link reference ++ ']' :: r)).bind _ = _
  rw [hread]
  rfl

/-- A reference is not taken for the name of a function. -/
theorem takeCall?_reference (hnames : AreNames reference) (hr : EndsReference r) (link : Link) :
    takeCall? (referenceChars link reference ++ r) = none := by
  obtain ⟨n, b⟩ := reference
  have hbracket (t : List Char) : secondChars link b ++ r ≠ '[' :: t := by
    cases b with
    | none => cases hr <;> nofun
    | some b => cases link <;> nofun
  rw [referenceChars, List.append_assoc, takeCall?,
    takeName?_append hnames.1 (endsName_secondChars link b hr), Option.bind_eq_bind,
    Option.bind_some]
  dsimp only
  split
  next t h => exact absurd h (hbracket t)
  next => rfl

theorem takeBody?_bodyChars (hf : ∀ n, f = some n → isName n = true) (hnames : AreNames reference)
    (hr : EndsReference r) (has : f = none → link = .point → reference.2 = some ['a', 's'] →
      ∀ t, r ≠ '.' :: t) :
    takeBody? (bodyChars link f reference ++ r) = some ((f, reference), r) := by
  rw [takeBody?]
  cases f with
  | some g => rw [takeCall?_call (hf g rfl) hnames]
  | none =>
    rw [bodyChars, takeCall?_reference hnames hr, takeReference?_referenceChars hnames hr (has rfl)]
    rfl

theorem readAlias?_aliasChars (ha : ∀ n, a = some n → isName n = true) (mark : AliasMark) :
    readAlias? (aliasChars mark a) = some a := by
  cases a with
  | none => rfl
  | some n =>
    have hread := takeName?_append (ha n rfl) .nil
    rw [List.append_nil] at hread
    cases mark <;> simp [aliasChars, AliasMark.text, readAlias?, hread]

theorem isHidden_ofParts_iff : (ofParts f reference a).IsHidden link mark ↔ f = none ∧
    link = .point ∧ reference.2 = some ['a', 's'] ∧ a.isSome ∧ mark = .dotted := by
  obtain ⟨n, b⟩ := reference
  have hname (s : List Char) : String.ofList s = "as" ↔ s = ['a', 's'] := by
    rw [← String.toList_inj, String.toList_ofList]
    rfl
  constructor
  · rintro ⟨hf, he, rfl, hp, ha, rfl⟩
    cases b with
    | none => cases he
    | some b => exact ⟨Option.map_eq_none_iff.1 hf, rfl, congrArg some ((hname b).1 hp),
        by simpa [ofParts] using ha, rfl⟩
  · rintro ⟨rfl, rfl, rfl, ha, rfl⟩
    exact ⟨rfl, rfl, rfl, rfl, by simpa [ofParts] using ha, rfl⟩

theorem parse_spelling {x : Expression} (hx : x.IsNamed) (hhidden : ¬ x.IsHidden link mark) :
    parse (x.spelling link mark) = .ok x := by
  obtain ⟨f, reference, a, rfl⟩ := x.exists_parts
  obtain ⟨hf, hnames, ha⟩ := isNamed_ofParts_iff.1 hx
  have hbody : takeBody? (bodyChars link f reference ++ aliasChars mark a) =
      some ((f, reference), aliasChars mark a) := by
    refine takeBody?_bodyChars hf hnames (.aliasChars mark a) fun hnone hlink has t ht => ?_
    refine hhidden (isHidden_ofParts_iff.2 ⟨hnone, hlink, has, ?_⟩)
    cases a with
    | none => cases ht
    | some a => cases mark with
      | dotted => exact ⟨rfl, rfl⟩
      | colon => cases ht
  rw [parse_eq_ok_iff, toList_spelling_ofParts, ofChars?_eq, hbody, Option.bind_some,
    readAlias?_aliasChars ha]
  rfl

theorem parse_hidden {x : Expression} (hx : x.IsNamed) (hhidden : x.IsHidden link mark) :
    parse (x.spelling link mark) = .error (.malformedExpression (x.spelling link mark)) := by
  obtain ⟨f, reference, a, rfl⟩ := x.exists_parts
  obtain ⟨hf, hnames, ha⟩ := isNamed_ofParts_iff.1 hx
  obtain ⟨rfl, rfl, has, hsome, rfl⟩ := isHidden_ofParts_iff.1 hhidden
  obtain ⟨n, b⟩ := reference
  obtain ⟨a, rfl⟩ := Option.isSome_iff_exists.1 hsome
  obtain rfl : b = some ['a', 's'] := has
  -- the property is read as the mark, and then the alias is `as` with more behind it
  have htext : ((ofParts none (n, some ['a', 's']) (some a)).spelling .point .dotted).toList =
      bodyChars .point none (n, none) ++ '.' :: 'a' :: 's' :: '.' :: ("as".toList ++ '.' :: a) := by
    rw [toList_spelling_ofParts]
    simp [bodyChars, referenceChars, secondChars, aliasChars, Link.text, AliasMark.text]
  have hbody : takeBody? (bodyChars .point none (n, none) ++
      '.' :: 'a' :: 's' :: '.' :: ("as".toList ++ '.' :: a)) = some ((none, n, none), _) :=
    takeBody?_bodyChars nofun ⟨hnames.1, nofun⟩ (.dotted _) nofun
  have halias : readAlias? ('.' :: 'a' :: 's' :: '.' :: ("as".toList ++ '.' :: a)) = none := by
    rw [readAlias?, takeName?_append (by decide) (.cons (by decide) a)]
  rw [parse, htext, ofChars?_eq, hbody, Option.bind_some, halias]
  rfl

/-- Whatever is accepted is a spelling of the expression, which is made of names and written from
nothing but them, a point, parentheses and `AS`. Conversely every spelling with an arrow is accepted
for the expression that it spells, and so is every spelling with a point but the one that has a
property `as` in front of an alias behind `.as.` and outside of a function. -/
theorem parse_exact :
    (∀ s x, parse s = .ok x →
      x.IsNamed ∧ (∃ link mark, s = x.spelling link mark ∧ ¬ x.IsHidden link mark) ∧
      x.sql = x.function.elim "" (· ++ "(") ++ x.entity.elim "" (· ++ ".") ++ x.property ++
        x.function.elim "" (fun _ => ")") ++ x.aliasName.elim "" (" AS " ++ ·)) ∧
    (∀ x : Expression, x.IsNamed → ∀ mark, parse (x.spelling .arrow mark) = .ok x) ∧
    ∀ x : Expression, x.IsNamed → ∀ link mark,
      (¬ x.IsHidden link mark → parse (x.spelling link mark) = .ok x) ∧
      (x.IsHidden link mark → parse (x.spelling link mark) =
        .error (.malformedExpression (x.spelling link mark))) := by
  refine ⟨fun s x h => ?_, fun x hx mark => ?_,
    fun x hx link mark => ⟨parse_spelling hx, parse_hidden hx⟩⟩
  · obtain ⟨hx, link, mark, rfl⟩ := spelled_of_parse h
    refine ⟨hx, ⟨link, mark, rfl, fun hhidden => ?_⟩, ?_⟩
    · rw [parse_hidden hx hhidden] at h
      cases h
    · obtain ⟨f, e, p, a⟩ := x
      cases f <;> cases e <;> cases a <;> simp [sql, reference, String.append_assoc]
  · refine parse_spelling hx fun hhidden => ?_
    cases hhidden.link

example : parse "as[as->as].as.as" = .ok ⟨some "as", some "as", "as", some "as"⟩ ∧
    parse "E.as:a" = .ok ⟨none, some "E", "as", some "a"⟩ ∧
    parse "E.as.as.a" = .error (.malformedExpression "E.as.as.a") := by
  decide +kernel

end Expression
end FilterSql
