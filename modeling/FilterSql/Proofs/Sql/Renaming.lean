import FilterSql.Proofs.Sql.Aliases
import FilterSql.Proofs.Sql.Endings
/-!
# Renamed texts

A text is renamed when some of its paths give way to other texts and everything else stays. A path
ends where nothing can go on with it, so as long as paths give way to paths, a literal is closed and
a tag is ended where it was, and the renamed text is read token by token as the text is.
-/
namespace FilterSql.Sql

/-- The second text is the first with some of its paths replaced as `R` relates them; `fresh` says
that a path may start here, which it may not behind the start of a name. -/
inductive Renamed (R : List Char → List Char → Prop) : Bool → List Char → List Char → Prop
  | nil (fresh : Bool) : Renamed R fresh [] []
  | char (fresh : Bool) (c : Char) {s t : List Char} (h : Renamed R (!isNameStart c) s t) :
    Renamed R fresh (c :: s) (c :: t)
  | path {p q s t : List Char} (hp : IsPath p) (hs : continuesPath s = false) (hq : R p q)
    (h : Renamed R true s t) : Renamed R true (p ++ s) (q ++ t)

structure Token.Renamed (R : List Char → List Char → Prop) (t u : Token) : Prop where
  kind : u.kind = t.kind
  path : t.kind = .path → R t.chars u.chars
  kept : t.kind ≠ .path → u.chars = t.chars

variable {R : List Char → List Char → Prop} {fresh : Bool}

theorem ne_nil_of_isPath {p : List Char} (hp : IsPath p) : ∃ c s, p = c :: s ∧
    isNameStart c = true := by
  obtain ⟨c, s, rfl, hc, -⟩ := pathTail_path hp []
  exact ⟨c, s, rfl, hc⟩

def isPathChar (c : Char) : Bool := isNameChar c || c == '.'

theorem IsPath.isPathChar_of_mem {p : List Char} (hp : IsPath p) {c : Char} (hc : c ∈ p) :
    isPathChar c = true := by
  rw [isPathChar, Bool.or_eq_true, beq_iff_eq]
  exact hp.chars hc

theorem IsPath.not_mem {p : List Char} (hp : IsPath p) {c : Char} (hc : isPathChar c = false) :
    c ∉ p := by
  intro hmem
  rw [hp.isPathChar_of_mem hmem] at hc
  cases hc

theorem continuesPath_of_append {s r : List Char} (h : continuesPath (s ++ r) = false) :
    continuesPath s = false := by
  fun_cases continuesPath s with
  | case1 c s => exact h
  | case2 c s hp =>
    by_cases hc : c = '.'
    · subst hc
      decide
    · rw [List.cons_append, continuesPath] at h
      · exact h
      · exact fun _ _ h _ => hc h
  | case3 => rfl

theorem not_isNameStart_of_isPlain {c : Char} (h : isPlain c = true) : isNameStart c = false := by
  rw [isPlain, Bool.and_eq_true, Bool.and_eq_true, Bool.not_eq_true'] at h
  exact h.1.1

theorem literalTail?_append_of_not_mem {p : List Char} (hp : '\'' ∉ p) (s : List Char) :
    literalTail? (p ++ s) = (literalTail? s).map fun r => (p ++ r.1, r.2) := by
  induction p with
  | nil => simp
  | cons c p ih =>
    rw [List.mem_cons, not_or] at hp
    rw [List.cons_append, literalTail?_char _ (Ne.symm hp.1), ih hp.2, Option.map_map]
    rfl

namespace Renamed

variable {s t : List Char}

theorem cons_inv {c : Char} (hc : isNameStart c = false) (h : Renamed R fresh (c :: s) t) :
    ∃ u, t = c :: u ∧ Renamed R true s u := by
  generalize hs : c :: s = r at h
  cases h with
  | nil => cases hs
  | char _ d h =>
    obtain ⟨rfl, rfl⟩ := List.cons.inj hs
    rw [hc] at h
    exact ⟨_, rfl, h⟩
  | path hp =>
    obtain ⟨d, u, rfl, hd⟩ := ne_nil_of_isPath hp
    obtain ⟨rfl, -⟩ := List.cons.inj hs
    rw [hc] at hd
    cases hd

theorem nil_inv (h : Renamed R fresh [] t) : t = [] := by
  generalize hs : [] = r at h
  cases h with
  | nil => rfl
  | char => cases hs
  | path hp =>
    obtain ⟨c, u, rfl, -⟩ := ne_nil_of_isPath hp
    cases hs

theorem append (h : Renamed R true s t) {w : List Char} (hne : w ≠ [])
    (hw : ∀ c ∈ w.getLast?, isNameStart c = false) : Renamed R fresh (w ++ s) (w ++ t) := by
  induction w generalizing fresh with
  | nil => exact absurd rfl hne
  | cons c w ih =>
    refine .char fresh c ?_
    cases w with
    | nil =>
      rw [hw c rfl]
      exact h
    | cons d w => exact ih (List.cons_ne_nil d w) hw

theorem eq_of_nameless (h : Renamed R fresh s t) (hs : s.any isNameStart = false) : t = s := by
  induction s generalizing fresh t with
  | nil => exact h.nil_inv
  | cons c s ih =>
    rw [List.any_cons, Bool.or_eq_false_iff] at hs
    obtain ⟨u, rfl, hu⟩ := h.cons_inv hs.1
    rw [ih hu hs.2]

/-- If paths give way to paths, a character at the front that starts no name was there before. -/
theorem cons_inv_right (hR : ∀ p q, R p q → IsPath q) {c : Char} (hc : isNameStart c = false)
    (h : Renamed R fresh s (c :: t)) : ∃ u, s = c :: u ∧ Renamed R true u t := by
  generalize ht : c :: t = r at h
  cases h with
  | nil => cases ht
  | char _ d h =>
    obtain ⟨rfl, rfl⟩ := List.cons.inj ht
    rw [hc] at h
    exact ⟨_, rfl, h⟩
  | path _ _ hq =>
    obtain ⟨d, u, rfl, hd⟩ := ne_nil_of_isPath (hR _ _ hq)
    obtain ⟨rfl, -⟩ := List.cons.inj ht
    rw [hc] at hd
    cases hd

theorem head?_ne (hR : ∀ p q, R p q → IsPath q) (h : Renamed R fresh s t) {c : Char}
    (hc : isNameStart c = false) (hs : s.head? ≠ some c) : t.head? ≠ some c := by
  intro ht
  obtain ⟨u, rfl⟩ := List.head?_eq_some_iff.1 ht
  obtain ⟨v, rfl, -⟩ := h.cons_inv_right hR hc
  exact hs rfl

theorem isPlain_head (hR : ∀ p q, R p q → IsPath q) (h : Renamed R fresh s t)
    (hs : ∀ c u, s = c :: u → isPlain c = false) {c : Char} {u : List Char} (ht : t = c :: u) :
    isPlain c = false := by
  subst ht
  refine Bool.eq_false_iff.2 fun hc => ?_
  obtain ⟨v, rfl, -⟩ := h.cons_inv_right hR (not_isNameStart_of_isPlain hc)
  rw [hs c v rfl] at hc
  cases hc

theorem continuesPath_eq_false (h : Renamed R fresh s t) (hs : continuesPath s = false) :
    continuesPath t = false := by
  cases s with
  | nil =>
    rw [h.nil_inv]
    rfl
  | cons c s =>
    by_cases hc : c = '.'
    · subst hc
      obtain ⟨u, rfl, hu⟩ := h.cons_inv (by decide)
      cases s with
      | nil =>
        rw [hu.nil_inv]
        rfl
      | cons d s =>
        obtain ⟨v, rfl, -⟩ := hu.cons_inv (c := d) hs
        exact hs
    · have hname (r : List Char) : continuesPath (c :: r) = isNameChar c := by
        rw [continuesPath]
        exact fun _ _ h _ => hc h
      rw [hname] at hs
      have hstart : isNameStart c = false :=
        Bool.eq_false_iff.2 fun h => by rw [isNameChar_of_isNameStart h] at hs; cases hs
      obtain ⟨u, rfl, -⟩ := h.cons_inv hstart
      rw [hname, hs]

/-- No quote closes the renamed text if none closes the text. A quote in front of the two closes
nothing if it makes a pair with the first character, so this is shown along with it. -/
theorem literalTail?_eq_none (hR : ∀ p q, R p q → IsPath q) (h : Renamed R fresh s t) :
    (literalTail? s = none → literalTail? t = none) ∧
      (literalTail? ('\'' :: s) = none → literalTail? ('\'' :: t) = none) := by
  induction h with
  | nil => exact ⟨id, id⟩
  | char _ c h ih =>
    by_cases hc : c = '\''
    · subst hc
      refine ⟨ih.2, fun hs => ?_⟩
      rw [literalTail?_pair, Option.map_eq_none_iff] at hs ⊢
      exact ih.1 hs
    · refine ⟨fun hs => ?_, fun hs => ?_⟩
      · rw [literalTail?_char _ hc, Option.map_eq_none_iff] at hs ⊢
        exact ih.1 hs
      · rw [literalTail?_close] at hs
        · cases hs
        · exact fun hhead => hc (Option.some.inj hhead)
  | path hp hstop hq h ih =>
    have hquote {p : List Char} (hp : IsPath p) : '\'' ∉ p := hp.not_mem (by decide)
    refine ⟨fun hs => ?_, fun hs => ?_⟩
    · rw [literalTail?_append_of_not_mem (hquote hp), Option.map_eq_none_iff] at hs
      rw [literalTail?_append_of_not_mem (hquote (hR _ _ hq)), ih.1 hs, Option.map_none]
    · obtain ⟨c, r, rfl, hc⟩ := ne_nil_of_isPath hp
      rw [literalTail?_close] at hs
      · cases hs
      · rintro hhead
        obtain rfl := Option.some.inj hhead
        cases hc

theorem not_mem (hR : ∀ p q, R p q → IsPath q) (h : Renamed R fresh s t) {m : Char}
    (hm : isPathChar m = false) (hs : m ∉ s) : m ∉ t := by
  induction h with
  | nil => exact hs
  | char _ c h ih =>
    rw [List.mem_cons, not_or] at hs ⊢
    exact ⟨hs.1, ih hs.2⟩
  | path _ _ hq h ih =>
    rw [List.mem_append, not_or] at hs ⊢
    exact ⟨(hR _ _ hq).not_mem hm, ih hs.2⟩

theorem forall_getLast?_of_append {p : Char → Prop} {a s : List Char}
    (h : ∀ c ∈ (a ++ s).getLast?, p c) : ∀ c ∈ s.getLast?, p c := by
  intro c hc
  apply h
  rw [List.getLast?_append, hc]
  rfl

/-- A text may be cut where the character in front or the one behind is in no path. -/
theorem append_inv {s r : List Char} (h : Renamed R fresh (s ++ r) t)
    (hseam : (∀ c ∈ s.getLast?, isPathChar c = false) ∨ ∀ c ∈ r.head?, isPathChar c = false) :
    ∃ u v, t = u ++ v ∧ Renamed R fresh s u ∧ Renamed R true r v := by
  generalize hw : s ++ r = w at h
  induction h generalizing s with
  | nil fresh =>
    obtain ⟨rfl, rfl⟩ := List.append_eq_nil_iff.1 hw
    exact ⟨[], [], rfl, .nil fresh, .nil true⟩
  | @char fresh c w t h ih =>
    cases s with
    | nil =>
      obtain rfl : r = c :: w := hw
      exact ⟨[], c :: t, rfl, .nil fresh, .char true c h⟩
    | cons d s =>
      obtain ⟨rfl, hsr⟩ := List.cons.inj hw
      obtain ⟨u, v, rfl, hu, hv⟩ :=
        ih (hseam.imp_left (forall_getLast?_of_append (a := [d]))) hsr
      exact ⟨d :: u, v, rfl, .char fresh d hu, hv⟩
  | @path p q w t hp hstop hq h ih =>
    rcases List.append_eq_append_iff.1 hw with ⟨b, rfl, rfl⟩ | ⟨a, rfl, rfl⟩
    · -- the path ends behind the seam, so it starts there or ends there
      by_cases hs : s = []
      · subst hs
        exact ⟨[], q ++ t, rfl, .nil true, .path hp hstop hq h⟩
      by_cases hb : b = []
      · subst hb
        rw [List.append_nil] at hp hq
        refine ⟨q, t, rfl, ?_, h⟩
        have hpath := Renamed.path hp rfl hq (Renamed.nil (R := R) true)
        rwa [List.append_nil, List.append_nil] at hpath
      exfalso
      obtain ⟨c, hc⟩ := Option.ne_none_iff_exists'.1 (mt List.getLast?_eq_none_iff.1 hs)
      obtain ⟨d, b, rfl⟩ := List.exists_cons_of_ne_nil hb
      rcases hseam with h | h
      · have hmem := List.mem_append_left (d :: b) (List.mem_of_getLast? hc)
        exact absurd (hp.isPathChar_of_mem hmem) (by rw [h c hc]; decide)
      · have hmem := List.mem_append_right s (List.mem_cons_self (a := d) (l := b))
        exact absurd (hp.isPathChar_of_mem hmem) (by rw [h d rfl]; decide)
    · obtain ⟨u, v, rfl, hu, hv⟩ := ih (hseam.imp_left forall_getLast?_of_append) rfl
      exact ⟨q ++ u, v, (List.append_assoc ..).symm,
        .path hp (continuesPath_of_append hstop) hq hu, hv⟩

theorem letters_inv (hs : s.all isNameStart = true) (h : Renamed R true s t) : t = s ∨ R s t := by
  have hkept {s t : List Char} (hs : s.all isNameStart = true) (h : Renamed R false s t) :
      t = s := by
    induction s generalizing t with
    | nil => exact h.nil_inv
    | cons c s ih =>
      rw [List.all_cons, Bool.and_eq_true] at hs
      cases h with
      | char _ _ h =>
        rw [hs.1] at h
        rw [ih hs.2 h]
  generalize hr : s = r at h
  cases h with
  | nil => exact Or.inl rfl
  | char _ c h =>
    subst hr
    rw [List.all_cons, Bool.and_eq_true] at hs
    rw [hs.1] at h
    exact Or.inl (congrArg (c :: ·) (hkept hs.2 h))
  | @path p q w t hp hstop hq h =>
    subst hr
    cases w with
    | nil =>
      rw [List.append_nil, h.nil_inv, List.append_nil]
      exact Or.inr hq
    | cons c w =>
      rw [List.all_append, Bool.and_eq_true, List.all_cons, Bool.and_eq_true] at hs
      have hc := isNameChar_of_isNameStart hs.2.1
      rw [continuesPath] at hstop
      · rw [hc] at hstop
        cases hstop
      · rintro _ _ rfl
        cases hs.2.1

end Renamed

theorem literalTail?_some {s : List Char} {x : List Char × List Char}
    (hx : literalTail? s = some x) :
    x.2.head? ≠ some '\'' ∧ literalTail? x.1 = some (x.1, []) := by
  fun_induction literalTail? s generalizing x with
  | case1 s ih =>
    obtain ⟨y, hy, rfl⟩ := Option.map_eq_some_iff.1 hx
    refine ⟨(ih hy).1, ?_⟩
    rw [literalTail?_pair, (ih hy).2]
    rfl
  | case2 s hs =>
    obtain rfl := Option.some.inj hx
    refine ⟨fun hhead => ?_, rfl⟩
    cases s with
    | nil => cases hhead
    | cons c s => exact hs s (by rw [Option.some.inj hhead])
  | case3 c s _ hc ih =>
    obtain ⟨y, hy, rfl⟩ := Option.map_eq_some_iff.1 hx
    refine ⟨(ih hy).1, ?_⟩
    rw [literalTail?_char _ hc, (ih hy).2]
    rfl
  | case4 => cases hx

theorem tagTail?_some {s : List Char} {x : List Char × List Char} (hx : tagTail? s = some x) :
    ∃ body, '}' ∉ body ∧ x.1 = body ++ ['}'] := by
  fun_induction tagTail? s generalizing x with
  | case1 s =>
    obtain rfl := Option.some.inj hx
    exact ⟨[], List.not_mem_nil, rfl⟩
  | case2 c s hc ih =>
    obtain ⟨y, hy, rfl⟩ := Option.map_eq_some_iff.1 hx
    obtain ⟨body, hbody, hy⟩ := ih hy
    refine ⟨c :: body, ?_, congrArg (c :: ·) hy⟩
    rw [List.mem_cons, not_or]
    exact ⟨Ne.symm hc, hbody⟩
  | case3 => cases hx

/-- What makes a token end in front of a rest. -/
inductive Token.EndsBefore : Token → List Char → Prop
  | path {p r : List Char} (hp : IsPath p) (hr : continuesPath r = false) :
    EndsBefore ⟨.path, p⟩ r
  | literal {body r : List Char} (hbody : literalTail? body = some (body, []))
    (hr : r.head? ≠ some '\'') : EndsBefore ⟨.literal, '\'' :: body⟩ r
  | quote {r : List Char} (hr : literalTail? r = none) : EndsBefore ⟨.other, ['\'']⟩ r
  | tag {body r : List Char} (hbody : '}' ∉ body) :
    EndsBefore ⟨.tag, '$' :: '{' :: (body ++ ['}'])⟩ r
  | dollar {r : List Char} (hr : ∀ t, r = '{' :: t → '}' ∉ t) : EndsBefore ⟨.other, ['$']⟩ r
  | plain {c : Char} {run r : List Char} (hc : isPlain c = true) (hrun : run.all isPlain = true)
    (hr : ∀ d u, r = d :: u → isPlain d = false) : EndsBefore ⟨.other, c :: run⟩ r

theorem continuesPath_pathTail (s : List Char) : continuesPath (pathTail s).2 = false := by
  fun_induction pathTail s with
  | case1 c s hc ih => exact ih
  | case2 c s hc => exact Bool.eq_false_iff.2 hc
  | case3 c s hp hc ih => exact ih
  | case4 c s hp hc =>
    rw [continuesPath]
    · exact Bool.eq_false_iff.2 hc
    · exact hp
  | case5 => rfl

theorem nextToken_literal {s : List Char} {x : List Char × List Char}
    (hx : literalTail? s = some x) : nextToken '\'' s = (⟨.literal, '\'' :: x.1⟩, x.2) := by
  simp [nextToken, hx]

theorem nextToken_quote {s : List Char} (h : literalTail? s = none) :
    nextToken '\'' s = (⟨.other, ['\'']⟩, s) := by
  simp [nextToken, h]

theorem nextToken_dollar {s : List Char} (h : ∀ t, s = '{' :: t → '}' ∉ t) :
    nextToken '$' s = (⟨.other, ['$']⟩, s) := by
  unfold nextToken
  rw [if_neg (by decide), if_pos rfl]
  split
  · rw [tagTail?_eq_none_iff.2 (h _ rfl)]
  · rfl

theorem endsBefore_nextToken (c : Char) (s : List Char) :
    (nextToken c s).1.EndsBefore (nextToken c s).2 := by
  by_cases hquote : c = '\''
  · subst hquote
    cases hl : literalTail? s with
    | none =>
      rw [nextToken_quote hl]
      exact .quote hl
    | some x =>
      rw [nextToken_literal hl]
      exact .literal (literalTail?_some hl).2 (literalTail?_some hl).1
  by_cases hdollar : c = '$'
  · subst hdollar
    by_cases htag : ∀ t, s = '{' :: t → '}' ∉ t
    · rw [nextToken_dollar htag]
      exact .dollar htag
    · push Not at htag
      obtain ⟨t, rfl, ht⟩ := htag
      obtain ⟨x, hx⟩ := Option.ne_none_iff_exists'.1 (mt tagTail?_eq_none_iff.1 (not_not.2 ht))
      obtain ⟨body, hbody, hbrace⟩ := tagTail?_some hx
      have hcut : nextToken '$' ('{' :: t) = (⟨.tag, '$' :: '{' :: (body ++ ['}'])⟩, x.2) := by
        simp [nextToken, hx, hbrace]
      rw [hcut]
      exact .tag hbody
  by_cases hname : isNameStart c = true
  · rw [nextToken_name _ hname]
    exact .path (isPath_of_isNameStart hname s) (continuesPath_pathTail s)
  · have hplain := isPlain_of_not_isNameStart (Bool.eq_false_iff.2 hname) hquote hdollar
    rw [nextToken_plain _ hplain]
    refine .plain hplain List.all_takeWhile fun d u hd => ?_
    have hstop := List.head?_dropWhile_not isPlain s
    rw [show s.dropWhile isPlain = d :: u from hd] at hstop
    exact hstop

namespace Token.EndsBefore

variable {t u : Token} {r : List Char}

theorem tokens_eq (h : t.EndsBefore r) : tokens (t.chars ++ r) = t :: tokens r := by
  cases h with
  | path hp hr => exact tokens_path hp hr
  | @literal body r hbody hr =>
    rw [List.cons_append, tokens_cons,
      nextToken_literal (literalTail?_append_right hbody (Or.inr hr))]
    rfl
  | quote hr => rw [List.singleton_append, tokens_cons, nextToken_quote hr]
  | @tag body r hbody =>
    have htag := tokens_tag r hbody
    rwa [List.append_cons] at htag
  | dollar hr => rw [List.singleton_append, tokens_cons, nextToken_dollar hr]
  | @plain c run r hc hrun hr =>
    have hstop := takeWhile_append_of_head hr []
    rw [List.nil_append] at hstop
    rw [List.all_eq_true] at hrun
    rw [List.cons_append, tokens_plain _ hc, List.takeWhile_append_of_pos hrun,
      List.dropWhile_append_of_pos hrun, hstop.1, hstop.2]
    simp

/-- A token ends where it did when paths give way to paths, in it and behind it. -/
theorem renamed (hR : ∀ p q, R p q → IsPath q) (h : t.EndsBefore r) (hu : t.Renamed R u)
    {r' : List Char} (hr' : Sql.Renamed R true r r') : u.EndsBefore r' := by
  by_cases hk : t.kind = .path
  · have hq := hR _ _ (hu.path hk)
    have hpath : u = ⟨.path, u.chars⟩ := by rw [← hk, ← hu.kind]
    rw [hpath]
    refine .path hq (hr'.continuesPath_eq_false ?_)
    cases h with
    | path hp hr => exact hr
    | _ => cases hk
  · obtain rfl : u = t := by
      obtain ⟨k, p⟩ := u
      exact congrArg₂ Token.mk hu.kind (hu.kept hk)
    cases h with
    | path => exact absurd rfl hk
    | literal hbody hr => exact .literal hbody (hr'.head?_ne hR (by decide) hr)
    | quote hr => exact .quote ((hr'.literalTail?_eq_none hR).1 hr)
    | tag hbody => exact .tag hbody
    | dollar hr =>
      refine .dollar fun s hs => ?_
      rw [hs] at hr'
      obtain ⟨v, hv, hrest⟩ := hr'.cons_inv_right hR (by decide)
      exact hrest.not_mem hR (by decide) (hr v hv)
    | plain hc hrun hr =>
      exact .plain hc hrun fun d u hd => hr'.isPlain_head hR hr hd

theorem getLast? (h : t.EndsBefore r) (hk : t.kind ≠ .path) :
    ∀ c ∈ t.chars.getLast?, isNameStart c = false := by
  intro c hc
  cases h with
  | path => exact absurd rfl hk
  | literal hbody =>
    have hlast := literalTail?_getLast hbody
    rw [List.getLast?_cons, hlast] at hc
    obtain rfl := Option.some.inj hc
    decide
  | quote | dollar =>
    obtain rfl := Option.some.inj hc
    decide
  | tag =>
    rw [List.getLast?_cons, List.getLast?_cons, List.getLast?_concat] at hc
    obtain rfl := Option.some.inj hc
    decide
  | @plain d run r hd hrun hr =>
    have hall : (d :: run).all isPlain = true := by rw [List.all_cons, hd, hrun]; rfl
    exact not_isNameStart_of_isPlain (List.all_eq_true.1 hall c (List.mem_of_getLast? hc))

end Token.EndsBefore

theorem renamed_concat {s : List Char} {us : List Token}
    (h : List.Forall₂ (Token.Renamed R) (tokens s) us) : Renamed R true s (concat us) := by
  fun_induction tokens s generalizing us with
  | case1 =>
    cases h
    exact .nil true
  | case2 c s ih =>
    cases h with
    | @cons _ u _ us hu hus =>
      have hends := endsBefore_nextToken c s
      rw [← nextToken_append c s, concat, List.flatMap_cons]
      by_cases hk : (nextToken c s).1.kind = .path
      · have hname := isNameStart_of_nextToken hk
        rw [nextToken_name _ hname] at hu hus ih ⊢
        exact .path (isPath_of_isNameStart hname s) (continuesPath_pathTail s) (hu.path rfl)
          (ih hus)
      · rw [hu.kept hk]
        exact (ih hus).append (nextToken_chars_ne_nil c s) (hends.getLast? hk)

theorem tokens_concat (hR : ∀ p q, R p q → IsPath q) {s : List Char} {us : List Token}
    (h : List.Forall₂ (Token.Renamed R) (tokens s) us) : tokens (concat us) = us := by
  fun_induction tokens s generalizing us with
  | case1 =>
    cases h
    exact tokens_nil
  | case2 c s ih =>
    cases h with
    | @cons _ u _ us hu hus =>
      have hends := (endsBefore_nextToken c s).renamed hR hu (renamed_concat hus)
      rw [concat, List.flatMap_cons]
      exact hends.tokens_eq.trans (congrArg (u :: ·) (ih hus))

/-- What may become of a marked token: it stays, or a reference gives way to a path. -/
inductive Answer : Bool × Token → Token → Prop
  | kept (m : Bool × Token) : Answer m m.2
  | path (t : Token) {q : List Char} (hq : IsPath q) : Answer (true, t) { t with chars := q }

theorem forall₂_renamed {aliased : Bool} {ts us : List Token}
    (hts : ∀ t ∈ ts, t.kind = .path → IsPath t.chars)
    (h : List.Forall₂ Answer (markReferences aliased ts) us) :
    List.Forall₂ (Token.Renamed fun _ q => IsPath q) ts us := by
  induction ts generalizing aliased us with
  | nil =>
    cases h
    exact .nil
  | cons t ts ih =>
    rw [markReferences_cons] at h
    rw [List.forall_mem_cons] at hts
    generalize hm : (t.isReference aliased, t) = m at h
    cases h with
    | cons hu hus =>
      refine .cons ?_ (ih hts.2 hus)
      cases hu with
      | kept =>
        rw [← hm]
        exact ⟨rfl, hts.1, fun _ => rfl⟩
      | path t hq =>
        obtain ⟨href, rfl⟩ := Prod.mk.inj hm
        exact ⟨rfl, fun _ => hq, fun hne => absurd (kind_of_isReference href) hne⟩

theorem renamed_resolveFrom (f : String → Option String) (aliased : Bool) (s : List Char) :
    Renamed (fun p q => q = p ∨ q = replaced f p) true s (resolveFrom f aliased s) := by
  have htokens (ts : List Token) (b : Bool) :
      List.Forall₂ (Token.Renamed fun p q => q = p ∨ q = replaced f p) ts
        ((markReferences b ts).map (replaceReference f)) := by
    induction ts generalizing b with
    | nil => exact .nil
    | cons t ts ih =>
      rw [markReferences_cons, List.map_cons]
      refine .cons ?_ (ih _)
      rw [replaceReference_eq]
      by_cases hb : t.isReference b = true
      · rw [if_pos hb]
        exact ⟨rfl, fun _ => Or.inr rfl, fun hk => absurd (kind_of_isReference hb) hk⟩
      · rw [if_neg hb]
        exact ⟨rfl, fun _ => Or.inl rfl, fun _ => rfl⟩
  exact renamed_concat (htokens _ aliased)

theorem answer_replaceReference {f : String → Option String}
    (hf : ∀ p q, f p = some q → IsPath q.toList) (m : Bool × Token) :
    Answer m (replaceReference f m) := by
  obtain ⟨b, t⟩ := m
  cases b with
  | false => exact .kept (false, t)
  | true =>
    rw [replaceReference]
    cases hq : f t.text with
    | none => exact .kept (true, t)
    | some q => exact .path t (hf _ q hq)

theorem map_replaceReference_none {f : String → Option String} (hf : ∀ p, f p = none)
    (aliased : Bool) (ts : List Token) :
    (markReferences aliased ts).map (replaceReference f) = ts := by
  induction ts generalizing aliased with
  | nil => rfl
  | cons t ts ih =>
    have hkept (b : Bool) : replaceReference f (b, t) = t := by
      rw [replaceReference_eq, replaced, hf]
      exact ite_self t
    rw [markReferences_cons, List.map_cons, hkept, ih]

/-- Resolving is a homomorphism of token streams. However each reference is answered, by itself or
by a path, the text that is put together has the answers as its tokens. So resolving with paths
replaces exactly the paths that are neither `AS` nor an alias, and every token stays at its place
and of its kind. -/
theorem tokenize_resolve (sql : String) :
    (∀ us, List.Forall₂ Answer (markReferences false (tokenize sql)) us →
      tokenize (String.ofList (concat us)) = us) ∧
    (∀ f : String → Option String, (∀ p q, f p = some q → IsPath q.toList) →
      tokenize (resolve f sql) = (tokenize sql).mapIdx fun i t =>
        if t.kind == .path && !behindAs ((tokenize sql).take i).reverse && !t.isAs then
          { t with chars := replaced f t.chars }
        else t) ∧
    ∀ f : String → Option String, (∀ p, f p = none) → resolve f sql = sql := by
  have hanswers : ∀ us, List.Forall₂ Answer (markReferences false (tokenize sql)) us →
      tokenize (String.ofList (concat us)) = us := by
    intro us hus
    rw [tokenize, String.toList_ofList]
    exact tokens_concat (fun _ _ hq => hq) (forall₂_renamed (fun _ => isPath_of_mem_tokens) hus)
  refine ⟨hanswers, fun f hf => ?_, fun f hf => ?_⟩
  · have hus : List.Forall₂ Answer (markReferences false (tokenize sql))
        ((markReferences false (tokenize sql)).map (replaceReference f)) := by
      rw [List.forall₂_map_right_iff, List.forall₂_same]
      exact fun m _ => answer_replaceReference hf m
    rw [resolve, hanswers _ hus]
    refine List.ext_getElem? fun i => ?_
    rw [List.getElem?_map, getElem?_markReferences, List.getElem?_mapIdx, Option.map_map]
    cases ht : (tokenize sql)[i]? with
    | none => rfl
    | some t =>
      obtain ⟨hi, hget⟩ := List.getElem?_eq_some_iff.1 ht
      have hsplit := (List.take_append_drop i (tokenize sql)).symm
      rw [List.drop_eq_getElem_cons hi, hget] at hsplit
      rw [Option.map_some, Option.map_some, Function.comp_apply, replaceReference_eq,
        isReference_eq hsplit]
  · rw [resolve, map_replaceReference_none hf, tokenize, concat_tokens, String.ofList_toList]

/-- A text with a quote and a tag that are not closed, and points and digits beside its paths. -/
def openText : String := "a AS a, x.a, 9a. = '$\x7ba"

def columnOfOpenText (path : String) : Option String := if path = "a" then some "t.c" else none

theorem tokenize_openText :
    resolve columnOfOpenText openText = "t.c AS a, x.a, 9t.c. = '$\x7bt.c" ∧
    (∀ p q, columnOfOpenText p = some q → IsPath q.toList) ∧
    (tokenize (resolve columnOfOpenText openText)).map (·.text) =
      ["t.c", " ", "AS", " ", "a", ", ", "x.a", ", 9", "t.c", ". = ", "'", "$", "\x7b", "t.c"] := by
  have hpath : ∀ p q, columnOfOpenText p = some q → IsPath q.toList := by
    intro p q hq
    rw [columnOfOpenText] at hq
    split at hq
    · obtain rfl := Option.some.inj hq
      exact .qualified (n := ['t']) (by decide) (.name (by decide))
    · cases hq
  refine ⟨by decide +kernel, hpath, ?_⟩
  rw [(tokenize_resolve openText).2.1 columnOfOpenText hpath]
  decide +kernel

end FilterSql.Sql
