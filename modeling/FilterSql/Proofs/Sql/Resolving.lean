import FilterSql.Sql.Reference
import FilterSql.Proofs.Sql.Lexing
/-!
# Resolving piece by piece

Resolving reads a text once from left to right and carries one mark, whether the next path is an
alias. A run of plain characters may be cut anywhere; a path, a literal and a tag may be cut off
where the rest cannot go on with them. A text `s` resolves to `t` when it does so in front of every
other text, so that what is written in pieces can be resolved in pieces.
-/
namespace FilterSql.Sql

variable {f : String → Option String} {aliased : Bool}

def Token.awaitsAlias (aliased : Bool) (t : Token) : Bool :=
  if t.kind = .path then !aliased && t.isAs else aliased && t.isGap

/-- Whether a token is a reference: a path that is neither an alias nor the word `AS`. -/
def Token.isReference (aliased : Bool) (t : Token) : Bool :=
  t.kind == .path && !aliased && !t.isAs

theorem markReferences_cons (t : Token) (ts : List Token) :
    markReferences aliased (t :: ts) =
      (t.isReference aliased, t) :: markReferences (t.awaitsAlias aliased) ts := by
  rw [markReferences]
  by_cases hk : t.kind = .path
  · cases aliased <;> cases h : t.isAs <;> simp [hk, h, Token.isReference, Token.awaitsAlias]
  · have hi : t.isAs = false := by simp [Token.isAs, hk]
    simp [hk, hi, Token.isReference, Token.awaitsAlias]

def isAsWord (p : List Char) : Bool := Text.sameLetters p ['A', 'S']

theorem isAsWord_of_point {p : List Char} (h : '.' ∈ p) : isAsWord p = false := by
  refine Bool.eq_false_iff.2 fun has => ?_
  rw [isAsWord, Text.sameLetters, beq_iff_eq] at has
  have hmem := List.mem_map_of_mem (f := Char.toLower) h
  rw [has] at hmem
  exact absurd hmem (by decide)

/-- The mark behind the tokens of a text. -/
def aliasedAfter (aliased : Bool) (ts : List Token) : Bool := ts.foldl Token.awaitsAlias aliased

theorem markReferences_append (ts us : List Token) :
    markReferences aliased (ts ++ us) =
      markReferences aliased ts ++ markReferences (aliasedAfter aliased ts) us := by
  induction ts generalizing aliased with
  | nil => rfl
  | cons t ts ih => rw [List.cons_append, markReferences_cons, markReferences_cons, ih]; rfl

/-- What `g` makes of the tokens, each with its mark. -/
def gather {β : Type} (g : Bool × Token → List β) (aliased : Bool) (ts : List Token) : List β :=
  (markReferences aliased ts).flatMap g

/-- It does not matter to `g` where a run of plain characters is cut. -/
structure Additive {β : Type} (g : Bool × Token → List β) : Prop where
  empty : g (false, ⟨.other, []⟩) = []
  append : ∀ s t, g (false, ⟨.other, s ++ t⟩) = g (false, ⟨.other, s⟩) ++ g (false, ⟨.other, t⟩)

section

variable {β : Type} {g : Bool × Token → List β}

@[simp] theorem gather_nil : gather g aliased [] = [] := rfl

theorem gather_cons (t : Token) (ts : List Token) :
    gather g aliased (t :: ts) =
      g (t.isReference aliased, t) ++ gather g (t.awaitsAlias aliased) ts := by
  rw [gather, markReferences_cons, List.flatMap_cons]
  rfl

theorem gather_append (ts us : List Token) :
    gather g aliased (ts ++ us) =
      gather g aliased ts ++ gather g (aliasedAfter aliased ts) us := by
  rw [gather, markReferences_append, List.flatMap_append]
  rfl

theorem gather_cons_of_not_path {t : Token} (ts : List Token) (h : t.kind ≠ .path) :
    gather g aliased (t :: ts) = g (false, t) ++ gather g (aliased && t.isGap) ts := by
  have hr : t.isReference aliased = false := by simp [Token.isReference, h]
  rw [gather_cons, hr, Token.awaitsAlias, if_neg h]

theorem gather_append_of_not_path {ts : List Token} (h : ∀ t ∈ ts, t.kind ≠ .path)
    (us : List Token) :
    gather g aliased (ts ++ us) =
      ts.flatMap (fun t => g (false, t)) ++ gather g (aliased && ts.all Token.isGap) us := by
  induction ts generalizing aliased with
  | nil => rw [List.all_nil, Bool.and_true]; rfl
  | cons t ts ih =>
    rw [List.forall_mem_cons] at h
    rw [List.cons_append, gather_cons_of_not_path _ h.1, ih h.2, ← List.append_assoc,
      List.all_cons, Bool.and_assoc, List.flatMap_cons]

theorem gather_takeWhile (hg : Additive g) (s : List Char) :
    gather g aliased (tokens s) = g (false, ⟨.other, s.takeWhile isPlain⟩) ++
      gather g (aliased && (s.takeWhile isPlain).all Text.isBlank)
        (tokens (s.dropWhile isPlain)) := by
  cases s with
  | nil => simp [hg.empty]
  | cons c s =>
    by_cases hc : isPlain c = true
    · rw [tokens_plain s hc, gather_cons_of_not_path _ (by simp),
        List.takeWhile_cons_of_pos hc, List.dropWhile_cons_of_pos hc]
      rfl
    · rw [List.takeWhile_cons_of_neg hc, List.dropWhile_cons_of_neg hc, hg.empty]
      simp

theorem gather_plain (hg : Additive g) {p : List Char} (hp : p.all isPlain = true)
    (r : List Char) :
    gather g aliased (tokens (p ++ r)) =
      g (false, ⟨.other, p⟩) ++ gather g (aliased && p.all Text.isBlank) (tokens r) := by
  rw [List.all_eq_true] at hp
  rw [gather_takeWhile hg, gather_takeWhile hg (s := r), List.takeWhile_append_of_pos hp,
    List.dropWhile_append_of_pos hp, List.all_append, Bool.and_assoc, hg.append,
    List.append_assoc]

theorem gather_path {p r : List Char} (hp : IsPath p) (hr : continuesPath r = false) :
    gather g aliased (tokens (p ++ r)) =
      g (!aliased && !isAsWord p, ⟨.path, p⟩) ++
        gather g (!aliased && isAsWord p) (tokens r) := by
  rw [tokens_path hp hr, gather_cons]
  rfl

end

def resolveTokens (f : String → Option String) (aliased : Bool) (ts : List Token) : List Char :=
  concat ((markReferences aliased ts).map (replaceReference f))

/-- A text with its references replaced, where `aliased` says that its first path is an alias. -/
def resolveFrom (f : String → Option String) (aliased : Bool) (s : List Char) : List Char :=
  resolveTokens f aliased (tokens s)

theorem toList_resolve (f : String → Option String) (sql : String) :
    (resolve f sql).toList = resolveFrom f false sql.toList := by
  simp [resolve, resolveFrom, resolveTokens, tokenize]

theorem resolveTokens_eq_gather (ts : List Token) :
    resolveTokens f aliased ts = gather (fun m => (replaceReference f m).chars) aliased ts := by
  rw [resolveTokens, concat, List.flatMap_map, gather]

@[simp] theorem resolveTokens_nil : resolveTokens f aliased [] = [] := rfl

theorem additive_replaceReference : Additive fun m => (replaceReference f m).chars :=
  ⟨rfl, fun _ _ => rfl⟩

@[simp] theorem resolveFrom_nil : resolveFrom f aliased [] = [] := by simp [resolveFrom]

theorem resolveTokens_cons (t : Token) (ts : List Token) :
    resolveTokens f aliased (t :: ts) =
      (replaceReference f (t.isReference aliased, t)).chars ++
        resolveTokens f (t.awaitsAlias aliased) ts := by
  rw [resolveTokens_eq_gather, resolveTokens_eq_gather, gather_cons]

theorem resolveFrom_cons (c : Char) (s : List Char) :
    resolveFrom f aliased (c :: s) =
      (replaceReference f ((nextToken c s).1.isReference aliased, (nextToken c s).1)).chars ++
        resolveFrom f ((nextToken c s).1.awaitsAlias aliased) (nextToken c s).2 := by
  rw [resolveFrom, tokens_cons, resolveTokens_cons]
  rfl

theorem resolveTokens_append (ts us : List Token) :
    resolveTokens f aliased (ts ++ us) =
      resolveTokens f aliased ts ++ resolveTokens f (aliasedAfter aliased ts) us := by
  simp only [resolveTokens_eq_gather, gather_append]

/-- Texts whose tokens are read one after the other are resolved one after the other. -/
theorem resolveFrom_append {s r : List Char} (h : tokens (s ++ r) = tokens s ++ tokens r) :
    resolveFrom f aliased (s ++ r) =
      resolveFrom f aliased s ++ resolveFrom f (aliasedAfter aliased (tokens s)) r := by
  rw [resolveFrom, h, resolveTokens_append]
  rfl

theorem resolveTokens_cons_of_not_path {t : Token} (ts : List Token) (h : t.kind ≠ .path) :
    resolveTokens f aliased (t :: ts) =
      t.chars ++ resolveTokens f (aliased && t.isGap) ts := by
  rw [resolveTokens_eq_gather, resolveTokens_eq_gather, gather_cons_of_not_path _ h]
  rfl

theorem resolveFrom_plain {p : List Char} (hp : p.all isPlain = true) (r : List Char) :
    resolveFrom f aliased (p ++ r) = p ++ resolveFrom f (aliased && p.all Text.isBlank) r := by
  rw [resolveFrom, resolveFrom, resolveTokens_eq_gather, resolveTokens_eq_gather,
    gather_plain additive_replaceReference hp]
  rfl

def replaced (f : String → Option String) (p : List Char) : List Char :=
  ((f (String.ofList p)).map String.toList).getD p

theorem resolveFrom_path {p r : List Char} (hp : IsPath p) (hr : continuesPath r = false) :
    resolveFrom f aliased (p ++ r) =
      (if aliased || isAsWord p then p else replaced f p) ++
        resolveFrom f (!aliased && isAsWord p) r := by
  rw [resolveFrom, resolveFrom, resolveTokens_eq_gather, resolveTokens_eq_gather,
    gather_path hp hr]
  congr 1
  cases aliased <;> cases h : isAsWord p <;> simp [replaceReference]
  rw [replaced, Token.text]
  cases f (String.ofList p) <;> rfl

/-- A path that is no reference to anything stays, and nothing behind it is an alias. -/
theorem resolveFrom_keyword {p r : List Char} (hp : IsPath p) (hr : continuesPath r = false)
    (ha : isAsWord p = false) (hf : f (String.ofList p) = none) :
    resolveFrom f aliased (p ++ r) = p ++ resolveFrom f false r := by
  rw [resolveFrom_path hp hr, ha, replaced, hf]
  simp

theorem resolveFrom_opaque {p r : List Char} {k : TokenKind}
    (h : tokens (p ++ r) = ⟨k, p⟩ :: tokens r) (hk : k = .literal ∨ k = .tag) :
    resolveFrom f aliased (p ++ r) = p ++ resolveFrom f false r := by
  have hgap : Token.isGap ⟨k, p⟩ = false := by rcases hk with rfl | rfl <;> rfl
  have hpath : k ≠ .path := by rcases hk with rfl | rfl <;> decide
  rw [resolveFrom, h, resolveTokens_cons_of_not_path _ hpath, hgap, Bool.and_false]
  rfl

/-- In front of every other text, `s` becomes `t`. -/
def Resolves (f : String → Option String) (s t : String) : Prop :=
  ∀ r, resolveFrom f false (s.toList ++ r) = t.toList ++ resolveFrom f false r

theorem Resolves.empty : Resolves f "" "" := fun _ => rfl

theorem Resolves.append {s s' t t' : String} (h : Resolves f s t) (h' : Resolves f s' t') :
    Resolves f (s ++ s') (t ++ t') := by
  intro r
  rw [String.toList_append, String.toList_append, List.append_assoc, List.append_assoc, h, h']

theorem Resolves.plain {s : String} (h : s.toList.all isPlain = true) : Resolves f s s := by
  intro r
  rw [resolveFrom_plain h, Bool.false_and]

theorem Resolves.reference {p : String} (hp : IsPath p.toList) (ha : isAsWord p.toList = false) :
    Resolves f (p ++ " ") ((f p).getD p ++ " ") := by
  intro r
  have hblank : (" " : String).toList = [' '] := rfl
  rw [String.toList_append, String.toList_append, List.append_assoc, List.append_assoc, hblank,
    resolveFrom_path hp rfl, ha, resolveFrom_plain (by decide), replaced, String.ofList_toList]
  cases f p <;> simp

theorem Resolves.keyword {p : String} (hp : IsPath p.toList) (ha : isAsWord p.toList = false)
    (hf : f p = none) : Resolves f (p ++ " ") (p ++ " ") := by
  have h := Resolves.reference (f := f) hp ha
  rwa [hf] at h

end FilterSql.Sql
