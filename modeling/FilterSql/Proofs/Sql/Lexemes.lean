import FilterSql.Proofs.Sql.Endings
import Mathlib.Data.List.Chain
/-!
# Lexemes

What a reader of SQL sees of a text are its paths, literals and tags and the single characters
between them, without the blanks. A text reads as certain lexemes when it does so in front of every
other text. Parentheses count among the lexemes only where they stand outside of literals, and
there it is said whether they are balanced.
-/
namespace FilterSql.Sql

namespace Token

def word (w : String) : Token := ⟨.path, w.toList⟩

def sign (c : Char) : Token := ⟨.other, [c]⟩

end Token

def signs (s : List Char) : List Token := (s.filter (!Text.isBlank ·)).map Token.sign

def Token.lexemes (t : Token) : List Token := if t.kind = .other then signs t.chars else [t]

def lexemes (s : List Char) : List Token := (tokens s).flatMap Token.lexemes

/-- In front of every other text, `s` reads as `ts`. -/
def Reads (ts : List Token) (s : String) : Prop :=
  ∀ r, lexemes (s.toList ++ r) = ts ++ lexemes r

variable {ts us : List Token}

theorem gather_snd {β : Type} (g : Token → List β) (aliased : Bool) (ts : List Token) :
    gather (fun m => g m.2) aliased ts = ts.flatMap g := by
  induction ts generalizing aliased with
  | nil => rfl
  | cons t ts ih => rw [gather_cons, ih, List.flatMap_cons]

theorem lexemes_eq_gather (aliased : Bool) (s : List Char) :
    lexemes s = gather (fun m => m.2.lexemes) aliased (tokens s) :=
  (gather_snd Token.lexemes aliased (tokens s)).symm

theorem additive_lexemes : Additive fun m => m.2.lexemes :=
  ⟨rfl, fun s t => by simp [Token.lexemes, signs]⟩

@[simp] theorem lexemes_nil : lexemes [] = [] := by simp [lexemes]

theorem lexemes_plain {p : List Char} (hp : p.all isPlain = true) (r : List Char) :
    lexemes (p ++ r) = signs p ++ lexemes r := by
  rw [lexemes_eq_gather false, gather_plain additive_lexemes hp, ← lexemes_eq_gather]
  rfl

theorem lexemes_of_plain {p : List Char} (hp : p.all isPlain = true) : lexemes p = signs p := by
  have h := lexemes_plain hp []
  rwa [List.append_nil, lexemes_nil, List.append_nil] at h

theorem lexemes_path {p : String} (hp : IsPath p.toList) : lexemes p.toList = [.word p] := by
  have h := tokens_path hp (r := []) rfl
  rw [List.append_nil, tokens_nil] at h
  rw [lexemes, h]
  rfl

/-- A text that opens no literal and no tag is read by itself in front of a blank. -/
theorem lexemes_append_blank {s : List Char} (hs : Lacks isQuote s) (r : List Char) :
    lexemes (s ++ ' ' :: r) = lexemes s ++ lexemes r := by
  have hblank : lexemes (' ' :: r) = lexemes r := lexemes_plain (p := [' ']) (by decide) r
  rw [lexemes_eq_gather false, gather_append_of_closesBefore additive_lexemes
    (.of_lacks_quotes hs r), ← lexemes_eq_gather, ← lexemes_eq_gather, hblank]

namespace Reads

variable {s t : String}

theorem empty : Reads [] "" := fun _ => rfl

theorem append (hs : Reads ts s) (ht : Reads us t) : Reads (ts ++ us) (s ++ t) := by
  intro r
  rw [String.toList_append, List.append_assoc, List.append_assoc, hs, ht]

theorem plain (h : s.toList.all isPlain = true) : Reads (signs s.toList) s := lexemes_plain h

theorem spaced (h : Lacks isQuote s.toList) : Reads (lexemes s.toList) (s ++ " ") := by
  have hblank : (" " : String).toList = [' '] := rfl
  intro r
  rw [String.toList_append, List.append_assoc, hblank]
  exact lexemes_append_blank h r

theorem word (h : IsPath s.toList) : Reads [.word s] (s ++ " ") := by
  have hread := spaced (s := s) (h.lacks.mono fun _ => isMark_of_isQuote)
  rwa [lexemes_path h] at hread

theorem lexemes_eq (h : Reads ts s) : lexemes s.toList = ts := by
  have hread := h []
  rwa [List.append_nil, lexemes_nil, List.append_nil] at hread

end Reads

def opening : Token := .sign '('

def closing : Token := .sign ')'

/-- No parenthesis is closed before it is opened, and in the end all are closed. -/
structure Nested (ts : List Token) : Prop where
  prefixes : ∀ k, (ts.take k).count closing ≤ (ts.take k).count opening
  closed : ts.count closing = ts.count opening

def IsEmptyPair (t u : Token) : Prop := t = opening ∧ u = closing

/-- What may stand between parentheses, and beside other texts that may. -/
structure Enclosable (ts : List Token) : Prop where
  nonempty : ts ≠ []
  nested : Nested ts
  filled : ts.IsChain fun t u => ¬ IsEmptyPair t u
  head : ts.head? ≠ some closing
  last : ts.getLast? ≠ some opening

theorem Nested.nil : Nested [] := ⟨fun k => by simp, rfl⟩

theorem Nested.append (ht : Nested ts) (hu : Nested us) : Nested (ts ++ us) := by
  refine ⟨fun k => ?_, ?_⟩
  · rw [List.take_append, List.count_append, List.count_append]
    exact Nat.add_le_add (ht.prefixes k) (hu.prefixes _)
  · rw [List.count_append, List.count_append, ht.closed, hu.closed]

theorem Nested.enclose (h : Nested ts) : Nested (opening :: (ts ++ [closing])) := by
  have hopen : closing ≠ opening := by decide
  refine ⟨fun k => ?_, ?_⟩
  · cases k with
    | zero => simp
    | succ k =>
      have hprefix := h.prefixes k
      have hlast : (List.take (k - ts.length) [closing]).count closing ≤ 1 :=
        (List.take_sublist _ _).count_le closing
      rw [List.take_succ_cons, List.take_append, List.count_cons_of_ne hopen.symm,
        List.count_cons_self, List.count_append, List.count_append]
      omega
  · rw [List.count_cons_of_ne hopen.symm, List.count_cons_self, List.count_append,
      List.count_append, h.closed, List.count_singleton_self, List.count_singleton]
    simp [hopen]

theorem Nested.of_ne (h : ∀ t ∈ ts, t ≠ opening ∧ t ≠ closing) : Nested ts := by
  have hopening : opening ∉ ts := fun hmem => (h _ hmem).1 rfl
  have hclosing : closing ∉ ts := fun hmem => (h _ hmem).2 rfl
  refine ⟨fun k => ?_, by rw [List.count_eq_zero.2 hopening, List.count_eq_zero.2 hclosing]⟩
  rw [List.count_eq_zero.2 fun hmem => hclosing (List.mem_of_mem_take hmem)]
  exact Nat.zero_le _

namespace Enclosable

theorem of_ne (hne : ts ≠ []) (h : ∀ t ∈ ts, t ≠ opening ∧ t ≠ closing) : Enclosable ts where
  nonempty := hne
  nested := .of_ne h
  filled := by
    rw [List.isChain_iff_forall_rel_of_append_cons_cons]
    rintro t u l₁ l₂ rfl ⟨rfl, -⟩
    exact (h opening (by simp)).1 rfl
  head hhead := (h closing (List.mem_of_mem_head? hhead)).2 rfl
  last hlast := (h opening (List.mem_of_mem_getLast? hlast)).1 rfl

theorem append (ht : Enclosable ts) (hu : Enclosable us) : Enclosable (ts ++ us) where
  nonempty := List.append_ne_nil_of_left_ne_nil ht.nonempty us
  nested := ht.nested.append hu.nested
  filled := by
    refine List.isChain_append.2 ⟨ht.filled, hu.filled, ?_⟩
    rintro t hlast u - ⟨rfl, -⟩
    exact ht.last hlast
  head := by rw [List.head?_append_of_ne_nil ts ht.nonempty]; exact ht.head
  last := by rw [List.getLast?_append_of_ne_nil _ hu.nonempty]; exact hu.last

theorem enclose (h : Enclosable ts) : Enclosable (opening :: (ts ++ [closing])) where
  nonempty := List.cons_ne_nil _ _
  nested := h.nested.enclose
  filled := by
    refine List.isChain_cons.2 ⟨?_, List.isChain_append.2 ⟨h.filled, by simp, ?_⟩⟩
    · rintro u hhead ⟨-, rfl⟩
      rw [List.head?_append_of_ne_nil ts h.nonempty] at hhead
      exact h.head hhead
    · rintro t hlast u - ⟨rfl, -⟩
      exact h.last hlast
  head := by simp [opening, closing, Token.sign]
  last := by
    rw [← List.cons_append, List.getLast?_concat]
    decide

theorem not_infix (h : Enclosable ts) : ¬ [opening, closing] <:+: ts := by
  intro hpair
  have hchain := List.IsChain.infix h.filled hpair
  exact (List.isChain_cons_cons.1 hchain).1 ⟨rfl, rfl⟩

end Enclosable

end FilterSql.Sql
