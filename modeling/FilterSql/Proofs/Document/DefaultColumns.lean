import FilterSql.Document.Schema
import FilterSql.Proofs.Sql.Lexing
import Mathlib
/-!
# Default columns

A property without a column of its own takes its name with an underscore in front of each capital.
A name that has no underscore, and no capital at its start, is read back from its column: every
underscore there stands for a capital. So two such properties never share a default column.
-/
namespace FilterSql

/-- A name with capitals for the starts of words: no underscores and no capital at the start. -/
structure IsCamelCase (name : String) : Prop where
  underscore_not_mem : '_' ∉ name.toList
  head_isUpper : name.toList.head?.any Char.isUpper = false

instance (name : String) : Decidable (IsCamelCase name) :=
  decidable_of_iff ('_' ∉ name.toList ∧ name.toList.head?.any Char.isUpper = false)
    ⟨fun h => ⟨h.1, h.2⟩, fun h => ⟨h.1, h.2⟩⟩

def snakePiece (c : Char) : List Char := if c.isUpper then ['_', c.toLower] else [c]

/-- Each underscore and the letter behind it make a capital. -/
def joinWords : List Char → List Char
  | '_' :: c :: s => c.toUpper :: joinWords s
  | c :: s => c :: joinWords s
  | [] => []

def camelCase (column : String) : String := String.ofList (joinWords column.toList)

theorem toList_snakeCase (name : String) :
    (snakeCase name).toList =
      (name.toList.head?.map Char.toLower).toList ++ name.toList.tail.flatMap snakePiece := by
  rw [snakeCase]
  split
  next h => rw [h]; rfl
  next h => rw [h, String.toList_ofList]; rfl

theorem snakePiece_of_isUpper {c : Char} (h : c.isUpper = true) :
    snakePiece c = ['_', c.toLower] := if_pos h

theorem snakePiece_of_not_isUpper {c : Char} (h : c.isUpper = false) : snakePiece c = [c] :=
  if_neg (by rw [h]; decide)

theorem toUpper_toLower_of_isUpper {c : Char} (h : c.isUpper = true) :
    c.toLower.toUpper = c := by
  rw [Char.toUpper_toLower_eq_toUpper,
    Char.toUpper_eq_of_not_isLower (Char.not_isLower_of_isUpper h)]

theorem joinWords_cons {c : Char} (s : List Char) (h : c ≠ '_') :
    joinWords (c :: s) = c :: joinWords s := by
  rw [joinWords]
  rintro _ _ rfl
  exact absurd rfl h

theorem joinWords_flatMap_snakePiece {s : List Char} (h : '_' ∉ s) :
    joinWords (s.flatMap snakePiece) = s := by
  induction s with
  | nil => rfl
  | cons c s ih =>
    obtain ⟨hc, hs⟩ := List.ne_and_not_mem_of_not_mem_cons h
    rw [List.flatMap_cons]
    cases hu : c.isUpper with
    | true =>
      rw [snakePiece_of_isUpper hu]
      change c.toLower.toUpper :: joinWords (s.flatMap snakePiece) = c :: s
      rw [toUpper_toLower_of_isUpper hu, ih hs]
    | false =>
      rw [snakePiece_of_not_isUpper hu, List.singleton_append, joinWords_cons _ hc.symm, ih hs]

theorem camelCase_snakeCase {name : String} (h : IsCamelCase name) :
    camelCase (snakeCase name) = name := by
  obtain ⟨hmem, hhead⟩ := h
  rw [camelCase, toList_snakeCase]
  apply String.toList_injective
  rw [String.toList_ofList]
  cases hn : name.toList with
  | nil => rfl
  | cons c s =>
    rw [hn] at hmem hhead
    obtain ⟨hc, hs⟩ := List.ne_and_not_mem_of_not_mem_cons hmem
    have hlower : c.toLower = c :=
      Char.toLower_eq_of_not_isUpper (by rw [show c.isUpper = false from hhead]; decide)
    change joinWords (c.toLower :: s.flatMap snakePiece) = c :: s
    rw [hlower, joinWords_cons _ hc.symm, joinWords_flatMap_snakePiece hs]

theorem snakeCase_ne {m n : String} (hm : IsCamelCase m) (hn : IsCamelCase n) (hne : m ≠ n) :
    snakeCase m ≠ snakeCase n := by
  intro heq
  apply hne
  calc m = camelCase (snakeCase m) := (camelCase_snakeCase hm).symm
    _ = camelCase (snakeCase n) := by rw [heq]
    _ = n := camelCase_snakeCase hn

theorem not_isUpper_of_mem_snakePiece {c d : Char} (h : d ∈ snakePiece c) : d.isUpper = false := by
  cases hu : c.isUpper with
  | true =>
    rw [snakePiece_of_isUpper hu] at h
    rcases List.mem_pair.1 h with rfl | rfl
    · rfl
    · exact Char.isUpper_toLower_eq_false c
  | false =>
    rw [snakePiece_of_not_isUpper hu, List.mem_singleton] at h
    rw [h, hu]

theorem not_isUpper_of_mem_snakeCase {name : String} {c : Char} (h : c ∈ (snakeCase name).toList) :
    c.isUpper = false := by
  rw [toList_snakeCase, List.mem_append, Option.mem_toList,
    Option.map_eq_some_iff] at h
  rcases h with ⟨d, -, rfl⟩ | h
  · exact Char.isUpper_toLower_eq_false d
  · obtain ⟨d, -, hd⟩ := List.mem_flatMap.1 h
    exact not_isUpper_of_mem_snakePiece hd

theorem flatMap_snakePiece_of_lower {s : List Char} (h : ∀ c ∈ s, c.isUpper = false) :
    s.flatMap snakePiece = s := by
  induction s with
  | nil => rfl
  | cons c s ih =>
    obtain ⟨hc, hs⟩ := List.forall_mem_cons.1 h
    rw [List.flatMap_cons, snakePiece_of_not_isUpper hc, ih hs, List.singleton_append]

theorem snakeCase_of_lower {name : String} (h : ∀ c ∈ name.toList, c.isUpper = false) :
    snakeCase name = name := by
  apply String.toList_injective
  rw [toList_snakeCase]
  cases hn : name.toList with
  | nil => rfl
  | cons c s =>
    rw [hn] at h
    obtain ⟨hc, hs⟩ := List.forall_mem_cons.1 h
    change c.toLower :: s.flatMap snakePiece = c :: s
    rw [Char.toLower_eq_of_not_isUpper (by rw [hc]; decide), flatMap_snakePiece_of_lower hs]

open Sql

theorem isNameStart_toLower {c : Char} (h : isNameStart c = true) :
    isNameStart c.toLower = true := by
  rw [isNameStart, Bool.or_eq_true, beq_iff_eq] at h ⊢
  rcases h with h | rfl
  · exact .inl (by rw [Char.isAlpha_toLower_eq_isAlpha, h])
  · exact .inr rfl

theorem isNameChar_of_mem_snakePiece {c d : Char} (hc : isNameChar c = true)
    (hd : d ∈ snakePiece c) : isNameChar d = true := by
  cases hu : c.isUpper with
  | true =>
    have hstart : isNameStart c = true := by simp [isNameStart, Char.isAlpha, hu]
    rw [snakePiece_of_isUpper hu] at hd
    rcases List.mem_pair.1 hd with rfl | rfl
    · rfl
    · exact isNameChar_of_isNameStart (isNameStart_toLower hstart)
  | false =>
    rw [snakePiece_of_not_isUpper hu, List.mem_singleton] at hd
    rwa [hd]

theorem isName_snakeCase {name : String} (h : isName name.toList = true) :
    isName (snakeCase name).toList = true := by
  obtain ⟨c, s, hn, hc, hs⟩ := isName_cases h
  rw [toList_snakeCase, hn]
  change isName (c.toLower :: s.flatMap snakePiece) = true
  rw [isName, Bool.and_eq_true]
  refine ⟨isNameStart_toLower hc, List.all_eq_true.2 fun d hd => ?_⟩
  obtain ⟨e, he, hmem⟩ := List.mem_flatMap.1 hd
  exact isNameChar_of_mem_snakePiece (List.all_eq_true.1 hs e he) hmem

namespace Schema

variable {α : Type} [DocumentFormat α]

open Document DocumentFormat

/-- A record without a column declares a property with its default column. -/
theorem column_of_missing {a : α} {fields : List (String × α)} {name : String} {f : Field}
    (ha : shape? a = some (.record fields)) (hcolumn : slot? fields ["column"] = some .missing)
    (hf : field? a = some (name, f)) : f.column = snakeCase name := by
  obtain ⟨slots, hslots, hf⟩ := Option.bind_eq_some_iff.1 hf
  simp only [slots?, ha, List.mapM_cons, List.mapM_nil, hcolumn, Option.bind_eq_bind,
    Option.bind_eq_some_iff, Option.pure_def, Option.some.injEq, exists_eq_left'] at hslots
  obtain ⟨slot, -, _, ⟨_, ⟨kind, -, _, ⟨nullable, -, rfl⟩, rfl⟩, rfl⟩, rfl⟩ := hslots
  simp only [Slot.optional?, Option.bind_eq_bind, Option.bind_eq_some_iff, Option.some.injEq,
    Prod.mk.injEq, exists_eq_left', Option.getD_none] at hf
  obtain ⟨_, -, _, -, _, -, rfl, rfl⟩ := hf
  rfl

/-- Two properties that are declared without columns have two columns. -/
theorem columns_ne {a b : α} {fields fields' : List (String × α)} {m n : String} {f g : Field}
    (ha : shape? a = some (.record fields)) (hb : shape? b = some (.record fields'))
    (hcolumn : slot? fields ["column"] = some .missing)
    (hcolumn' : slot? fields' ["column"] = some .missing)
    (hf : field? a = some (m, f)) (hg : field? b = some (n, g))
    (hm : IsCamelCase m) (hn : IsCamelCase n) (hne : m ≠ n) : f.column ≠ g.column := by
  rw [column_of_missing ha hcolumn hf, column_of_missing hb hcolumn' hg]
  exact snakeCase_ne hm hn hne

end Schema

/-- Default columns do not collide: names in camel case are read back from their columns. Every
default column is without capitals, an identifier if its property is one, and its own column. -/
theorem default_columns :
    (∀ name, IsCamelCase name → camelCase (snakeCase name) = name) ∧
    (∀ m n, IsCamelCase m → IsCamelCase n → m ≠ n → snakeCase m ≠ snakeCase n) ∧
    ∀ name, (∀ c ∈ (snakeCase name).toList, c.isUpper = false) ∧
      (isName name.toList = true → isName (snakeCase name).toList = true) ∧
      snakeCase (snakeCase name) = snakeCase name := by
  refine ⟨fun _ => camelCase_snakeCase, fun _ _ => snakeCase_ne, fun name => ⟨?_, ?_, ?_⟩⟩
  · exact fun c => not_isUpper_of_mem_snakeCase
  · exact isName_snakeCase
  · exact snakeCase_of_lower fun c => not_isUpper_of_mem_snakeCase

theorem snakeCase_customerID_ne :
    IsCamelCase "customerId" ∧ IsCamelCase "customerID" ∧ "customerId" ≠ "customerID" ∧
    snakeCase "customerId" = "customer_id" ∧ snakeCase "customerID" = "customer_i_d" ∧
    camelCase (snakeCase "customerID") = "customerID" ∧
    snakeCase "customerId" ≠ snakeCase "customerID" ∧
    isName "OrderItem".toList = true ∧ isName (snakeCase "OrderItem").toList = true :=
  have hId : IsCamelCase "customerId" := by decide
  have hID : IsCamelCase "customerID" := by decide
  have hItem : isName "OrderItem".toList = true := by decide
  ⟨hId, hID, by decide, by decide, by decide, default_columns.1 "customerID" hID,
    default_columns.2.1 _ _ hId hID (by decide), hItem, (default_columns.2.2 "OrderItem").2.1 hItem⟩

end FilterSql
