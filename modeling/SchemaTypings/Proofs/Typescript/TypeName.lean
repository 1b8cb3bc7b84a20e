/-
  SchemaTypings.Proofs.Typescript.TypeName

  The names that sanitizing gives and those of declared types: no word of the vocabulary is among
  them, and a sanitizer hands out nothing else.
-/
import SchemaTypings.Proofs.Naming.Letters
import SchemaTypings.Typescript.Vocabulary

namespace SchemaTypings.Typescript

open Naming (IsName Sanitizer Spelling isNameChar numbered)

/-! ## Safe names -/

/-- A name that equals no word of the vocabulary, in any case. -/
structure IsSafe (name : String) : Prop where
  isName : IsName name.toList
  not_has : vocabulary.has name.toList = false

/-- The words of the vocabulary end in letters. -/
theorem has_eq_false_of_getLast? {name : List Char} (hname : ∀ c ∈ name, isNameChar c = true)
    {last : Char} (hlast : name.getLast? = some last)
    (hsign : (last = '_' || last.isDigit) = true) : vocabulary.has name = false := by
  have hascii : ∀ c ∈ name, Text.isAscii c = true := fun c hc =>
    Naming.isAscii_of_isNameChar (hname c hc)
  have hlower : (Text.lower name).getLast?.map Char.isAlpha = some false := by
    have hlook := Naming.forall_ascii
      (p := fun c => !(c = '_' || c.isDigit) || !c.toLower.isAlpha) (by decide +kernel)
      (hascii last (List.mem_of_getLast? hlast))
    rw [hsign, Bool.not_true, Bool.false_or, Bool.not_eq_true'] at hlook
    rw [Text.lower, Text.lowerAfter_of_ascii [] name hascii, List.getLast?_map, hlast,
      Option.map_some, Option.map_some, hlook]
  have hwords : ∀ word ∈ reservedWords ++ builtinTypes,
      word.toList.getLast?.map Char.isAlpha = some true := by
    decide +kernel
  rw [Bool.eq_false_iff]
  intro hhas
  have hmem : String.ofList (Text.lower name) ∈ reservedWords ++ builtinTypes := by
    rw [Naming.Vocabulary.has, Bool.or_eq_true, List.contains_iff_mem, List.contains_iff_mem]
      at hhas
    exact List.mem_append.mpr hhas
  have htrue := hwords _ hmem
  rw [String.toList_ofList, hlower] at htrue
  cases htrue

theorem isSafe_sanitize {spelling : Spelling} (hspelling : spelling ≠ .kebab) (name : String) :
    IsSafe (Naming.sanitize vocabulary name spelling) := by
  have htext : (Naming.sanitize vocabulary name spelling).toList =
      Naming.sanitizeChars vocabulary spelling ['_'] name.toList := by
    rw [Naming.sanitize, String.toList_ofList]
    rfl
  have hname := Naming.isName_sanitizeChars vocabulary hspelling name.toList
  rw [← htext] at hname
  refine ⟨hname, ?_⟩
  rcases Naming.has_sanitizeChars vocabulary spelling name.toList with hfree | hlast
  · rw [htext, hfree]
  · rw [← htext] at hlast
    exact has_eq_false_of_getLast? hname.all_nameChar hlast (by decide)

theorem isSafe_numbered {word : String} (h : IsSafe word) (n : Nat) : IsSafe (numbered word n) := by
  obtain ⟨hname, last, hlast, hdigit⟩ := h.isName.numbered n
  refine ⟨hname, has_eq_false_of_getLast? hname.all_nameChar hlast ?_⟩
  rw [hdigit, Bool.or_true]

theorem isSafe_claim {names : Sanitizer} (h : names.vocabulary = vocabulary) {spelling : Spelling}
    (hspelling : spelling ≠ .kebab) (hint : String) : IsSafe (names.claim hint spelling).1 := by
  have hword := isSafe_sanitize hspelling hint
  rw [Sanitizer.claim, h]
  rcases Naming.firstFree_cases names.used (Naming.sanitize vocabulary hint spelling) with
    ⟨-, heq⟩ | ⟨-, n, -, heq⟩
  · rw [heq]
    exact hword
  · rw [heq]
    exact isSafe_numbered hword n

theorem IsSafe.ne {name : String} (h : IsSafe name) {word : List Char}
    (hword : vocabulary.has word = true) : name.toList ≠ word := by
  rintro rfl
  cases hword.symm.trans h.not_has

/-! ## Names of types -/

/-- The words that are no names of declared types. -/
def typeWords : List (List Char) :=
  ["any", "null", "string", "number", "boolean", "true", "false", "Array"].map String.toList

theorem has_of_mem_typeWords : ∀ word ∈ typeWords, vocabulary.has word = true := by
  decide +kernel

/-- The name of a declared type. -/
structure IsTypeName (name : String) : Prop where
  isName : IsName name.toList
  not_word : name.toList ∉ typeWords

/-- What a sanitizer of type names hands out is the name of a declared type. -/
theorem isTypeName_claim {names : Sanitizer} (h : names.vocabulary = vocabulary) (hint : String) :
    IsTypeName (names.claim hint).1 := by
  have hsafe : IsSafe (names.claim hint).1 := isSafe_claim h (by decide) hint
  exact ⟨hsafe.isName, fun hword => hsafe.ne (has_of_mem_typeWords _ hword) rfl⟩

end SchemaTypings.Typescript
