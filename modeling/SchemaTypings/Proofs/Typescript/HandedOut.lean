/-
  SchemaTypings.Proofs.Typescript.HandedOut

  What is known of every name that is handed out for a type: it is an identifier outside the
  vocabulary, and no other word that a type is written with.
-/
import SchemaTypings.Proofs.Typescript.DeclaredName
import SchemaTypings.Proofs.Typescript.Mentions

namespace SchemaTypings.Typescript

open Naming (Sanitizer isNameChar finish numbered)

/-- A name that is handed out for a type. -/
structure IsHandedOut (name : String) : Prop extends IsSafe name where
  head_not_lower : ∀ c ∈ name.toList.head?, c.isLower = true → c = 'f'

/-- Only the name that stands for none, `field`, begins with a small letter. -/
theorem head_not_lower_finish {word : List Char} (hword : ∀ c ∈ word.head?, c.isLower = false) :
    ∀ c ∈ (finish vocabulary word).head?, c.isLower = true → c = 'f' := by
  have hanchor : Naming.anchor word ≠ [] ∧
      ∀ c ∈ (Naming.anchor word).head?, c.isLower = true → c = 'f' := by
    cases word with
    | nil => exact ⟨List.cons_ne_nil _ _, fun c hc _ => (Option.some.inj hc).symm⟩
    | cons first rest =>
      rw [Naming.anchor]
      split
      · refine ⟨List.cons_ne_nil _ _, fun c hc hlower => ?_⟩
        cases hc
        cases hlower
      · refine ⟨List.cons_ne_nil _ _, fun c hc hlower => ?_⟩
        rw [hword c hc] at hlower
        cases hlower
  rw [finish]
  split
  · rw [List.head?_append_of_ne_nil _ hanchor.1]
    exact hanchor.2
  · exact hanchor.2

theorem isHandedOut_typeName (hint : String) : IsHandedOut (typeName hint) := by
  refine ⟨isSafe_sanitize (by decide) hint, ?_⟩
  rw [toList_typeName]
  exact head_not_lower_finish (Naming.isCapitalised_pascal_clean hint.toList).head_not_lower

theorem isHandedOut_numbered {word : String} (h : IsHandedOut word) (n : Nat) :
    IsHandedOut (numbered word n) := by
  refine ⟨isSafe_numbered h.toIsSafe n, ?_⟩
  rw [Naming.toList_numbered, List.head?_append_of_ne_nil _ h.isName.ne_nil]
  exact h.head_not_lower

theorem isHandedOut_claim {names : Sanitizer} (hv : names.vocabulary = vocabulary) (hint : String) :
    IsHandedOut (names.claim hint).1 := by
  rcases claim_cases hv hint with heq | ⟨n, heq⟩
  · rw [heq]
    exact isHandedOut_typeName hint
  · rw [heq]
    exact isHandedOut_numbered (isHandedOut_typeName hint) n

theorem claimedFrom_isHandedOut : ClaimedFrom (fun _ => True) IsHandedOut where
  claim hint _ hv _ := isHandedOut_claim hv hint
  name _ _ := trivial
  append _ _ _ := trivial

theorem isHandedOut_of_mem_declaredNames {node : SchemaNode} {name declared : String}
    (h : declared ∈ declaredNames node name) : IsHandedOut declared :=
  forall_declaredNames claimedFrom_isHandedOut (isHandedOut_claim rfl name) declared h

/-- What is handed out is told apart from fixed words. -/
theorem IsHandedOut.isDistinct {name : String} (h : IsHandedOut name) : IsDistinct name := by
  have hparts : ∀ c, isNameChar c = true → Naming.isIdentifierPart c = true := by
    intro c hc
    rw [isNameChar, Char.isAlphanum, Bool.or_eq_true, Bool.or_eq_true, decide_eq_true_eq] at hc
    rw [Naming.isIdentifierPart, Naming.isIdentifierStart]
    rcases hc with (halpha | hdigit) | rfl
    · rw [halpha]
      rfl
    · rw [hdigit, Bool.or_true]
    · rfl
  refine ⟨h.isName.ne_nil, fun c hc => hparts c (h.isName.all_nameChar c hc), ?_⟩
  have hnot := h.not_has
  have hhead := h.head_not_lower
  have hdigit := h.isName.head_not_digit
  rw [Bool.eq_false_iff]
  intro hfixed
  -- The words of types are in the vocabulary, and no name begins as the others do.
  rw [isFixedWord, Bool.or_eq_true, Bool.or_eq_true, List.contains_iff_mem, decide_eq_true_eq]
    at hfixed
  rcases hfixed with (hword | hk) | hnumber
  · rw [has_of_mem_typeWords _ hword] at hnot
    cases hnot
  · rw [hk] at hhead
    exact absurd (hhead 'k' rfl (by decide)) (by decide)
  · cases hchars : name.toList with
    | nil => exact h.isName.ne_nil hchars
    | cons c rest =>
      rw [hchars] at hhead hdigit hnumber
      rw [List.all_cons, hdigit c rfl, Bool.false_or, Bool.and_eq_true, decide_eq_true_eq]
        at hnumber
      have hf := hhead c rfl (by rw [hnumber.1]; decide)
      rw [hnumber.1] at hf
      revert hf
      decide

end SchemaTypings.Typescript
