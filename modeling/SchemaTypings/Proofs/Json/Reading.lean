/-
  SchemaTypings.Proofs.Json.Reading

  The text of a string or of a natural number is read back, whatever follows it.
-/
import SchemaTypings.Json.Parser
import SchemaTypings.Json.Printer

namespace SchemaTypings.Json

/-! ## Digits -/

theorem ofDigits_eq_ofDigitChars (ds : List Char) : ofDigits ds = Nat.ofDigitChars 10 ds 0 := by
  rw [Nat.ofDigitChars_eq_foldl, ofDigits]

theorem ofDigits_toDigits (n : Nat) : ofDigits (Nat.toDigits 10 n) = n := by
  rw [ofDigits_eq_ofDigitChars, Nat.ofDigitChars_ten_toDigits]

theorem isDigit_of_mem_toDigits {n : Nat} {c : Char} (h : c ∈ Nat.toDigits 10 n) :
    c.isDigit = true :=
  Nat.isDigit_of_mem_toDigits (by decide) (by decide) h

/-! ## Strings -/

/-- An escaped control is read back. -/
theorem hexValue4?_hexDigits : ∀ n < 0x20, ∃ a b c d,
    hexDigits 4 n = [a, b, c, d] ∧ hexValue4? a b c d = some n := by
  intro n hn
  refine ⟨'0', '0', (hexDigits 4 n).getD 2 '0', (hexDigits 4 n).getD 3 '0', ?_⟩
  revert n
  decide +kernel

/-- A character of a string is read back as its code point. -/
theorem stringUnits_escapeChar (c : Char) (rest : List Char) :
    stringUnits (escapeChar c ++ rest) =
      (stringUnits rest).map fun (units, rest) => (c.toNat :: units, rest) := by
  unfold escapeChar
  split
  · next h => subst h; rfl
  split
  · next h => subst h; rfl
  split
  · next h => subst h; rfl
  split
  · next h => subst h; rfl
  split
  · next h => subst h; rfl
  split
  · next h => subst h; rfl
  split
  · next h => subst h; rfl
  split
  · next hcontrol =>
    obtain ⟨x, y, z, w, hdigits, hvalue⟩ := hexValue4?_hexDigits _ hcontrol
    rw [escapeUnit, hdigits]
    simp only [List.cons_append, List.nil_append]
    rw [stringUnits.eq_def]
    simp only [hvalue]
  · next hquote hbackslash _ _ _ _ _ hvisible =>
    rw [List.singleton_append, stringUnits.eq_def]
    split
    · next heq => cases heq
    · next heq => cases heq; exact absurd rfl hquote
    · next heq => cases heq; exact absurd rfl hbackslash
    · next heq => cases heq; exact absurd rfl hbackslash
    · next heq =>
      cases heq
      rw [if_neg (by simp [hvisible, hbackslash])]

theorem stringUnits_quoted (cs rest : List Char) :
    stringUnits (cs.flatMap escapeChar ++ '"' :: rest) = .ok (cs.map Char.toNat, rest) := by
  induction cs with
  | nil => rfl
  | cons c cs ih =>
    rw [List.flatMap_cons, List.append_assoc, stringUnits_escapeChar, ih]
    rfl

/-- No character is half of a pair. -/
theorem charOfUnit_toNat (c : Char) : charOfUnit c.toNat = c ∧ isHighUnit c.toNat = false := by
  have hvalid : c.toNat < 0xD800 ∨ (0xDFFF < c.toNat ∧ c.toNat < 0x110000) := c.valid
  have hhigh : isHighUnit c.toNat = false := by
    simp only [isHighUnit, Bool.and_eq_false_iff, decide_eq_false_iff_not]
    omega
  have hlow : isLowUnit c.toNat = false := by
    simp only [isLowUnit, Bool.and_eq_false_iff, decide_eq_false_iff_not]
    omega
  refine ⟨?_, hhigh⟩
  rw [charOfUnit, hhigh, hlow]
  exact Char.ofNat_toNat c

theorem charsOfUnits_map_toNat (cs : List Char) : charsOfUnits (cs.map Char.toNat) = cs := by
  induction cs with
  | nil => rfl
  | cons c cs ih =>
    obtain ⟨hc, hhigh⟩ := charOfUnit_toNat c
    cases cs with
    | nil => simp [charsOfUnits, hc]
    | cons d ds =>
      rw [List.map_cons, List.map_cons, charsOfUnits, hhigh]
      simp only [Bool.false_and, Bool.false_eq_true, if_false]
      rw [hc, ← List.map_cons, ih]

/-- The text of a string behind its opening quote is read back. -/
theorem stringBody_quoted (s : String) (rest : List Char) :
    stringBody (s.toList.flatMap escapeChar ++ '"' :: rest) = .ok (s, rest) := by
  rw [stringBody, stringUnits_quoted]
  simp only [Except.map, charsOfUnits_map_toNat, String.ofList_toList]

end SchemaTypings.Json
