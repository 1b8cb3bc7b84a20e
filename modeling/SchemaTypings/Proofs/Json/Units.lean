/-
  SchemaTypings.Proofs.Json.Units

  The UTF-16 units of a text.  Units that belong together are put together again, so the units of a
  text tell it.
-/
import SchemaTypings.Proofs.Json.Reading
import Mathlib.Logic.Function.Basic

namespace SchemaTypings.Json

/-- The units of a code point: itself, or a pair if it is beyond the basic plane. -/
def unitsOf (n : Nat) : List Nat :=
  if n < 0x10000 then [n]
  else [0xD800 + (n - 0x10000) / 0x400, 0xDC00 + (n - 0x10000) % 0x400]

/-- The units of a text. -/
def textUnits (cs : List Char) : List Nat := cs.flatMap fun c => unitsOf c.toNat

/-- The units of a character in front make this character: no character is half of a pair. -/
theorem charsOfUnits_unitsOf_append (c : Char) (units : List Nat) :
    charsOfUnits (unitsOf c.toNat ++ units) = c :: charsOfUnits units := by
  have hvalid : c.toNat < 0xD800 ∨ (0xDFFF < c.toNat ∧ c.toNat < 0x110000) := c.valid
  unfold unitsOf
  split
  · obtain ⟨hc, hhigh⟩ := charOfUnit_toNat c
    cases units with
    | nil => simp only [List.append_nil, charsOfUnits, hc]
    | cons next rest =>
      rw [List.singleton_append, charsOfUnits, hhigh, Bool.false_and, if_neg Bool.false_ne_true, hc]
  · next hbeyond =>
    have hpair : (isHighUnit (0xD800 + (c.toNat - 0x10000) / 0x400) &&
        isLowUnit (0xDC00 + (c.toNat - 0x10000) % 0x400)) = true := by
      simp only [isHighUnit, isLowUnit, Bool.and_eq_true, decide_eq_true_eq]
      omega
    have hcode : 0x10000 + (0xD800 + (c.toNat - 0x10000) / 0x400 - 0xD800) * 0x400 +
        (0xDC00 + (c.toNat - 0x10000) % 0x400 - 0xDC00) = c.toNat := by omega
    rw [List.cons_append, List.singleton_append, charsOfUnits, if_pos hpair, hcode,
      Char.ofNat_toNat]

/-- A text is put together from its units. -/
theorem charsOfUnits_textUnits (cs : List Char) : charsOfUnits (textUnits cs) = cs := by
  induction cs with
  | nil => rfl
  | cons c cs ih =>
    rw [textUnits, List.flatMap_cons, charsOfUnits_unitsOf_append, ← textUnits, ih]

theorem textUnits_injective : Function.Injective textUnits :=
  Function.LeftInverse.injective charsOfUnits_textUnits

end SchemaTypings.Json
