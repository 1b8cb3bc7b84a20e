/-
  SchemaTypings.Proofs.Typescript.StringLiteral

  What a string literal stands for: the UTF-16 units behind an opening quote, up to the first quote
  that is not escaped.
-/
import SchemaTypings.Proofs.Json.Units

namespace SchemaTypings.Typescript

open Json (unitsOf textUnits)

/-! ## The reader -/

/-- A character that ends a line. -/
def isLineTerminator (c : Char) : Bool :=
  c = '\n' || c = '\r' || c = '\u2028' || c = '\u2029'

/-- The code point that a row of hexadecimal digits stands for. -/
def codePoint? (digits : List Char) : Option Nat :=
  digits.foldl (fun n? c => do return 16 * (← n?) + (← Json.hexValue? c)) (some 0)

/-- The code point that one character behind a backslash stands for: a control, or itself.  The
digits and the letters of longer escapes have none. -/
def escapedCode? (c : Char) : Option Nat :=
  match c with
  | 'b' => some 0x08
  | 't' => some 0x09
  | 'n' => some 0x0A
  | 'v' => some 0x0B
  | 'f' => some 0x0C
  | 'r' => some 0x0D
  | 'x' | 'u' => none
  | c => if c.isDigit then none else some c.toNat

/-- The units of an escape behind its backslash, and what is behind it. -/
def readEscape : List Char → Option (List Nat × List Char)
  | 'x' :: a :: b :: rest => (Json.hexValue4? '0' '0' a b).map fun n => ([n], rest)
  | 'u' :: '\x7b' :: rest =>
    match rest.dropWhile (· ≠ '\x7d'), codePoint? (rest.takeWhile (· ≠ '\x7d')) with
    | _ :: behind, some n =>
      if rest.head? = some '\x7d' ∨ 0x10FFFF < n then none else some (unitsOf n, behind)
    | _, _ => none
  | 'u' :: a :: b :: c :: d :: rest => (Json.hexValue4? a b c d).map fun n => ([n], rest)
  | '0' :: rest => if rest.head?.any Char.isDigit then none else some ([0], rest)
  -- A line goes on behind a backslash at its end.
  | '\r' :: '\n' :: rest => some ([], rest)
  | c :: rest =>
    if isLineTerminator c then some ([], rest)
    else (escapedCode? c).map fun n => (unitsOf n, rest)
  | [] => none

theorem length_lt_of_readEscape {cs rest : List Char} {units : List Nat}
    (h : readEscape cs = some (units, rest)) : rest.length < cs.length := by
  unfold readEscape at h
  -- every form of escape takes at least the character behind the backslash
  split at h
  · obtain ⟨n, -, heq⟩ := Option.map_eq_some_iff.mp h
    cases heq
    simp only [List.length_cons]
    omega
  · next behind =>
    split at h
    · next closing tail _ hdrop _ =>
      split at h
      · cases h
      · cases h
        have hle := (List.dropWhile_suffix (l := behind) (· ≠ '\x7d')).length_le
        rw [hdrop, List.length_cons] at hle
        simp only [List.length_cons]
        omega
    · cases h
  · obtain ⟨n, -, heq⟩ := Option.map_eq_some_iff.mp h
    cases heq
    simp only [List.length_cons]
    omega
  · split at h
    · cases h
    · cases h
      exact Nat.lt_succ_self _
  · cases h
    simp only [List.length_cons]
    omega
  · split at h
    · cases h
      exact Nat.lt_succ_self _
    · obtain ⟨n, -, heq⟩ := Option.map_eq_some_iff.mp h
      cases heq
      exact Nat.lt_succ_self _
  · cases h

/-- The units of a string literal behind its opening quote, up to its closing quote, and what is
behind that.  A raw line feed or carriage return breaks the literal. -/
def readLiteral (quote : Char) : List Char → Option (List Nat × List Char)
  | [] => none
  | c :: rest =>
    if c = quote then some ([], rest)
    else if c = '\\' then
      match _h : readEscape rest with
      | some (units, behind) =>
        (readLiteral quote behind).map fun (more, rest) => (units ++ more, rest)
      | none => none
    else if c = '\n' ∨ c = '\r' then none
    else (readLiteral quote rest).map fun (more, rest) => (unitsOf c.toNat ++ more, rest)
termination_by cs => cs.length
decreasing_by
  · have := length_lt_of_readEscape _h
    simp only [List.length_cons]
    omega
  · simp

section
variable {quote : Char}

/-- A literal ends at a quote that is reached. -/
theorem readLiteral_quote (rest : List Char) : readLiteral quote (quote :: rest) = some ([], rest) := by
  rw [readLiteral, if_pos rfl]

/-- What stands for itself is read as itself. -/
theorem readLiteral_cons {c : Char} (hquote : c ≠ quote) (hbackslash : c ≠ '\\')
    (hfeed : c ≠ '\n') (hreturn : c ≠ '\r') (rest : List Char) :
    readLiteral quote (c :: rest) =
      (readLiteral quote rest).map fun (more, rest) => (unitsOf c.toNat ++ more, rest) := by
  rw [readLiteral, if_neg hquote, if_neg hbackslash, if_neg (by simp [hfeed, hreturn])]

/-- An escape that is read. -/
theorem readLiteral_escape (hquote : quote ≠ '\\') {cs rest : List Char} {units : List Nat}
    (h : readEscape cs = some (units, rest)) :
    readLiteral quote ('\\' :: cs) =
      (readLiteral quote rest).map fun (more, rest) => (units ++ more, rest) := by
  rw [readLiteral, if_neg (Ne.symm hquote), if_pos rfl]
  split
  · next heq =>
    rw [h] at heq
    cases heq
    rfl
  · next heq => rw [h] at heq; cases heq

end

example : readEscape "u\x7b1f600\x7d!".toList = some (textUnits ['😀'], ['!']) := by decide

end SchemaTypings.Typescript
