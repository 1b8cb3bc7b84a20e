/-
  SchemaTypings.Proofs.Naming.KeyReader

  A reader of property keys, and what it makes of the keys that are written: a quoted key is read as
  the name it was written for; of a bare one white space at the end is no part.
-/
import SchemaTypings.Naming.PropertyKey
import SchemaTypings.Proofs.Json.Reading
import Mathlib.Data.List.TakeWhile

namespace SchemaTypings.Naming

/-! ## The reader -/

/-- The character that a backslash and one other stand for. -/
def unescaped? : Char → Option Char
  | 'b' => some '\x08'
  | 'f' => some '\x0c'
  | 'n' => some '\n'
  | 'r' => some '\r'
  | 't' => some '\t'
  | 'v' => some '\x0b'
  | c => if c.isAlphanum || c = '\n' || c = '\r' then none else some c

/-- The character of a code point that is no half of a pair. -/
def charOfCode? (n : Nat) : Option Char :=
  if Json.isHighUnit n || Json.isLowUnit n then none else some (Char.ofNat n)

/-- The characters of a string up to its closing quote, and what is behind. -/
def readQuoted (quote : Char) : List Char → Option (List Char × List Char)
  | '\\' :: 'x' :: a :: b :: rest =>
    match Json.hexValue4? '0' '0' a b with
    | some n => (readQuoted quote rest).map fun (cs, rest) => (Char.ofNat n :: cs, rest)
    | none => none
  | '\\' :: 'u' :: a :: b :: c :: d :: rest =>
    match (Json.hexValue4? a b c d).bind charOfCode? with
    | some char => (readQuoted quote rest).map fun (cs, rest) => (char :: cs, rest)
    | none => none
  | '\\' :: e :: rest =>
    match unescaped? e with
    | some char => (readQuoted quote rest).map fun (cs, rest) => (char :: cs, rest)
    | none => none
  | c :: rest =>
    if c = quote then some ([], rest)
    else if c = '\\' ∨ c = '\n' ∨ c = '\r' then none
    else (readQuoted quote rest).map fun (cs, rest) => (c :: cs, rest)
  | [] => none

/-- The name that a key stands for: a string, or an identifier with nothing but white space behind
it. -/
def readKey (quote : Char) (key : List Char) : Option (List Char) :=
  match key with
  | [] => none
  | c :: rest =>
    if c = quote then
      match readQuoted quote rest with
      | some (name, []) => some name
      | _ => none
    else if isIdentifierStart c && (rest.dropWhile isIdentifierPart).all Text.isBlank then
      some (c :: rest.takeWhile isIdentifierPart)
    else none

/-- The name that the key of a name is read as: an identifier loses a line feed behind it. -/
def nameAsRead (name : List Char) : List Char :=
  if isIdentifier name then dropFinalNewline name else name

/-! ## Quoted keys -/

/-- A control is read back. -/
theorem hexValue4?_hexDigits_two : ∀ n ≤ 0x7F, ∃ a b,
    Json.hexDigits 2 n = [a, b] ∧ Json.hexValue4? '0' '0' a b = some n := by
  intro n hn
  refine ⟨(Json.hexDigits 2 n).getD 0 '0', (Json.hexDigits 2 n).getD 1 '0', ?_⟩
  revert n
  decide +kernel

section
variable {quote : Char} (hquote : quote = '\'' ∨ quote = '"')
include hquote

/-- A character of a quoted key is read back. -/
theorem readQuoted_escapeKeyChar (c : Char) (rest : List Char) :
    readQuoted quote (escapeKeyChar [quote] c ++ rest) =
      (readQuoted quote rest).map fun (cs, rest) => (c :: cs, rest) := by
  -- One choice after the other: all of them at once are slow to split.
  unfold escapeKeyChar
  by_cases hquoted : [c] = [quote]
  · rw [if_pos hquoted]
    cases hquoted
    rcases hquote with rfl | rfl <;> rfl
  rw [if_neg hquoted]
  by_cases hbackslash : c = '\\'
  · subst hbackslash
    rfl
  rw [if_neg hbackslash]
  by_cases hfeed : c = '\n'
  · subst hfeed
    rfl
  rw [if_neg hfeed]
  by_cases hreturn : c = '\r'
  · subst hreturn
    rfl
  rw [if_neg hreturn]
  by_cases htab : c = '\t'
  · subst htab
    rfl
  rw [if_neg htab]
  by_cases hbackspace : c = '\x08'
  · subst hbackspace
    rfl
  rw [if_neg hbackspace]
  by_cases hformFeed : c = '\x0c'
  · subst hformFeed
    rfl
  rw [if_neg hformFeed]
  by_cases hverticalTab : c = '\x0b'
  · subst hverticalTab
    rfl
  rw [if_neg hverticalTab]
  by_cases hline : c = '\u2028'
  · subst hline
    rfl
  rw [if_neg hline]
  by_cases hparagraph : c = '\u2029'
  · subst hparagraph
    rfl
  rw [if_neg hparagraph]
  by_cases hcontrol : c.toNat < 0x20 ∨ c.toNat = 0x7F
  · rw [if_pos hcontrol]
    obtain ⟨x, y, hdigits, hvalue⟩ := hexValue4?_hexDigits_two c.toNat (by omega)
    rw [hdigits, List.cons_append, List.cons_append, List.cons_append, List.cons_append,
      List.nil_append, readQuoted, hvalue]
    simp only [Char.ofNat_toNat]
  rw [if_neg hcontrol]
  have hne : c ≠ quote := fun heq => hquoted (by rw [heq])
  rw [List.singleton_append, readQuoted.eq_4 quote c rest (fun _ _ _ h _ => hbackslash h)
    (fun _ _ _ _ _ h _ => hbackslash h) (fun _ _ h _ => hbackslash h), if_neg hne,
    if_neg (by simp [hbackslash, hfeed, hreturn])]

theorem readQuoted_flatMap (name rest : List Char) :
    readQuoted quote (name.flatMap (escapeKeyChar [quote]) ++ quote :: rest) =
      some (name, rest) := by
  induction name with
  | nil => rcases hquote with rfl | rfl <;> rfl
  | cons c name ih =>
    rw [List.flatMap_cons, List.append_assoc, readQuoted_escapeKeyChar hquote, ih]
    rfl

/-! ## All keys -/

omit hquote in
theorem eq_or_eq_append_of_dropFinalNewline (name : List Char) :
    name = dropFinalNewline name ∨ name = dropFinalNewline name ++ ['\n'] := by
  unfold dropFinalNewline
  split
  · next h =>
    obtain ⟨word, rfl⟩ := List.getLast?_eq_some_iff.mp h
    exact .inr (by rw [List.dropLast_concat])
  · exact .inl rfl

omit hquote in
/-- A test of words that hold no line feed, made without one final line feed: it lets a word through
and a word with a line feed behind it. -/
theorem dropFinalNewline_iff {p : List Char → Prop} (hp : ∀ word, p word → '\n' ∉ word)
    (name : List Char) :
    p (dropFinalNewline name) ↔ p name ∨ ∃ word, p word ∧ name = word ++ ['\n'] := by
  constructor
  · intro h
    rcases eq_or_eq_append_of_dropFinalNewline name with hname | hname
    · rw [← hname] at h
      exact .inl h
    · exact .inr ⟨_, h, hname⟩
  · rintro (h | ⟨word, h, rfl⟩)
    · rwa [dropFinalNewline, if_neg fun hlast => hp name h (List.mem_of_getLast? hlast)]
    · rwa [dropFinalNewline, if_pos (by simp), List.dropLast_concat]

/-- Every key is read, and but for a line feed behind an identifier as the name it was written
for. -/
theorem readKey_propertyKeyChars (name : List Char) :
    readKey quote (propertyKeyChars [quote] name) = some (nameAsRead name) := by
  -- a word is taken up to its end or to the line feed that was let through
  unfold propertyKeyChars nameAsRead
  split
  · next hidentifier =>
    have hname := eq_or_eq_append_of_dropFinalNewline name
    rw [isIdentifier] at hidentifier
    cases hword : dropFinalNewline name with
    | nil => rw [hword] at hidentifier; cases hidentifier
    | cons first word =>
      rw [hword] at hname hidentifier
      simp only [Bool.and_eq_true, List.all_eq_true] at hidentifier
      have hfirst : first ≠ quote := by
        rintro rfl
        rcases hquote with rfl | rfl <;> cases hidentifier.1
      rcases hname with rfl | rfl
      · have htake : word.takeWhile isIdentifierPart = word :=
          List.takeWhile_eq_self_iff.mpr hidentifier.2
        have hdrop : word.dropWhile isIdentifierPart = [] :=
          List.dropWhile_eq_nil_iff.mpr hidentifier.2
        rw [readKey, if_neg hfirst, htake, hdrop, hidentifier.1]
        rfl
      · have htake : (word ++ ['\n']).takeWhile isIdentifierPart = word := by
          rw [List.takeWhile_append_of_pos hidentifier.2]
          exact List.append_nil word
        have hdrop : (word ++ ['\n']).dropWhile isIdentifierPart = ['\n'] := by
          rw [List.dropWhile_append_of_pos hidentifier.2]
          rfl
        rw [List.cons_append, readKey, if_neg hfirst, htake, hdrop, hidentifier.1]
        rfl
  · rw [List.append_assoc, List.singleton_append, readKey, if_pos rfl,
      readQuoted_flatMap hquote]

end

/-- A name is read as itself unless it is an identifier with a line feed behind it. -/
theorem nameAsRead_eq_self_iff (name : List Char) :
    nameAsRead name = name ↔ ¬(isIdentifier name = true ∧ name.getLast? = some '\n') := by
  unfold nameAsRead dropFinalNewline
  by_cases hidentifier : isIdentifier name = true
  · rw [if_pos hidentifier]
    by_cases hlast : name.getLast? = some '\n'
    · rw [if_pos hlast]
      have hne : name ≠ [] := by
        rintro rfl
        cases hlast
      have hlength : name.dropLast.length ≠ name.length := by
        have hpos := List.length_pos_iff.mpr hne
        rw [List.length_dropLast]
        omega
      simp only [hidentifier, hlast, and_self, not_true_eq_false, iff_false]
      exact fun heq => hlength (by rw [heq])
    · simp [hlast]
  · simp [hidentifier]

/-- What is read is no identifier with a line feed behind it. -/
theorem nameAsRead_nameAsRead (name : List Char) :
    nameAsRead (nameAsRead name) = nameAsRead name := by
  rw [nameAsRead_eq_self_iff]
  unfold nameAsRead
  split
  · next hidentifier =>
    rintro ⟨-, hlast⟩
    rw [isIdentifier] at hidentifier
    split at hidentifier
    · cases hidentifier
    · next first rest hword =>
      rw [hword] at hlast
      simp only [Bool.and_eq_true, List.all_eq_true] at hidentifier
      have hmem := List.mem_of_getLast? hlast
      rcases List.mem_cons.mp hmem with rfl | hmem
      · cases hidentifier.1
      · have hpart := hidentifier.2 _ hmem
        revert hpart
        decide
  · next hidentifier => exact fun h => hidentifier h.1

end SchemaTypings.Naming
