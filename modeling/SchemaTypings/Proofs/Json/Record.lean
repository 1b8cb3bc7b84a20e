/-
  SchemaTypings.Proofs.Json.Record

  The text of a record of strings is read back: each key and each value exactly, whatever characters
  they hold.
-/
import SchemaTypings.Proofs.Json.Units

namespace SchemaTypings.Json

/-! ## Escaped units -/

theorem hexValue?_digitChar : ∀ d < 16, hexValue? d.digitChar = some d := by decide

/-- The four digits of a unit. -/
theorem hexDigits_four {n : Nat} (h : n < 0x10000) :
    hexDigits 4 n = [(n / 4096).digitChar, (n / 256 % 16).digitChar, (n / 16 % 16).digitChar,
      (n % 16).digitChar] := by
  have hsplit : ∀ m, 16 ≤ m → Nat.toDigits 16 m = Nat.toDigits 16 (m / 16) ++ [(m % 16).digitChar] :=
    fun m hm => Nat.toDigits_of_base_le (by decide) hm
  have hsmall : ∀ m < 16, Nat.toDigits 16 m = [m.digitChar] := fun m hm => Nat.toDigits_of_lt_base hm
  rw [hexDigits]
  by_cases h₁ : n < 16
  · rw [hsmall n h₁, show n / 4096 = 0 by omega, show n / 256 % 16 = 0 by omega,
      show n / 16 % 16 = 0 by omega, Nat.mod_eq_of_lt h₁]
    rfl
  rw [hsplit n (by omega)]
  by_cases h₂ : n / 16 < 16
  · rw [hsmall _ h₂, show n / 4096 = 0 by omega, show n / 256 % 16 = 0 by omega,
      Nat.mod_eq_of_lt h₂]
    rfl
  rw [hsplit _ (by omega), Nat.div_div_eq_div_mul]
  by_cases h₃ : n / 256 < 16
  · rw [hsmall _ h₃, show n / 4096 = 0 by omega, Nat.mod_eq_of_lt h₃]
    rfl
  rw [hsplit _ (by omega), Nat.div_div_eq_div_mul, hsmall _ (by omega)]
  rfl

/-- An escaped unit is read back. -/
theorem stringUnits_escapeUnit {n : Nat} (h : n < 0x10000) (rest : List Char) :
    stringUnits (escapeUnit n ++ rest) =
      (stringUnits rest).map fun (units, rest) => (n :: units, rest) := by
  have hvalue : hexValue4? (n / 4096).digitChar (n / 256 % 16).digitChar (n / 16 % 16).digitChar
      (n % 16).digitChar = some n := by
    rw [hexValue4?, hexValue?_digitChar _ (by omega), hexValue?_digitChar _ (by omega),
      hexValue?_digitChar _ (by omega), hexValue?_digitChar _ (by omega)]
    refine congrArg some ?_
    show ((n / 4096 * 16 + n / 256 % 16) * 16 + n / 16 % 16) * 16 + n % 16 = n
    omega
  rw [escapeUnit, hexDigits_four h]
  simp only [List.cons_append, List.nil_append]
  rw [stringUnits.eq_def]
  simp only [hvalue]

/-- A character of a record is read back as its units. -/
theorem stringUnits_escapeAsciiChar (c : Char) (rest : List Char) :
    stringUnits (escapeAsciiChar c ++ rest) =
      (stringUnits rest).map fun (units, rest) => (unitsOf c.toNat ++ units, rest) := by
  have hvalid : c.toNat < 0xD800 ∨ (0xDFFF < c.toNat ∧ c.toNat < 0x110000) := c.valid
  simp only [escapeAsciiChar, unitsOf]
  split
  · rw [if_pos (by omega), stringUnits_escapeChar]
    rfl
  · split
    · next hbasic => exact stringUnits_escapeUnit hbasic rest
    · rw [List.append_assoc, stringUnits_escapeUnit (by omega), stringUnits_escapeUnit (by omega)]
      cases stringUnits rest with
      | error e => rfl
      | ok read => rfl

theorem stringUnits_quotedAscii (cs rest : List Char) :
    stringUnits (cs.flatMap escapeAsciiChar ++ '"' :: rest) = .ok (textUnits cs, rest) := by
  induction cs with
  | nil => rfl
  | cons c cs ih =>
    rw [List.flatMap_cons, List.append_assoc, stringUnits_escapeAsciiChar, ih]
    rfl

/-- The text of a string in a record behind its opening quote is read back. -/
theorem stringBody_quotedAscii (s : String) (rest : List Char) :
    stringBody (s.toList.flatMap escapeAsciiChar ++ '"' :: rest) = .ok (s, rest) := by
  rw [stringBody, stringUnits_quotedAscii]
  simp only [Except.map, charsOfUnits_textUnits, String.ofList_toList]

/-! ## Records -/

/-- What stands behind the first entry of a record, up to a text behind the record's lines. -/
def afterEntry (more : List (String × String)) (tail : List Char) : List Char :=
  match more with
  | [] => '\n' :: tail
  | _ :: _ => ',' :: '\n' :: (recordLines more ++ tail)

/-- A line of a record without the spaces in front. -/
theorem skipSpaces_recordLines (key value : String) (more : List (String × String))
    (tail : List Char) :
    skipSpaces (recordLines ((key, value) :: more) ++ tail) =
      '"' :: (key.toList.flatMap escapeAsciiChar ++ '"' :: ':' :: ' ' :: '"' ::
        (value.toList.flatMap escapeAsciiChar ++ '"' :: afterEntry more tail)) := by
  have hspaces : ∀ rest, skipSpaces ("  ".toList ++ '"' :: rest) = '"' :: rest := fun _ => rfl
  cases more with
  | nil =>
    simp only [recordLines, quotedAscii, List.append_assoc, List.cons_append, List.nil_append,
      hspaces, afterEntry]
  | cons next rest =>
    simp only [recordLines, quotedAscii, List.append_assoc, List.cons_append, List.nil_append,
      hspaces, afterEntry]

theorem readValue_quotedAscii (depth : Nat) (s : String) (rest : List Char) :
    readValue (depth + 1) ('"' :: (s.toList.flatMap escapeAsciiChar ++ '"' :: rest)) =
      .ok (.str s, rest) := by
  rw [readValue, stringBody_quotedAscii]
  rfl

/-- The lines of a record are read entry by entry. -/
theorem readEntries_recordLines (entries : List (String × String)) (hne : entries ≠ [])
    {depth : Nat} (hdepth : entries.length < depth) (before : Entries Json) (rest : List Char) :
    readEntries depth before (skipSpaces (recordLines entries ++ '\x7d' :: rest)) =
      .ok (before.insertAll (entries.map fun (key, value) => (key, .str value)), rest) := by
  induction entries generalizing depth before with
  | nil => exact absurd rfl hne
  | cons entry more ih =>
    obtain ⟨key, value⟩ := entry
    obtain ⟨depth, rfl⟩ : ∃ d, depth = d + 2 := ⟨depth - 2, by simp at hdepth; omega⟩
    have hcolon : ∀ rest, skipSpaces (':' :: rest) = ':' :: rest := fun _ => rfl
    have hspace : ∀ rest, skipSpaces (' ' :: '"' :: rest) = '"' :: rest := fun _ => rfl
    rw [skipSpaces_recordLines, readEntries, stringBody_quotedAscii]
    simp only [hcolon, hspace, readValue_quotedAscii]
    cases more with
    | nil => rfl
    | cons next more =>
      have hcomma : ∀ rest, skipSpaces (',' :: rest) = ',' :: rest := fun _ => rfl
      have hfeed : ∀ rest, skipSpaces ('\n' :: rest) = skipSpaces rest := fun _ => rfl
      simp only [afterEntry, hcomma, hfeed]
      rw [ih (List.cons_ne_nil _ _) (by simp at hdepth ⊢; omega)]
      rfl

theorem length_le_length_recordLines (entries : List (String × String)) :
    entries.length ≤ (recordLines entries).length := by
  induction entries with
  | nil => exact Nat.le_refl 0
  | cons entry more ih =>
    obtain ⟨key, value⟩ := entry
    cases more with
    | nil =>
      simp only [recordLines, List.length_append, List.length_cons, List.length_nil]
      omega
    | cons next rest =>
      simp only [recordLines, List.length_append, List.length_cons] at ih ⊢
      omega

/-- The text of a record is read as the object with its entries, put in one after the other. -/
theorem parse_recordText (entries : List (String × String)) :
    parse (recordText entries) =
      .ok (.obj (Entries.insertAll [] (entries.map fun (key, value) => (key, .str value)))) := by
  have hbrace : ∀ rest, skipSpaces ('\x7b' :: rest) = '\x7b' :: rest := fun _ => rfl
  have hfeed : ∀ rest, skipSpaces ('\n' :: rest) = skipSpaces rest := fun _ => rfl
  rw [parse, recordText, String.toList_ofList, parseChars, List.cons_append, List.cons_append,
    hbrace]
  cases entries with
  | nil => rfl
  | cons entry more =>
    obtain ⟨key, value⟩ := entry
    let text := recordLines ((key, value) :: more) ++ ['\x7d']
    -- every entry takes a line, so that the reader is given depth enough
    have hdepth : ((key, value) :: more).length < 2 * ('\x7b' :: '\n' :: text).length + 1 := by
      have hlines := length_le_length_recordLines ((key, value) :: more)
      simp only [text, List.length_cons, List.length_append] at hlines ⊢
      omega
    have hentries := readEntries_recordLines _ (List.cons_ne_nil _ _) hdepth [] []
    have hfirst := skipSpaces_recordLines key value more ['\x7d']
    have hvalue : readValue (2 * ('\x7b' :: '\n' :: text).length + 2) ('\x7b' :: '\n' :: text) =
        .ok (.obj (Entries.insertAll []
          (((key, value) :: more).map fun (key, value) => (key, .str value))), []) := by
      rw [readValue, hfeed]
      rw [hfirst] at hentries ⊢
      exact congrArg (Except.map fun read => (Json.obj read.1, read.2)) hentries
    rw [hvalue]
    rfl

end SchemaTypings.Json
