/-
  SchemaTypings.Proofs.Typescript.OneLine

  Texts without a line feed: JSON values, type expressions over names without one, and quoted
  property keys.  Of what a declaration is made up of only a bare key may have one, at its end.
-/
import SchemaTypings.Proofs.Naming.KeyReader
import SchemaTypings.Proofs.Text.Pieces
import SchemaTypings.Proofs.Typescript.Phrase

namespace SchemaTypings.Typescript

/-! ## JSON values -/

theorem newline_not_mem_hexDigits (width n : Nat) : '\n' ∉ Json.hexDigits width n := by
  intro hmem
  cases isAlphanum_of_mem_hexDigits hmem

/-- A line feed is no character of a number. -/
theorem newline_not_mem_of_isNumberPart {text : List Char}
    (h : ∀ c ∈ text, isNumberPart c = true) : '\n' ∉ text := by
  intro hmem
  have hpart := h _ hmem
  revert hpart
  decide

/-- One of two texts, of which the first is an escape. -/
theorem newline_not_mem_ite {p : Prop} [Decidable p] {escape other : List Char}
    (hescape : '\n' ∉ escape) (hother : ¬p → '\n' ∉ other) :
    '\n' ∉ if p then escape else other := by
  by_cases hp : p
  · rw [if_pos hp]
    exact hescape
  · rw [if_neg hp]
    exact hother hp

theorem newline_not_mem_escapeChar (c : Char) : '\n' ∉ Json.escapeChar c := by
  unfold Json.escapeChar
  iterate 2 refine newline_not_mem_ite (by decide) fun _ => ?_
  refine newline_not_mem_ite (by decide) fun hnewline => ?_
  iterate 4 refine newline_not_mem_ite (by decide) fun _ => ?_
  refine newline_not_mem_ite ?_ fun _ => ?_
  · simpa [Json.escapeUnit] using newline_not_mem_hexDigits 4 c.toNat
  · simpa using Ne.symm hnewline

theorem newline_not_mem_quoted (cs : List Char) : '\n' ∉ Json.quoted cs := by
  simp [Json.quoted, newline_not_mem_escapeChar]

mutual
/-- The text of a JSON value stands on one line. -/
theorem newline_not_mem_json : (value : Json) → '\n' ∉ value.chars
  | .null => by decide
  | .bool true => by decide
  | .bool false => by decide
  | .int _ => newline_not_mem_of_isNumberPart fun _ hc =>
      isNumberPart_of_isDecimalPart (isDecimalPart_of_mem_intChars hc)
  | .float _ => newline_not_mem_of_isNumberPart fun _ hc => isNumberPart_of_mem_floatChars hc
  | .str s => newline_not_mem_quoted s.toList
  | .arr items => by simp [Json.chars, newline_not_mem_items items]
  | .obj entries => by simp [Json.chars, newline_not_mem_entries entries]

theorem newline_not_mem_items : (items : List Json) → '\n' ∉ Json.itemChars items
  | [] => by decide
  | [item] => newline_not_mem_json item
  | item :: next :: rest => by
    simp [Json.itemChars, newline_not_mem_json item, newline_not_mem_items (next :: rest)]

theorem newline_not_mem_entries : (entries : List (String × Json)) →
    '\n' ∉ Json.entryChars entries
  | [] => by decide
  | [entry] => newline_not_mem_entry entry
  | entry :: next :: rest => by
    simp [Json.entryChars, newline_not_mem_entry entry, newline_not_mem_entries (next :: rest)]

theorem newline_not_mem_entry : (entry : String × Json) → '\n' ∉ Json.pairChars entry
  | (key, value) => by
    simp [Json.pairChars, newline_not_mem_quoted, newline_not_mem_json value]
end

/-! ## Type expressions -/

namespace TypeExpr

mutual
/-- The text of a type expression stands on one line if the names in it do. -/
theorem newline_not_mem_chars : (t : TypeExpr) → (∀ name ∈ t.names, '\n' ∉ name.toList) →
    '\n' ∉ t.chars
  | .any, _ => by decide
  | .null, _ => by decide
  | .primitive .string, _ => by decide
  | .primitive .number, _ => by decide
  | .primitive .boolean, _ => by decide
  | .literal value, _ => newline_not_mem_json value
  | .emptyObject, _ => by decide
  | .named _, h => h _ List.mem_cons_self
  | .array element, h => by
    have helement := newline_not_mem_chars element h
    rw [chars, arrayChars]
    split
    · simp [helement]
    · simp [helement]
  | .record value, h => by simp [chars, newline_not_mem_chars value h]
  | .union parts, h => by
    intro hmem
    rcases Text.mem_of_mem_joinWith hmem with hbar | ⟨part, hpart, hmem⟩
    · revert hbar
      decide
    · exact newline_not_mem_partChars parts h part hpart hmem

theorem newline_not_mem_partChars : (ts : List TypeExpr) →
    (∀ name ∈ namesOfAll ts, '\n' ∉ name.toList) → ∀ part ∈ partChars ts, '\n' ∉ part
  | [], _ => List.forall_mem_nil _
  | t :: rest, h => by
    rw [namesOfAll, List.forall_mem_append] at h
    exact List.forall_mem_cons.mpr
      ⟨newline_not_mem_chars t h.1, newline_not_mem_partChars rest h.2⟩
end

end TypeExpr

/-! ## Property keys -/

theorem newline_not_mem_escapeKeyChar (c : Char) : '\n' ∉ Naming.escapeKeyChar ['\''] c := by
  unfold Naming.escapeKeyChar
  iterate 2 refine newline_not_mem_ite (by decide) fun _ => ?_
  refine newline_not_mem_ite (by decide) fun hnewline => ?_
  iterate 7 refine newline_not_mem_ite (by decide) fun _ => ?_
  refine newline_not_mem_ite ?_ fun _ => ?_
  · simpa using newline_not_mem_hexDigits 2 c.toNat
  · simpa using Ne.symm hnewline

/-- A key is a bare word, perhaps with a line feed behind it, or it is quoted and stands on one
line. -/
theorem propertyKey_cases (name : String) :
    (∃ word, (∀ c ∈ word, Naming.isIdentifierPart c = true) ∧
      ((Naming.propertyKey name).toList = word ∨
        (Naming.propertyKey name).toList = word ++ ['\n'])) ∨
    ∃ text, '\n' ∉ text ∧ (Naming.propertyKey name).toList = '\'' :: text := by
  rw [Naming.propertyKey, String.toList_ofList, Naming.propertyKeyChars]
  split
  · next hidentifier =>
    refine .inl ⟨Naming.dropFinalNewline name.toList, ?_,
      Naming.eq_or_eq_append_of_dropFinalNewline name.toList⟩
    rw [Naming.isIdentifier] at hidentifier
    split at hidentifier
    · cases hidentifier
    · next first rest hword =>
      rw [Bool.and_eq_true, List.all_eq_true] at hidentifier
      rw [hword, List.forall_mem_cons, Naming.isIdentifierPart, hidentifier.1]
      exact ⟨rfl, hidentifier.2⟩
  · refine .inr ⟨name.toList.flatMap (Naming.escapeKeyChar ['\'']) ++ ['\''], ?_, rfl⟩
    simp [newline_not_mem_escapeKeyChar]

end SchemaTypings.Typescript
