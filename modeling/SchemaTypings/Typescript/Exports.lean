/-
  SchemaTypings.Typescript.Exports

  The names that a source text exports, read off the beginnings of its lines.
-/
import SchemaTypings.Naming.Words
import SchemaTypings.Text.Class

namespace SchemaTypings.Typescript

/-- The words that introduce an exported declaration. -/
def declarationWords : List (List Char) :=
  ["interface", "type", "const", "let", "class", "function", "enum"].map String.toList

/-- The text behind a beginning that it has. -/
def dropStart? (start text : List Char) : Option (List Char) :=
  if start.isPrefixOf text then some (text.drop start.length) else none

theorem dropStart?_append (start rest : List Char) : dropStart? start (start ++ rest) = some rest := by
  have hstart : start.isPrefixOf (start ++ rest) = true :=
    List.isPrefixOf_iff_prefix.mpr (List.prefix_append start rest)
  rw [dropStart?, if_pos hstart, List.drop_left]

theorem eq_append_of_dropStart?_eq_some {start text rest : List Char}
    (h : dropStart? start text = some rest) : text = start ++ rest := by
  rw [dropStart?] at h
  split at h
  · next hstart =>
    obtain ⟨more, rfl⟩ := List.isPrefixOf_iff_prefix.mp hstart
    rw [List.drop_left, Option.some.injEq] at h
    rw [h]
  · cases h

/-- A character that a declared name may go on with. -/
def isNamePart (c : Char) : Bool := Text.isWordChar c || c = '$'

/-- The identifier at the beginning of a text. -/
def leadingName? : List Char → Option String
  | c :: rest =>
    if Naming.isIdentifierStart c then some (String.ofList (c :: rest.takeWhile isNamePart))
    else none
  | [] => none

/-- The name that a line exports: `export`, perhaps `declare`, the kind of declaration, the name. -/
def exportedName? (line : List Char) : Option String := do
  let rest ← dropStart? "export ".toList line
  let rest := (dropStart? "declare ".toList rest).getD rest
  let rest ← declarationWords.findSome? fun word => dropStart? (word ++ [' ']) rest
  leadingName? rest

/-- The names that a source text exports, in order. -/
def exportedNames (source : String) : List String :=
  (Text.lines source.toList).filterMap exportedName?

end SchemaTypings.Typescript
