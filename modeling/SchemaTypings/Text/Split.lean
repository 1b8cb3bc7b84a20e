/-
  SchemaTypings.Text.Split

  Cutting a text at a separator and joining the pieces again.
-/

namespace SchemaTypings.Text

/-- The pieces between the separators; a text without one is a single piece. -/
def splitAt (sep : Char) : List Char → List (List Char)
  | [] => [[]]
  | c :: rest =>
    if c = sep then [] :: splitAt sep rest
    else
      match splitAt sep rest with
      | [] => [[c]]
      | piece :: pieces => (c :: piece) :: pieces

/-- The pieces with the separator between them. -/
def joinWith (sep : List Char) : List (List Char) → List Char
  | [] => []
  | [piece] => piece
  | piece :: next :: pieces => piece ++ sep ++ joinWith sep (next :: pieces)

/-- The lines of a text; only a line feed ends a line. -/
def lines (cs : List Char) : List (List Char) := splitAt '\n' cs

/-- Lines with a line feed between them. -/
def unlines (ls : List (List Char)) : List Char := joinWith ['\n'] ls

@[simp] theorem splitAt_nil (sep : Char) : splitAt sep [] = [[]] := rfl

theorem splitAt_ne_nil (sep : Char) (cs : List Char) : splitAt sep cs ≠ [] := by
  cases cs with
  | nil => simp
  | cons c rest =>
    unfold splitAt
    split
    · simp
    · split <;> simp

@[simp] theorem splitAt_sep_cons (sep : Char) (rest : List Char) :
    splitAt sep (sep :: rest) = [] :: splitAt sep rest := by
  simp [splitAt]

theorem splitAt_cons_of_ne {sep c : Char} (h : c ≠ sep) {rest piece : List Char}
    {pieces : List (List Char)} (hr : splitAt sep rest = piece :: pieces) :
    splitAt sep (c :: rest) = (c :: piece) :: pieces := by
  simp [splitAt, h, hr]

/-- Joining undoes cutting. -/
theorem joinWith_splitAt (sep : Char) (cs : List Char) : joinWith [sep] (splitAt sep cs) = cs := by
  induction cs with
  | nil => rfl
  | cons c rest ih =>
    obtain ⟨piece, pieces, hr⟩ : ∃ p ps, splitAt sep rest = p :: ps :=
      List.exists_cons_of_ne_nil (splitAt_ne_nil sep rest)
    rw [hr] at ih
    by_cases h : c = sep
    · subst h
      rw [splitAt_sep_cons, hr, joinWith, ih]
      rfl
    · rw [splitAt_cons_of_ne h hr]
      cases pieces with
      | nil => simpa [joinWith] using ih
      | cons q qs => simpa [joinWith] using ih

/-- No piece holds the separator. -/
theorem not_mem_of_mem_splitAt (sep : Char) (cs : List Char) :
    ∀ piece ∈ splitAt sep cs, sep ∉ piece := by
  induction cs with
  | nil => simp
  | cons c rest ih =>
    obtain ⟨piece, pieces, hr⟩ : ∃ p ps, splitAt sep rest = p :: ps :=
      List.exists_cons_of_ne_nil (splitAt_ne_nil sep rest)
    by_cases h : c = sep
    · subst h
      simpa using ih
    · rw [splitAt_cons_of_ne h hr]
      rw [hr] at ih
      simp only [List.mem_cons, forall_eq_or_imp, not_or] at ih ⊢
      exact ⟨⟨fun e => h e.symm, ih.1⟩, ih.2⟩

/-- Strings with a separator between them. -/
def joinStrings (sep : String) (parts : List String) : String :=
  String.ofList (joinWith sep.toList (parts.map String.toList))

end SchemaTypings.Text
