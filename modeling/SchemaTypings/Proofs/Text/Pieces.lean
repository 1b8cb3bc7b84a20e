/-
  SchemaTypings.Proofs.Text.Pieces

  Cutting and joining against each other: pieces without the separator are what cutting gives back
  when they are joined, and no character comes from elsewhere.
-/
import SchemaTypings.Text.Split

namespace SchemaTypings.Text

variable {sep : Char}

/-! ## Cutting -/

theorem splitAt_of_not_mem {cs : List Char} (h : sep ∉ cs) : splitAt sep cs = [cs] := by
  induction cs with
  | nil => rfl
  | cons c rest ih =>
    rw [List.mem_cons, not_or] at h
    exact splitAt_cons_of_ne (Ne.symm h.1) (ih h.2)

/-- A first piece is cut off at its separator. -/
theorem splitAt_append_sep {piece : List Char} (h : sep ∉ piece) (rest : List Char) :
    splitAt sep (piece ++ sep :: rest) = piece :: splitAt sep rest := by
  induction piece with
  | nil => exact splitAt_sep_cons sep rest
  | cons c more ih =>
    rw [List.mem_cons, not_or] at h
    exact splitAt_cons_of_ne (Ne.symm h.1) (ih h.2)

/-- Both sides of a separator are cut on their own. -/
theorem splitAt_append_cons (text rest : List Char) :
    splitAt sep (text ++ sep :: rest) = splitAt sep text ++ splitAt sep rest := by
  induction text with
  | nil => exact splitAt_sep_cons sep rest
  | cons c more ih =>
    by_cases hc : c = sep
    · subst hc
      rw [List.cons_append, splitAt_sep_cons, splitAt_sep_cons, ih, List.cons_append]
    · obtain ⟨piece, pieces, hpieces⟩ := List.exists_cons_of_ne_nil (splitAt_ne_nil sep more)
      rw [hpieces, List.cons_append] at ih
      rw [List.cons_append, splitAt_cons_of_ne hc ih, splitAt_cons_of_ne hc hpieces,
        List.cons_append]

/-- What stands in front of the first separator belongs to the first piece. -/
theorem splitAt_append_of_not_mem {front : List Char} (h : sep ∉ front) {rest piece : List Char}
    {pieces : List (List Char)} (hrest : splitAt sep rest = piece :: pieces) :
    splitAt sep (front ++ rest) = (front ++ piece) :: pieces := by
  induction front with
  | nil => exact hrest
  | cons c more ih =>
    rw [List.mem_cons, not_or] at h
    exact splitAt_cons_of_ne (Ne.symm h.1) (ih h.2)

/-- What stands behind a text up to the first separator belongs to the last piece of the text. -/
theorem exists_splitAt_append (text : List Char) :
    ∃ front last, splitAt sep text = front ++ [last] ∧
      ∀ {rest piece pieces}, splitAt sep rest = piece :: pieces →
        splitAt sep (text ++ rest) = front ++ (last ++ piece) :: pieces := by
  induction text with
  | nil => exact ⟨[], [], rfl, fun hrest => hrest⟩
  | cons c more ih =>
    obtain ⟨front, last, hmore, happend⟩ := ih
    by_cases hc : c = sep
    · subst hc
      refine ⟨[] :: front, last, ?_, fun hrest => ?_⟩
      · rw [splitAt_sep_cons, hmore]
        rfl
      · rw [List.cons_append, splitAt_sep_cons, happend hrest]
        rfl
    · cases front with
      | nil =>
        exact ⟨[], c :: last, splitAt_cons_of_ne hc hmore,
          fun hrest => splitAt_cons_of_ne hc (happend hrest)⟩
      | cons piece pieces =>
        exact ⟨(c :: piece) :: pieces, last, splitAt_cons_of_ne hc hmore,
          fun hrest => splitAt_cons_of_ne hc (happend hrest)⟩

/-- The characters of a piece are characters of the text. -/
theorem mem_of_mem_splitAt {c : Char} {cs piece : List Char} (hpiece : piece ∈ splitAt sep cs)
    (hc : c ∈ piece) : c ∈ cs := by
  induction cs generalizing piece with
  | nil =>
    simp only [splitAt_nil, List.mem_singleton] at hpiece
    subst hpiece
    cases hc
  | cons d rest ih =>
    by_cases hd : d = sep
    · subst hd
      rw [splitAt_sep_cons, List.mem_cons] at hpiece
      rcases hpiece with rfl | hpiece
      · cases hc
      · exact List.mem_cons_of_mem _ (ih hpiece hc)
    · obtain ⟨first, pieces, hr⟩ := List.exists_cons_of_ne_nil (splitAt_ne_nil sep rest)
      rw [splitAt_cons_of_ne hd hr, List.mem_cons] at hpiece
      rw [hr] at ih
      rcases hpiece with rfl | hpiece
      · rcases List.mem_cons.mp hc with rfl | hc
        · exact List.mem_cons_self
        · exact List.mem_cons_of_mem _ (ih List.mem_cons_self hc)
      · exact List.mem_cons_of_mem _ (ih (List.mem_cons_of_mem _ hpiece) hc)

/-! ## Joining -/

theorem joinWith_cons {sep : List Char} (piece : List Char) {pieces : List (List Char)}
    (h : pieces ≠ []) : joinWith sep (piece :: pieces) = piece ++ sep ++ joinWith sep pieces := by
  obtain ⟨next, rest, rfl⟩ := List.exists_cons_of_ne_nil h
  rfl

theorem joinWith_concat {sep : List Char} {pieces : List (List Char)} (piece : List Char)
    (h : pieces ≠ []) : joinWith sep (pieces ++ [piece]) = joinWith sep pieces ++ sep ++ piece := by
  induction pieces with
  | nil => exact absurd rfl h
  | cons first rest ih =>
    cases rest with
    | nil => rfl
    | cons next more =>
      rw [List.cons_append, joinWith_cons first (by simp), ih (List.cons_ne_nil _ _),
        joinWith_cons first (List.cons_ne_nil _ _)]
      simp only [List.append_assoc]

/-- Pieces may be joined in two parts. -/
theorem joinWith_append_joinWith {sep : List Char} (front : List (List Char))
    {pieces : List (List Char)} (h : pieces ≠ []) :
    joinWith sep (front ++ [joinWith sep pieces]) = joinWith sep (front ++ pieces) := by
  induction front with
  | nil => rfl
  | cons first rest ih =>
    rw [List.cons_append, List.cons_append, joinWith_cons first (by simp),
      joinWith_cons first (List.append_ne_nil_of_right_ne_nil _ h), ih]

/-- What is joined behind the beginning of a piece stands behind all of what is joined up to it. -/
theorem joinWith_append_cons {sep : List Char} (front : List (List Char))
    (piece more : List Char) (pieces : List (List Char)) :
    joinWith sep (front ++ (piece ++ more) :: pieces) =
      joinWith sep (front ++ [piece]) ++ joinWith sep (more :: pieces) := by
  have hfirst : joinWith sep ((piece ++ more) :: pieces) =
      piece ++ joinWith sep (more :: pieces) := by
    cases pieces with
    | nil => rfl
    | cons next rest => simp only [joinWith, List.append_assoc]
  rw [← joinWith_append_joinWith front (List.cons_ne_nil _ _), hfirst]
  cases front with
  | nil => rfl
  | cons first rest =>
    rw [joinWith_concat _ (List.cons_ne_nil _ _), joinWith_concat _ (List.cons_ne_nil _ _)]
    simp only [List.append_assoc]

/-- Cutting pieces that are joined before a text gives the pieces and those of the text. -/
theorem splitAt_joinWith_concat {pieces : List (List Char)} (h : ∀ piece ∈ pieces, sep ∉ piece)
    (text : List Char) :
    splitAt sep (joinWith [sep] (pieces ++ [text])) = pieces ++ splitAt sep text := by
  induction pieces with
  | nil => rfl
  | cons piece rest ih =>
    rw [List.forall_mem_cons] at h
    have hne : rest ++ [text] ≠ [] := by simp
    rw [List.cons_append, joinWith_cons piece hne, List.append_assoc, List.singleton_append,
      splitAt_append_sep h.1, ih h.2, List.cons_append]

/-- Cutting undoes joining. -/
theorem splitAt_joinWith {pieces : List (List Char)} (hne : pieces ≠ [])
    (h : ∀ piece ∈ pieces, sep ∉ piece) : splitAt sep (joinWith [sep] pieces) = pieces := by
  obtain ⟨front, last, rfl⟩ := List.eq_nil_or_concat pieces |>.resolve_left hne
  rw [List.concat_eq_append] at h ⊢
  rw [splitAt_joinWith_concat fun piece hp => h piece (List.mem_append_left _ hp),
    splitAt_of_not_mem (h last (List.mem_append_right _ List.mem_cons_self))]

/-- The characters of joined pieces come from the pieces or the separator. -/
theorem mem_of_mem_joinWith {sep : List Char} {pieces : List (List Char)} {c : Char}
    (h : c ∈ joinWith sep pieces) : c ∈ sep ∨ ∃ piece ∈ pieces, c ∈ piece := by
  induction pieces with
  | nil => cases h
  | cons piece rest ih =>
    cases rest with
    | nil => exact .inr ⟨piece, List.mem_cons_self, h⟩
    | cons next more =>
      rw [joinWith, List.append_assoc, List.mem_append, List.mem_append] at h
      rcases h with h | h | h
      · exact .inr ⟨piece, List.mem_cons_self, h⟩
      · exact .inl h
      · rcases ih h with h | ⟨other, hother, h⟩
        · exact .inl h
        · exact .inr ⟨other, List.mem_cons_of_mem _ hother, h⟩

end SchemaTypings.Text
