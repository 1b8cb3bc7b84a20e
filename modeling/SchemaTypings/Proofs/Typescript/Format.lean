/-
  SchemaTypings.Proofs.Typescript.Format

  What clean format makes of any text.  White space at the ends of lines goes, blank lines in a row
  become one, and those at the ends of the text none; everything else stays in its place.

  Formatting is seen as a walk over lines: `squeeze` with its memory of a blank line, and then the
  removal of blank lines at both ends, `trimLines`.  A text that is in clean format already goes
  through both as it is.
-/
import SchemaTypings.Proofs.Typescript.Cleaned
import Mathlib.Data.List.Chain

namespace SchemaTypings.Typescript

/-! ## Lines -/

/-- Whether nothing but white space stands on a line. -/
def isBlankLine (line : Line) : Bool := line.all Text.isBlank

/-- The lines that are not blank. -/
def textLines (ls : List Line) : List Line := ls.filter (!isBlankLine ·)

/-- Lines in clean format: none ends in white space, no two blank ones stand in a row, and the first
and the last one are not blank. -/
structure AreClean (ls : List Line) : Prop where
  ends : ∀ line ∈ ls, ∀ c ∈ line.getLast?, Text.isBlank c = false
  single : ls.IsChain fun line next => isBlankLine line = false ∨ isBlankLine next = false
  first : ∀ line ∈ ls.head?, isBlankLine line = false
  last : ∀ line ∈ ls.getLast?, isBlankLine line = false

/-- Whether any two lines that are not blank stand among other lines as well, without the white
space at their ends, behind the same ones and in front of the same ones, and with a blank line
between them exactly if there is one here. -/
def KeepsGaps (ls ls' : List Line) : Prop :=
  ∀ front line middle other back, ls = front ++ line :: (middle ++ other :: back) →
    isBlankLine line = false → isBlankLine other = false →
      ∃ front' middle' back',
        ls' = front' ++ Text.trimEnd line :: (middle' ++ Text.trimEnd other :: back') ∧
          textLines front' = (textLines front).map Text.trimEnd ∧
          textLines middle' = (textLines middle).map Text.trimEnd ∧
          textLines back' = (textLines back).map Text.trimEnd ∧
          ((∃ l ∈ middle', isBlankLine l = true) ↔ ∃ l ∈ middle, isBlankLine l = true)

theorem textLines_append (xs ys : List Line) :
    textLines (xs ++ ys) = textLines xs ++ textLines ys :=
  List.filter_append ..

theorem textLines_cons (line : Line) (ls : List Line) :
    textLines (line :: ls) = (if isBlankLine line then [] else [line]) ++ textLines ls := by
  cases h : isBlankLine line <;> simp [textLines, h]

theorem textLines_eq_nil {ls : List Line} (h : ∀ line ∈ ls, isBlankLine line = true) :
    textLines ls = [] := by
  simpa [textLines, List.filter_eq_nil_iff] using h

/-! ## White space at the ends of lines -/

theorem trimEnd_eq_nil_iff {line : Line} : Text.trimEnd line = [] ↔ isBlankLine line = true := by
  constructor
  · intro hnil
    obtain ⟨dropped, heq, hdropped⟩ := Text.dropEndWhile_append_dropped Text.isBlank line
    have hline : line = dropped := by
      show line = [] ++ dropped
      rw [← hnil]
      exact heq
    exact List.all_eq_true.mpr (hline ▸ hdropped)
  · intro hblank
    exact Text.dropEndWhile_eq_nil (List.all_eq_true.mp hblank)

theorem trimEnd_ends (line : Line) :
    ∀ c ∈ (Text.trimEnd line).getLast?, Text.isBlank c = false :=
  fun c hc => Text.dropEndWhile_getLast? Text.isBlank line c hc

theorem isBlankLine_trimEnd (line : Line) : isBlankLine (Text.trimEnd line) = isBlankLine line := by
  have htrim : Text.trimEnd (Text.trimEnd line) = Text.trimEnd line :=
    Text.dropEndWhile_eq_self (trimEnd_ends line)
  rw [Bool.eq_iff_iff, ← trimEnd_eq_nil_iff, ← trimEnd_eq_nil_iff, htrim]

/-! ## Squeezing -/

/-- What squeezing does at a line. -/
theorem squeeze_cons (afterBlank : Bool) (line : Line) (rest : List Line) :
    squeeze afterBlank (line :: rest) =
      if isBlankLine line then (if afterBlank then [] else [[]]) ++ squeeze true rest
      else Text.trimEnd line :: squeeze false rest := by
  rw [squeeze]
  split
  · next hnil =>
    rw [if_pos (trimEnd_eq_nil_iff.mp hnil)]
    cases afterBlank with
    | true => rfl
    | false => rfl
  · next hne =>
    rw [if_neg fun hblank => hne (trimEnd_eq_nil_iff.mpr hblank)]

theorem textLines_squeeze (afterBlank : Bool) (ls : List Line) :
    textLines (squeeze afterBlank ls) = (textLines ls).map Text.trimEnd := by
  induction ls generalizing afterBlank with
  | nil => rfl
  | cons line rest ih =>
    rw [squeeze_cons, textLines_cons]
    split
    · rw [textLines_append, ih]
      cases afterBlank with
      | true => rfl
      | false => rfl
    · next hblank =>
      rw [textLines_cons, isBlankLine_trimEnd, if_neg hblank, ih]
      rfl

/-- There is a blank line among squeezed ones if there was one before. -/
theorem exists_isBlankLine_squeeze (ls : List Line) :
    (∃ l ∈ squeeze false ls, isBlankLine l = true) ↔ ∃ l ∈ ls, isBlankLine l = true := by
  induction ls with
  | nil => rfl
  | cons line rest ih =>
    rw [squeeze_cons, List.exists_mem_cons_iff]
    split
    · next hblank =>
      exact iff_of_true ⟨[], List.mem_cons_self, rfl⟩ (.inl hblank)
    · next hblank =>
      rw [List.exists_mem_cons_iff, ih, isBlankLine_trimEnd]

/-- The memory of a blank line keeps a second one out. -/
theorem isChain_squeeze (afterBlank : Bool) (ls : List Line) :
    (squeeze afterBlank ls).IsChain
        (fun line next => isBlankLine line = false ∨ isBlankLine next = false) ∧
      (afterBlank = true → ∀ line ∈ (squeeze afterBlank ls).head?, isBlankLine line = false) := by
  induction ls generalizing afterBlank with
  | nil => exact ⟨.nil, fun _ line hline => nomatch hline⟩
  | cons line rest ih =>
    rw [squeeze_cons]
    split
    · obtain ⟨hchain, hhead⟩ := ih true
      cases afterBlank with
      | true => exact ⟨hchain, hhead⟩
      | false =>
        refine ⟨List.isChain_cons.mpr ⟨?_, hchain⟩, fun h => nomatch h⟩
        exact fun next hnext => .inr (hhead rfl next hnext)
    · next hblank =>
      have hline : isBlankLine (Text.trimEnd line) = false := by
        rw [isBlankLine_trimEnd]
        exact Bool.eq_false_iff.mpr hblank
      refine ⟨List.isChain_cons.mpr ⟨fun next _ => .inl hline, (ih false).1⟩, ?_⟩
      intro _ first hfirst
      cases hfirst
      exact hline

/-- Lines that are squeezed already stay as they are. -/
theorem squeeze_eq_self {ls : List Line} (afterBlank : Bool)
    (hends : ∀ line ∈ ls, ∀ c ∈ line.getLast?, Text.isBlank c = false)
    (hsingle : ls.IsChain fun line next => isBlankLine line = false ∨ isBlankLine next = false)
    (hfirst : afterBlank = true → ∀ line ∈ ls.head?, isBlankLine line = false) :
    squeeze afterBlank ls = ls := by
  induction ls generalizing afterBlank with
  | nil => rfl
  | cons line rest ih =>
    rw [List.forall_mem_cons] at hends
    obtain ⟨hnext, hrest⟩ := List.isChain_cons.mp hsingle
    have htrim : Text.trimEnd line = line := Text.dropEndWhile_eq_self hends.1
    rw [squeeze_cons]
    split
    · next hblank =>
      have hnil : line = [] := htrim.symm.trans (trimEnd_eq_nil_iff.mpr hblank)
      have hafter : squeeze true rest = rest := by
        apply ih true hends.2 hrest
        intro _ next hmem
        exact (hnext next hmem).resolve_left (by simp [hblank])
      -- A blank line behind a blank one would be left out, but there is none.
      cases afterBlank with
      | true => exact absurd (hfirst rfl line rfl) (by simp [hblank])
      | false =>
        rw [hafter, hnil]
        rfl
    · rw [htrim, ih false hends.2 hrest fun h => nomatch h]

/-! ## Blank lines at the ends -/

/-- The lines without the blank ones at both ends. -/
def trimLines (ls : List Line) : List Line :=
  Text.dropEndWhile isBlankLine (ls.dropWhile isBlankLine)

section
variable {ls : List Line}

/-- Line feeds in front of lines are empty lines in front. -/
theorem dropWhile_unlines (hfeed : ∀ line ∈ ls, '\n' ∉ line)
    (hempty : ∀ line ∈ ls, isBlankLine line = true → line = []) :
    (Text.unlines ls).dropWhile (· = '\n') = Text.unlines (ls.dropWhile isBlankLine) := by
  induction ls with
  | nil => rfl
  | cons line rest ih =>
    rw [List.forall_mem_cons] at hfeed hempty
    by_cases hblank : isBlankLine line = true
    · obtain rfl : line = [] := hempty.1 hblank
      rw [List.dropWhile_cons_of_pos rfl, ← ih hfeed.2 hempty.2]
      cases rest with
      | nil => rfl
      | cons next more => exact List.dropWhile_cons_of_pos rfl
    · rw [List.dropWhile_cons_of_neg hblank]
      obtain ⟨c, more, rfl⟩ := List.exists_cons_of_ne_nil fun h : line = [] => hblank (h ▸ rfl)
      have hc : c ≠ '\n' := by
        rintro rfl
        exact hfeed.1 List.mem_cons_self
      obtain ⟨tail, htail⟩ : ∃ tail, Text.unlines ((c :: more) :: rest) = c :: tail := by
        cases rest with
        | nil => exact ⟨more, rfl⟩
        | cons next others => exact ⟨_, rfl⟩
      rw [htail]
      exact List.dropWhile_cons_of_neg (by simpa using hc)

/-- Line feeds behind lines are empty lines at the end. -/
theorem dropEndWhile_unlines (hfeed : ∀ line ∈ ls, '\n' ∉ line)
    (hempty : ∀ line ∈ ls, isBlankLine line = true → line = []) :
    Text.dropEndWhile (· = '\n') (Text.unlines ls) =
      Text.unlines (Text.dropEndWhile isBlankLine ls) := by
  -- from the end, where both sides drop
  induction ls using List.reverseRecOn with
  | nil => rfl
  | append_singleton front line ih =>
    rw [List.forall_mem_append, List.forall_mem_singleton] at hfeed hempty
    by_cases hblank : isBlankLine line = true
    · obtain rfl : line = [] := hempty.2 hblank
      rw [Text.dropEndWhile_append front (by simpa using hblank), ← ih hfeed.1 hempty.1]
      by_cases hfront : front = []
      · subst hfront
        rfl
      · rw [Text.unlines, Text.joinWith_concat _ hfront, List.append_nil]
        exact Text.dropEndWhile_append _ (by simp)
    · have hlast : ∀ c, (Text.unlines (front ++ [line])).getLast? = some c →
          decide (c = '\n') = false := by
        intro c hc
        have hne : line ≠ [] := fun h => hblank (h ▸ rfl)
        have hmem : c ∈ line := by
          by_cases hfront : front = []
          · subst hfront
            exact List.mem_of_getLast? hc
          · rw [Text.unlines, Text.joinWith_concat _ hfront,
              List.getLast?_append_of_ne_nil _ hne] at hc
            exact List.mem_of_getLast? hc
        rw [decide_eq_false_iff_not]
        rintro rfl
        exact hfeed.2 hmem
      have hkept : Text.dropEndWhile isBlankLine (front ++ [line]) = front ++ [line] :=
        Text.dropEndWhile_eq_self (by simpa using hblank)
      rw [hkept, Text.dropEndWhile_eq_self hlast]

end

theorem isInfix_trimLines (ls : List Line) : trimLines ls <:+: ls := by
  obtain ⟨dropped, heq, -⟩ :=
    Text.dropEndWhile_append_dropped isBlankLine (ls.dropWhile isBlankLine)
  have hbegins : trimLines ls <+: ls.dropWhile isBlankLine := ⟨dropped, heq.symm⟩
  exact hbegins.isInfix.trans (List.dropWhile_suffix _).isInfix

/-- Lines that are clean but for blank ones at the ends are clean without these. -/
theorem areClean_trimLines {ls : List Line}
    (hends : ∀ line ∈ ls, ∀ c ∈ line.getLast?, Text.isBlank c = false)
    (hsingle : ls.IsChain fun line next => isBlankLine line = false ∨ isBlankLine next = false) :
    AreClean (trimLines ls) := by
  have hinside := isInfix_trimLines ls
  refine ⟨fun line hline => hends line (hinside.subset hline), hsingle.infix hinside, ?_, ?_⟩
  · intro line hline
    have hhead := List.head?_dropWhile_not isBlankLine ls
    obtain ⟨more, hmore⟩ := List.head?_eq_some_iff.mp hline
    obtain ⟨dropped, heq, -⟩ :=
      Text.dropEndWhile_append_dropped isBlankLine (ls.dropWhile isBlankLine)
    rw [heq, ← trimLines, hmore] at hhead
    simpa using hhead
  · exact fun line hline => Text.dropEndWhile_getLast? isBlankLine _ line hline

theorem textLines_trimLines (ls : List Line) : textLines (trimLines ls) = textLines ls := by
  obtain ⟨dropped, heq, hdropped⟩ :=
    Text.dropEndWhile_append_dropped isBlankLine (ls.dropWhile isBlankLine)
  have hfront : textLines (ls.takeWhile isBlankLine) = [] :=
    textLines_eq_nil fun line hline => List.mem_takeWhile_imp hline
  have hls : textLines ls = textLines (ls.takeWhile isBlankLine) ++
      textLines (ls.dropWhile isBlankLine) := by
    rw [← textLines_append, List.takeWhile_append_dropWhile]
  rw [hls, hfront, List.nil_append, heq, textLines_append, textLines_eq_nil hdropped,
    List.append_nil, trimLines]

/-! ## Formatting -/

/-- The lines of a text in clean format. -/
def formattedLines (code : List Char) : List Line := trimLines (squeeze false (Text.lines code))

/-- What squeezing leaves of lines has no line feed in it and no white space at its end. -/
theorem squeeze_lines_spec (code : List Char) :
    (∀ line ∈ squeeze false (Text.lines code), '\n' ∉ line) ∧
      ∀ line ∈ squeeze false (Text.lines code), ∀ c ∈ line.getLast?, Text.isBlank c = false := by
  refine ⟨not_mem_newline_squeeze (Text.not_mem_of_mem_splitAt '\n' code) false, ?_⟩
  intro line hline
  obtain ⟨l, -, rfl⟩ := exists_of_mem_squeeze hline
  exact trimEnd_ends l

theorem areClean_formattedLines (code : List Char) : AreClean (formattedLines code) :=
  areClean_trimLines (squeeze_lines_spec code).2 (isChain_squeeze false _).1

/-- A blank line without white space at its end is empty. -/
theorem eq_nil_of_isBlankLine {line : Line} (hends : ∀ c ∈ line.getLast?, Text.isBlank c = false)
    (h : isBlankLine line = true) : line = [] := by
  rw [← trimEnd_eq_nil_iff] at h
  rw [← h]
  exact (Text.dropEndWhile_eq_self hends).symm

theorem trimNewlines_unlines {ls : List Line} (hfeed : ∀ line ∈ ls, '\n' ∉ line)
    (hends : ∀ line ∈ ls, ∀ c ∈ line.getLast?, Text.isBlank c = false) :
    Text.trimNewlines (Text.unlines ls) = Text.unlines (trimLines ls) := by
  have hempty : ∀ line ∈ ls, isBlankLine line = true → line = [] :=
    fun line hline => eq_nil_of_isBlankLine (hends line hline)
  have hsub : ls.dropWhile isBlankLine ⊆ ls := (List.dropWhile_suffix _).subset
  rw [Text.trimNewlines, Text.trimBoth, dropWhile_unlines hfeed hempty,
    dropEndWhile_unlines (fun line hline => hfeed line (hsub hline))
      fun line hline => hempty line (hsub hline), trimLines]

theorem formatChars_eq (code : List Char) :
    formatChars code = Text.unlines (formattedLines code) ++ ['\n'] := by
  obtain ⟨hfeed, hends⟩ := squeeze_lines_spec code
  rw [formatChars, trimNewlines_unlines hfeed hends, formattedLines]

theorem textLines_formattedLines (code : List Char) :
    textLines (formattedLines code) = (textLines (Text.lines code)).map Text.trimEnd := by
  rw [formattedLines, textLines_trimLines, textLines_squeeze]

theorem newline_not_mem_formattedLines (code : List Char) :
    ∀ line ∈ formattedLines code, '\n' ∉ line := by
  intro line hline
  have hsub : formattedLines code ⊆ squeeze false (Text.lines code) :=
    (isInfix_trimLines _).subset
  exact (squeeze_lines_spec code).1 line (hsub hline)

theorem lines_unlines_formattedLines {code : List Char} (h : formattedLines code ≠ []) :
    Text.lines (Text.unlines (formattedLines code)) = formattedLines code :=
  Text.splitAt_joinWith h (newline_not_mem_formattedLines code)

/-- Two lines keep their places and what is between them. -/
theorem keepsGaps_formattedLines (code : List Char) :
    KeepsGaps (Text.lines code) (formattedLines code) := by
  intro front line middle other back heq hline hother
  have hne : ∀ {l : Line}, isBlankLine l = false → Text.trimEnd l ≠ [] := by
    intro l hl hnil
    rw [trimEnd_eq_nil_iff.mp hnil] at hl
    cases hl
  have hkept : ∀ {l : Line}, isBlankLine l = false → isBlankLine (Text.trimEnd l) = false :=
    fun hl => (isBlankLine_trimEnd _).trans hl
  have hsqueeze : squeeze false (Text.lines code) =
      squeeze false front ++ Text.trimEnd line ::
        (squeeze false middle ++ Text.trimEnd other :: squeeze false back) := by
    rw [heq, cleansFront_squeeze false front line _ (hne hline),
      cleansFront_squeeze false middle other back (hne hother)]
  refine ⟨(squeeze false front).dropWhile isBlankLine, squeeze false middle,
    Text.dropEndWhile isBlankLine (squeeze false back), ?_, ?_, textLines_squeeze false middle, ?_,
    exists_isBlankLine_squeeze middle⟩
  · have hfront : ∀ rest, (squeeze false front ++ Text.trimEnd line :: rest).dropWhile isBlankLine =
        (squeeze false front).dropWhile isBlankLine ++ Text.trimEnd line :: rest := by
      intro rest
      have hstop : (Text.trimEnd line :: rest).dropWhile isBlankLine = Text.trimEnd line :: rest :=
        List.dropWhile_cons_of_neg (by simp [hkept hline])
      rw [List.dropWhile_append, hstop]
      split
      · next hnil =>
        rw [List.isEmpty_iff.mp hnil]
        rfl
      · rfl
    rw [formattedLines, trimLines, hsqueeze, hfront, ← List.cons_append, ← List.append_assoc,
      Text.dropEndWhile_append_cons (hkept hother), List.append_assoc, List.cons_append]
  · -- What is dropped in front and behind is blank.
    have hdrop := List.takeWhile_append_dropWhile (p := isBlankLine) (l := squeeze false front)
    rw [← textLines_squeeze false front, ← hdrop, textLines_append, hdrop,
      textLines_eq_nil fun l hl => List.mem_takeWhile_imp hl, List.nil_append]
  · obtain ⟨dropped, hdrop, hdropped⟩ :=
      Text.dropEndWhile_append_dropped isBlankLine (squeeze false back)
    rw [← textLines_squeeze false back]
    conv_rhs => rw [hdrop, textLines_append, textLines_eq_nil hdropped, List.append_nil]

/-- Clean lines and a line feed behind them are in clean format. -/
theorem formatChars_unlines {ls : List Line} (h : AreClean ls) (hfeed : ∀ line ∈ ls, '\n' ∉ line)
    (hne : ls ≠ []) :
    formatChars (Text.unlines ls ++ ['\n']) = Text.unlines ls ++ ['\n'] := by
  have hlines : Text.lines (Text.unlines ls ++ ['\n']) = ls ++ [[]] := by
    rw [lines_append_newline, Text.lines, Text.unlines, Text.splitAt_joinWith hne hfeed]
    rfl
  have hsqueeze : squeeze false (ls ++ [[]]) = ls ++ [[]] := by
    refine squeeze_eq_self false ?_ ?_ fun h => absurd h Bool.false_ne_true
    · rw [List.forall_mem_append, List.forall_mem_singleton]
      exact ⟨h.ends, by simp⟩
    · exact List.isChain_append.mpr
        ⟨h.single, .singleton _, fun line hline _ _ => .inl (h.last line hline)⟩
  have htrim : trimLines (ls ++ [[]]) = ls := by
    obtain ⟨first, rest, rfl⟩ := List.exists_cons_of_ne_nil hne
    have hfirst : ¬isBlankLine first = true := by simp [h.first first rfl]
    rw [trimLines, List.cons_append, List.dropWhile_cons_of_neg hfirst, ← List.cons_append,
      Text.dropEndWhile_append _ (by simp [isBlankLine])]
    exact Text.dropEndWhile_eq_self h.last
  rw [formatChars_eq, formattedLines, hlines, hsqueeze, htrim]

theorem formatChars_formatChars (code : List Char) :
    formatChars (formatChars code) = formatChars code := by
  rw [formatChars_eq code]
  by_cases hne : formattedLines code = []
  · rw [hne]
    rfl
  · exact formatChars_unlines (areClean_formattedLines code)
      (newline_not_mem_formattedLines code) hne

/-- Formatting is a clean-up and nothing more.  Of a text with blank lines only a line feed is left.
Otherwise one line feed ends the text, the lines in front of it are clean, and those that are not
blank are the ones of the text without the white space at their ends, in order, two of them with a
blank line between them exactly if there was one.  Formatting again changes nothing. -/
theorem format_cleans (code : String) :
    (textLines (Text.lines code.toList) = [] → format code = "\n") ∧
      (textLines (Text.lines code.toList) ≠ [] →
        ∃ text, (format code).toList = text ++ ['\n'] ∧ text.getLast? ≠ some '\n' ∧
          AreClean (Text.lines text) ∧
          textLines (Text.lines text) = (textLines (Text.lines code.toList)).map Text.trimEnd ∧
          KeepsGaps (Text.lines code.toList) (Text.lines text)) ∧
      format (format code) = format code := by
  have htext : (format code).toList = Text.unlines (formattedLines code.toList) ++ ['\n'] := by
    rw [format, String.toList_ofList, formatChars_eq]
  have hclean := areClean_formattedLines code.toList
  have hkept := textLines_formattedLines code.toList
  refine ⟨fun hnil => ?_, fun hne => ?_, ?_⟩
  · -- Clean lines that are all blank are none.
    have hformatted : formattedLines code.toList = [] := by
      cases hls : formattedLines code.toList with
      | nil => rfl
      | cons first rest =>
        have hfirst := hclean.first first (by rw [hls]; rfl)
        rw [hls, hnil, textLines_cons, hfirst] at hkept
        cases hkept
    rw [← String.toList_inj, htext, hformatted]
    rfl
  · have hformatted : formattedLines code.toList ≠ [] := by
      intro hls
      rw [hls] at hkept
      exact hne (List.map_eq_nil_iff.mp hkept.symm)
    have hlines := lines_unlines_formattedLines hformatted
    refine ⟨Text.unlines (formattedLines code.toList), htext, ?_, ?_, ?_, ?_⟩
    · have htrim : Text.unlines (formattedLines code.toList) =
          Text.trimNewlines (Text.unlines (squeeze false (Text.lines code.toList))) := by
        obtain ⟨hfeed, hends⟩ := squeeze_lines_spec code.toList
        rw [trimNewlines_unlines hfeed hends, formattedLines]
      rw [htrim]
      intro hlast
      cases Text.dropEndWhile_getLast? (· = '\n') _ _ hlast
    · rw [hlines]
      exact hclean
    · rw [hlines]
      exact hkept
    · rw [hlines]
      exact keepsGaps_formattedLines code.toList
  · rw [format, format, String.toList_ofList, formatChars_formatChars]

/-- Two lines with blank ones between them, one of which has a space on it. -/
theorem format_cleans_gap :
    textLines (Text.lines "a \n\n \n\tb".toList) ≠ [] ∧
      format "a \n\n \n\tb" = "a\n\n\tb\n" ∧
      ∃ text, (format "a \n\n \n\tb").toList = text ++ ['\n'] ∧ AreClean (Text.lines text) ∧
        KeepsGaps (Text.lines "a \n\n \n\tb".toList) (Text.lines text) := by
  have hne : textLines (Text.lines "a \n\n \n\tb".toList) ≠ [] := by decide
  obtain ⟨text, htext, -, hclean, -, hgaps⟩ := (format_cleans "a \n\n \n\tb").2.1 hne
  exact ⟨hne, by decide, text, htext, hclean, hgaps⟩

end SchemaTypings.Typescript
