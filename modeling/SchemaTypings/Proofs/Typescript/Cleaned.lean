/-
  SchemaTypings.Proofs.Typescript.Cleaned

  Blocks of comment in a text, each of which closes at the first comment end in it, and what clean
  format makes of them.

  Clean format drops white space and lines, so what has to be seen is that it joins no asterisk to a
  slash.  It leaves a line feed between any two lines, and in a line it drops nothing in front of a
  character that is no white space.  A block begins and ends with such a character: it is cleaned as
  if it stood alone, and so is what comes behind it.
-/
import SchemaTypings.Proofs.Typescript.SpecifierLine

namespace SchemaTypings.Typescript

/-! ## Clean lines -/

/-- Clean lines of a text that begins in the middle of a line. -/
def squeezeBehind : List Line → List Line
  | [] => []
  | line :: rest => Text.trimEnd line :: squeeze false rest

/-- A text with clean line ends and single blank lines. -/
def cleanLines (text : List Char) : List Char := Text.unlines (squeeze false (Text.lines text))

/-- What cleaning leaves of a text behind a character that is no white space. -/
def cleanBehind (text : List Char) : List Char := Text.unlines (squeezeBehind (Text.lines text))

/-- Whether lines in front of one that is not blank are cleaned on their own. -/
def CleansFront (clean : List Line → List Line) : Prop :=
  ∀ front line rest, Text.trimEnd line ≠ [] →
    clean (front ++ line :: rest) = clean front ++ Text.trimEnd line :: squeeze false rest

theorem cleansFront_squeeze (afterBlank : Bool) : CleansFront (squeeze afterBlank) := by
  intro front line rest hline
  induction front generalizing afterBlank with
  | nil =>
    obtain ⟨c, more, htrim⟩ := List.exists_cons_of_ne_nil hline
    show squeeze afterBlank (line :: rest) = Text.trimEnd line :: squeeze false rest
    rw [squeeze.eq_2, htrim]
  | cons first more ih =>
    rw [List.cons_append, squeeze, squeeze]
    split
    · split
      · exact ih true
      · rw [ih true, List.cons_append]
    · rw [ih false, List.cons_append]

theorem cleansFront_squeezeBehind : CleansFront squeezeBehind := by
  intro front line rest hline
  cases front with
  | nil => rfl
  | cons first more =>
    rw [List.cons_append, squeezeBehind, cleansFront_squeeze false more line rest hline]
    rfl

theorem squeeze_ne_nil {ls : List Line} (h : ls ≠ []) : squeeze false ls ≠ [] := by
  obtain ⟨line, rest, rfl⟩ := List.exists_cons_of_ne_nil h
  rw [squeeze]
  split
  · exact List.cons_ne_nil _ _
  · exact List.cons_ne_nil _ _

section
variable {c : Char}

/-- A character that is no white space cuts a text into two that are cleaned on their own. -/
theorem CleansFront.exists_front {clean : List Line → List Line} (hclean : CleansFront clean)
    (h : Text.isBlank c = false) (text : List Char) :
    ∃ front, ∀ rest, Text.unlines (clean (Text.lines (text ++ c :: rest))) =
      front ++ c :: cleanBehind rest := by
  -- The character ends up on the last line of the text, which is not blank then.
  obtain ⟨front, last, -, happend⟩ := @Text.exists_splitAt_append '\n' text
  refine ⟨Text.unlines (clean front ++ [last]), fun rest => ?_⟩
  obtain ⟨line, lines, hrest⟩ := List.exists_cons_of_ne_nil (Text.splitAt_ne_nil '\n' rest)
  have hnewline : c ≠ '\n' := by
    rintro rfl
    cases h
  have hlines : Text.lines (text ++ c :: rest) = front ++ (last ++ c :: line) :: lines :=
    happend (Text.splitAt_cons_of_ne hnewline hrest)
  have htrim : Text.trimEnd (last ++ c :: line) = last ++ c :: Text.trimEnd line :=
    Text.dropEndWhile_append_cons h last line
  have hbehind : Text.unlines ((c :: Text.trimEnd line) :: squeeze false lines) =
      c :: cleanBehind rest := by
    have hcons := @Text.joinWith_append_cons ['\n'] [] [c] (Text.trimEnd line)
      (squeeze false lines)
    rw [cleanBehind, Text.lines, hrest]
    exact hcons
  rw [hlines, hclean front _ lines (by simp [htrim]), htrim, Text.unlines,
    Text.joinWith_append_cons]
  exact congrArg _ hbehind

theorem exists_cleanLines_append (h : Text.isBlank c = false) (text : List Char) :
    ∃ front, ∀ rest, cleanLines (text ++ c :: rest) = front ++ c :: cleanBehind rest :=
  (cleansFront_squeeze false).exists_front h text

theorem exists_cleanBehind_append (h : Text.isBlank c = false) (text : List Char) :
    ∃ front, ∀ rest, cleanBehind (text ++ c :: rest) = front ++ c :: cleanBehind rest :=
  cleansFront_squeezeBehind.exists_front h text

theorem cleanLines_cons (h : Text.isBlank c = false) (rest : List Char) :
    cleanLines (c :: rest) = c :: cleanBehind rest := by
  obtain ⟨front, hfront⟩ := exists_cleanLines_append h []
  have hnewline : c ≠ '\n' := by
    rintro rfl
    cases h
  have halone : cleanLines [c] = [c] := by
    simp [cleanLines, Text.lines, Text.splitAt, hnewline, squeeze, Text.trimEnd, Text.dropEndWhile,
      h, Text.unlines, Text.joinWith]
  have hnil : front ++ [c] = [c] := (hfront []).symm.trans halone
  rw [List.append_left_eq_self.mp hnil] at hfront
  exact hfront rest

end

/-! ## Comment ends -/

theorem holdsCommentEnd_append_newline {text rest : List Char} (h : holdsCommentEnd text = false)
    (hrest : holdsCommentEnd rest = false) : holdsCommentEnd (text ++ '\n' :: rest) = false := by
  induction text with
  | nil => rwa [List.nil_append, holdsCommentEnd_cons (by simp)]
  | cons c more ih =>
    have hcons : ¬(c = '*' ∧ more.head? = some '/') := by
      rintro ⟨rfl, hslash⟩
      obtain ⟨after, rfl⟩ := List.head?_eq_some_iff.mp hslash
      cases h
    rw [holdsCommentEnd_cons hcons] at h
    rw [List.cons_append, holdsCommentEnd_cons, ih h]
    -- A slash behind the asterisk is one of the text.
    cases more with
    | nil => simp
    | cons d after => exact hcons

theorem holdsCommentEnd_unlines {ls : List Line}
    (h : ∀ line ∈ ls, holdsCommentEnd line = false) : holdsCommentEnd (Text.unlines ls) = false := by
  induction ls with
  | nil => rfl
  | cons line rest ih =>
    rw [List.forall_mem_cons] at h
    by_cases hrest : rest = []
    · subst hrest
      exact h.1
    · rw [Text.unlines, Text.joinWith_cons line hrest, List.append_assoc]
      exact holdsCommentEnd_append_newline h.1 (ih h.2)

/-- Cleaning makes no comment end. -/
theorem holdsCommentEnd_cleanLines {text : List Char} (h : holdsCommentEnd text = false) :
    holdsCommentEnd (cleanLines text) = false := by
  refine holdsCommentEnd_unlines fun line hline => ?_
  obtain ⟨l, hl, rfl⟩ := exists_of_mem_squeeze hline
  obtain ⟨dropped, heq, -⟩ := Text.dropEndWhile_append_dropped Text.isBlank l
  have hline := holdsCommentEnd_of_mem_lines h l hl
  rw [heq] at hline
  exact holdsCommentEnd_of_append hline

/-! ## Blocks -/

/-- Whether a text is a documentation block: it begins like one, and the first comment end in it is
at its end. -/
structure IsBlock (block : List Char) : Prop where
  opens : "/**\n".toList <+: block
  closes : ∃ inner, block = inner ++ ['*', '/'] ∧ holdsCommentEnd (inner ++ ['*']) = false

/-- Whether some blocks stand in a text one after another, with anything around them. -/
inductive Documents : List (List Char) → List Char → Prop where
  | nil (text : List Char) : Documents [] text
  | cons (before : List Char) {block after : List Char} {blocks : List (List Char)}
      (hblock : IsBlock block) (hafter : Documents blocks after) :
      Documents (block :: blocks) (before ++ (block ++ after))

namespace IsBlock

variable {block : List Char}

theorem exists_middle (h : IsBlock block) : ∃ middle, block = '/' :: (middle ++ ['/']) := by
  obtain ⟨rest, hopens⟩ := h.opens
  obtain ⟨inner, hcloses, -⟩ := h.closes
  cases inner with
  | nil =>
    rw [hcloses] at hopens
    cases hopens
  | cons c middle =>
    rw [hcloses] at hopens
    obtain rfl : '/' = c := (List.cons.inj hopens).1
    exact ⟨middle ++ ['*'], by rw [hcloses]; simp⟩

/-- Behind the slash that begins a block, the rest of it is cleaned apart from what follows. -/
theorem exists_cleanBehind (h : IsBlock block) (after : List Char) :
    ∃ middle, block = '/' :: (middle ++ ['/']) ∧
      '/' :: cleanBehind (middle ++ '/' :: after) = cleanLines block ++ cleanBehind after := by
  obtain ⟨middle, rfl⟩ := h.exists_middle
  obtain ⟨front, hfront⟩ := exists_cleanBehind_append (c := '/') rfl middle
  refine ⟨middle, rfl, ?_⟩
  rw [cleanLines_cons rfl, hfront, hfront]
  simp [cleanBehind, Text.lines, squeezeBehind, Text.trimEnd, squeeze, Text.unlines, Text.joinWith]

/-- A clean block is a block. -/
theorem cleanLines (h : IsBlock block) : IsBlock (cleanLines block) where
  opens := by
    obtain ⟨rest, rfl⟩ := h.opens
    have hlines : Text.lines ("/**\n".toList ++ rest) = "/**".toList :: Text.lines rest :=
      lines_append_newline "/**".toList rest
    have hsqueeze : squeeze false (Text.lines ("/**\n".toList ++ rest)) =
        "/**".toList :: squeeze false (Text.lines rest) := by
      rw [hlines]
      exact cleansFront_squeeze false [] "/**".toList (Text.lines rest) (by decide)
    have hne : squeeze false (Text.lines rest) ≠ [] :=
      squeeze_ne_nil (Text.splitAt_ne_nil '\n' rest)
    rw [Typescript.cleanLines, hsqueeze, Text.unlines, Text.joinWith_cons _ hne]
    exact List.prefix_append _ _
  closes := by
    obtain ⟨inner, rfl, hinner⟩ := h.closes
    obtain ⟨front, hfront⟩ := exists_cleanLines_append (c := '*') rfl inner
    have hclean := holdsCommentEnd_cleanLines hinner
    rw [hfront] at hclean
    exact ⟨front, hfront ['/'], hclean⟩

end IsBlock

namespace Documents

variable {blocks more : List (List Char)} {text rest : List Char}

theorem prepend (h : Documents blocks text) (front : List Char) :
    Documents blocks (front ++ text) := by
  cases h with
  | nil => exact .nil _
  | cons before hblock hafter =>
    rw [← List.append_assoc]
    exact .cons (front ++ before) hblock hafter

theorem append (h : Documents blocks text) (hrest : Documents more rest) :
    Documents (blocks ++ more) (text ++ rest) := by
  induction h with
  | nil text => exact hrest.prepend text
  | cons before hblock _ ih =>
    rw [List.append_assoc, List.append_assoc]
    exact .cons before hblock ih

theorem append_text (h : Documents blocks text) (rest : List Char) :
    Documents blocks (text ++ rest) := by
  have hall := h.append (.nil rest)
  rwa [List.append_nil] at hall

/-- Line feeds in front of a text belong to no block. -/
theorem dropWhile_newlines (h : Documents blocks text) :
    Documents blocks (text.dropWhile (· = '\n')) := by
  cases h with
  | nil => exact .nil _
  | @cons before block after blocks hblock hafter =>
    obtain ⟨middle, heq⟩ := hblock.exists_middle
    have hblocks : (block ++ after).dropWhile (· = '\n') = block ++ after := by
      rw [heq]
      rfl
    rw [List.dropWhile_append, hblocks]
    split
    · exact .cons [] hblock hafter
    · exact .cons _ hblock hafter

theorem dropEndWhile_newlines (h : Documents blocks text) :
    Documents blocks (Text.dropEndWhile (· = '\n') text) := by
  induction h with
  | nil => exact .nil _
  | @cons before block after _ hblock _ ih =>
    obtain ⟨middle, heq⟩ := hblock.exists_middle
    have hdrop := Text.dropEndWhile_append_cons (p := (· = '\n')) (a := '/') rfl
      (before ++ '/' :: middle) after
    have hfront : ∀ behind, before ++ '/' :: middle ++ '/' :: behind =
        before ++ (block ++ behind) := by
      simp [heq]
    rw [hfront, hfront] at hdrop
    rw [hdrop]
    exact .cons before hblock ih

/-- Blocks stay as the ends of a text are trimmed. -/
theorem trimNewlines (h : Documents blocks text) : Documents blocks (Text.trimNewlines text) :=
  h.dropWhile_newlines.dropEndWhile_newlines

/-- Blocks are cleaned on their own by what cleans a text in front of a slash on its own. -/
theorem of_cleans {clean : List Char → List Char}
    (hclean : ∀ before, ∃ front, ∀ rest, clean (before ++ '/' :: rest) =
      front ++ '/' :: cleanBehind rest) (h : Documents blocks text) :
    Documents (blocks.map cleanLines) (clean text) := by
  induction h generalizing clean with
  | nil => exact .nil _
  | @cons before block after _ hblock _ ih =>
    obtain ⟨middle, heq, hbehind⟩ := hblock.exists_cleanBehind after
    obtain ⟨front, hfront⟩ := hclean before
    have hall : clean (before ++ (block ++ after)) =
        front ++ (Typescript.cleanLines block ++ cleanBehind after) := by
      rw [heq, List.cons_append, List.append_assoc, ← heq, ← hbehind]
      exact hfront _
    rw [hall]
    -- What comes behind the block begins in the middle of its last line.
    exact .cons front hblock.cleanLines (ih fun _ => exists_cleanBehind_append rfl _)

/-- Blocks stay in a text as it is put in clean format. -/
theorem formatChars (h : Documents blocks text) :
    Documents (blocks.map cleanLines) (formatChars text) := by
  have hclean : Documents (blocks.map cleanLines) (Typescript.cleanLines text) :=
    h.of_cleans fun _ => exists_cleanLines_append rfl _
  exact hclean.trimNewlines.append_text ['\n']

end Documents

end SchemaTypings.Typescript
