/-
  SchemaTypings.Proofs.Typescript.SpecifierLine

  The lines of a source text that import or export by a specifier, and what a specifier stands for
  that is read off such a line.

  A text is read line by line.  A block comment begins at the beginning of a line; behind the line
  that ends it the next one is code.  White space at the ends of lines and empty lines do not matter,
  so a text is read like the same text in clean format.
-/
import SchemaTypings.Proofs.Typescript.OneLine
import SchemaTypings.Proofs.Typescript.Pages
import SchemaTypings.Proofs.Typescript.StringLiteral

namespace SchemaTypings.Typescript

open Json (textUnits unitsOf)
open Reader (endLines_append)

/-! ## The reader -/

/-- Whether a comment is open behind a line, in front of which one is open or not. -/
def opensComment (inside : Bool) (line : Line) : Bool :=
  if inside then !holdsCommentEnd line
  else "/*".toList.isPrefixOf line && !holdsCommentEnd (line.drop 2)

/-- Whether a line imports or exports something and has a quote in it. -/
def isSpecifierLine (line : Line) : Bool :=
  (line.takeWhile isWordPart = "import".toList || line.takeWhile isWordPart = "export".toList) &&
    line.contains '\''

/-- The lines with specifiers among some lines, in front of which a comment is open or not. -/
def specifierLinesOf (inside : Bool) : List Line → List Line
  | [] => []
  | line :: rest =>
    let more := specifierLinesOf (opensComment inside line) rest
    if !inside && isSpecifierLine line then line :: more else more

/-- The lines of a source text that import or export by a specifier. -/
def specifierLines (source : String) : List Line := specifierLinesOf false (Text.lines source.toList)

/-- The units that the literal stands for that begins at the first quote of a line. -/
def readSpecifier? (line : Line) : Option (List Nat) :=
  (readLiteral '\'' ((line.dropWhile (· ≠ '\'')).drop 1)).map Prod.fst

example : (specifierLines
      "/* \nimport './a'\n*/\nimport './b'\n// import './c'\nexport type D = \x7b\n  import: './d'").map
    String.ofList = ["import './b'"] := by
  decide +kernel

/-! ## White space at the ends of lines -/

variable {blanks : List Char}

theorem holdsCommentEnd_append_blanks (h : ∀ c ∈ blanks, Text.isBlank c = true)
    (text : List Char) : holdsCommentEnd (text ++ blanks) = holdsCommentEnd text := by
  have hnot : ∀ {d : Char}, Text.isBlank d = false → blanks.head? ≠ some d := by
    intro d hd hhead
    rw [h d (List.mem_of_head? hhead)] at hd
    cases hd
  -- an end that is completed behind the text would need a slash among the blanks
  induction text with
  | nil =>
    induction blanks with
    | nil => rfl
    | cons c rest ih =>
      rw [List.forall_mem_cons] at h
      have hstar : c ≠ '*' := Reader.ne_of_isBlank h.1 (by decide)
      rw [List.nil_append, holdsCommentEnd_cons fun hboth => hstar hboth.1]
      refine ih h.2 fun hd hhead => ?_
      rw [h.2 _ (List.mem_of_head? hhead)] at hd
      cases hd
  | cons c rest ih =>
    by_cases hend : c = '*' ∧ rest.head? = some '/'
    · obtain ⟨rfl, hslash⟩ := hend
      obtain ⟨more, rfl⟩ := List.head?_eq_some_iff.mp hslash
      rfl
    · have hlonger : ¬(c = '*' ∧ (rest ++ blanks).head? = some '/') := by
        rintro ⟨rfl, hslash⟩
        cases rest with
        | nil => exact hnot (by decide) hslash
        | cons d more => exact hend ⟨rfl, hslash⟩
      rw [List.cons_append, holdsCommentEnd_cons hlonger, holdsCommentEnd_cons hend, ih]

theorem takeWhile_isWordPart_append_blanks (h : ∀ c ∈ blanks, Text.isBlank c = true)
    (text : List Char) : (text ++ blanks).takeWhile isWordPart = text.takeWhile isWordPart := by
  induction text with
  | nil =>
    cases blanks with
    | nil => rfl
    | cons c rest =>
      have hc := Reader.isWordPart_of_isBlank (h c List.mem_cons_self)
      rw [List.nil_append, List.takeWhile_cons_of_neg (by simp [hc])]
      rfl
  | cons c rest ih => rw [List.cons_append, List.takeWhile_cons, List.takeWhile_cons, ih]

theorem isSpecifierLine_append_blanks (h : ∀ c ∈ blanks, Text.isBlank c = true) (line : Line) :
    isSpecifierLine (line ++ blanks) = isSpecifierLine line := by
  have hquote : '\'' ∉ blanks := fun hmem => absurd (h _ hmem) (by decide)
  have hcontains : (line ++ blanks).contains '\'' = line.contains '\'' := by
    simp [hquote]
  rw [isSpecifierLine, takeWhile_isWordPart_append_blanks h, hcontains]
  rfl

theorem opensComment_append_blanks (h : ∀ c ∈ blanks, Text.isBlank c = true) (inside : Bool)
    (line : Line) : opensComment inside (line ++ blanks) = opensComment inside line := by
  have hnot : ∀ d : Char, Text.isBlank d = false → ∀ c ∈ blanks, d ≠ c := by
    rintro d hd _ hc rfl
    rw [h _ hc] at hd
    cases hd
  have hslash := hnot '/' (by decide)
  have hstar := hnot '*' (by decide)
  cases inside with
  | true =>
    show (!holdsCommentEnd (line ++ blanks)) = !holdsCommentEnd line
    rw [holdsCommentEnd_append_blanks h]
  | false =>
    show ("/*".toList.isPrefixOf (line ++ blanks) && !holdsCommentEnd ((line ++ blanks).drop 2)) =
      ("/*".toList.isPrefixOf line && !holdsCommentEnd (line.drop 2))
    -- A line of fewer than two characters begins no comment, and white space does not complete one.
    match line with
    | [] =>
      cases blanks with
      | nil => rfl
      | cons c rest => simp [List.isPrefixOf, hslash c List.mem_cons_self]
    | [d] =>
      cases blanks with
      | nil => rfl
      | cons c rest => simp [List.isPrefixOf, hstar c List.mem_cons_self]
    | d :: e :: rest =>
      show ("/*".toList.isPrefixOf (d :: e :: (rest ++ blanks)) && !holdsCommentEnd (rest ++ blanks)) =
        ("/*".toList.isPrefixOf (d :: e :: rest) && !holdsCommentEnd rest)
      rw [holdsCommentEnd_append_blanks h]
      rfl

theorem isSpecifierLine_trimEnd (line : Line) :
    isSpecifierLine (Text.trimEnd line) = isSpecifierLine line := by
  obtain ⟨dropped, heq, hblank⟩ := Text.dropEndWhile_append_dropped Text.isBlank line
  have hsame := isSpecifierLine_append_blanks hblank (Text.trimEnd line)
  rw [Text.trimEnd, ← heq] at hsame
  exact hsame.symm

theorem opensComment_trimEnd (inside : Bool) (line : Line) :
    opensComment inside (Text.trimEnd line) = opensComment inside line := by
  obtain ⟨dropped, heq, hblank⟩ := Text.dropEndWhile_append_dropped Text.isBlank line
  have hsame := opensComment_append_blanks hblank inside (Text.trimEnd line)
  rw [Text.trimEnd, ← heq] at hsame
  exact hsame.symm

/-! ## Clean format -/

/-- An empty line is no line with a specifier and leaves comments as they are. -/
theorem specifierLinesOf_nil_cons (inside : Bool) (rest : List Line) :
    specifierLinesOf inside ([] :: rest) = specifierLinesOf inside rest := by
  cases inside with
  | true => rfl
  | false => rfl

theorem specifierLinesOf_append (inside : Bool) (ls more : List Line) :
    specifierLinesOf inside (ls ++ more) =
      specifierLinesOf inside ls ++ specifierLinesOf (ls.foldl opensComment inside) more := by
  induction ls generalizing inside with
  | nil => rfl
  | cons line rest ih =>
    rw [List.cons_append, specifierLinesOf, specifierLinesOf, List.foldl_cons, ih]
    split
    · rfl
    · rfl

/-- Clean format trims the lines with specifiers. -/
theorem specifierLinesOf_squeeze (inside afterBlank : Bool) (ls : List Line) :
    specifierLinesOf inside (squeeze afterBlank ls) =
      (specifierLinesOf inside ls).map Text.trimEnd := by
  induction ls generalizing inside afterBlank with
  | nil => rfl
  | cons line rest ih =>
    have hspecifier := isSpecifierLine_trimEnd line
    have hopens := opensComment_trimEnd inside line
    rw [squeeze]
    split
    · next hblank =>
      -- A line of white space is none with a specifier.
      have hskip : specifierLinesOf inside (line :: rest) = specifierLinesOf inside rest := by
        rw [specifierLinesOf, ← hspecifier, ← hopens, hblank]
        cases inside with
        | true => rfl
        | false => rfl
      rw [hskip]
      split
      · exact ih inside true
      · rw [specifierLinesOf_nil_cons, ih inside true]
    · rw [specifierLinesOf, specifierLinesOf, hspecifier, hopens, ih]
      split
      · rfl
      · rfl

theorem specifierLinesOf_newlines {newlines : List Char}
    (h : ∀ c ∈ newlines, decide (c = '\n') = true) (inside : Bool) :
    specifierLinesOf inside (Text.lines newlines) = [] := by
  induction newlines with
  | nil =>
    rw [Text.lines, Text.splitAt_nil, specifierLinesOf_nil_cons]
    rfl
  | cons c rest ih =>
    rw [List.forall_mem_cons] at h
    rw [of_decide_eq_true h.1, Text.lines, Text.splitAt_sep_cons, specifierLinesOf_nil_cons]
    exact ih h.2

theorem lines_append_newline (text rest : List Char) :
    Text.lines (text ++ '\n' :: rest) = Text.lines text ++ Text.lines rest :=
  Text.splitAt_append_cons text rest

/-- Line feeds at the ends of a text are no lines with specifiers. -/
theorem specifierLinesOf_trimNewlines (text : List Char) :
    specifierLinesOf false (Text.lines (Text.trimNewlines text)) =
      specifierLinesOf false (Text.lines text) := by
  have hfront : ∀ inside, specifierLinesOf inside (Text.lines (text.dropWhile (· = '\n'))) =
      specifierLinesOf inside (Text.lines text) := by
    intro inside
    induction text with
    | nil => rfl
    | cons c rest ih =>
      by_cases hc : c = '\n'
      · subst hc
        rw [List.dropWhile_cons_of_pos (by decide), ih, Text.lines, Text.lines,
          Text.splitAt_sep_cons, specifierLinesOf_nil_cons]
      · rw [List.dropWhile_cons_of_neg (by simpa using hc)]
  obtain ⟨dropped, heq, hdropped⟩ :=
    Text.dropEndWhile_append_dropped (fun c => decide (c = '\n')) (text.dropWhile (· = '\n'))
  rw [← hfront false, heq]
  show specifierLinesOf false (Text.lines (Text.trimNewlines text)) =
    specifierLinesOf false (Text.lines (Text.trimNewlines text ++ dropped))
  cases dropped with
  | nil => rw [List.append_nil]
  | cons c rest =>
    rw [List.forall_mem_cons] at hdropped
    rw [of_decide_eq_true hdropped.1, lines_append_newline, specifierLinesOf_append,
      specifierLinesOf_newlines hdropped.2, List.append_nil]

/-- The lines that cleaning leaves are lines without the white space at their ends. -/
theorem exists_of_mem_squeeze {ls : List Line} {afterBlank : Bool} {line : Line}
    (h : line ∈ squeeze afterBlank ls) : ∃ l ∈ ls, line = Text.trimEnd l := by
  induction ls generalizing afterBlank with
  | nil => cases h
  | cons first rest ih =>
    have hrest : ∀ {afterBlank}, line ∈ squeeze afterBlank rest →
        ∃ l ∈ first :: rest, line = Text.trimEnd l := by
      intro afterBlank hmem
      obtain ⟨l, hl, heq⟩ := ih hmem
      exact ⟨l, List.mem_cons_of_mem _ hl, heq⟩
    rw [squeeze] at h
    split at h
    · next hblank =>
      split at h
      · exact hrest h
      · rcases List.mem_cons.mp h with rfl | h
        · exact ⟨first, List.mem_cons_self, hblank.symm⟩
        · exact hrest h
    · rcases List.mem_cons.mp h with rfl | h
      · exact ⟨first, List.mem_cons_self, rfl⟩
      · exact hrest h

theorem not_mem_newline_squeeze {ls : List Line} (h : ∀ line ∈ ls, '\n' ∉ line)
    (afterBlank : Bool) : ∀ line ∈ squeeze afterBlank ls, '\n' ∉ line := by
  intro line hline hmem
  obtain ⟨l, hl, rfl⟩ := exists_of_mem_squeeze hline
  obtain ⟨dropped, heq, -⟩ := Text.dropEndWhile_append_dropped Text.isBlank l
  apply h l hl
  rw [heq]
  exact List.mem_append_left _ hmem

theorem specifierLinesOf_unlines {ls : List Line} (h : ∀ line ∈ ls, '\n' ∉ line) :
    specifierLinesOf false (Text.lines (Text.unlines ls)) = specifierLinesOf false ls := by
  by_cases hnil : ls = []
  · subst hnil
    rfl
  · rw [Text.lines, Text.unlines, Text.splitAt_joinWith hnil h]

/-- A text in clean format has the same lines with specifiers, trimmed. -/
theorem specifierLines_formatChars (code : List Char) :
    specifierLines (String.ofList (formatChars code)) =
      (specifierLinesOf false (Text.lines code)).map Text.trimEnd := by
  have hlines : ∀ line ∈ Text.lines code, '\n' ∉ line := Text.not_mem_of_mem_splitAt '\n' code
  have hend : ∀ inside, specifierLinesOf inside (Text.lines []) = [] :=
    specifierLinesOf_newlines (by simp)
  rw [specifierLines, String.toList_ofList, formatChars, lines_append_newline,
    specifierLinesOf_append, hend, List.append_nil, specifierLinesOf_trimNewlines,
    specifierLinesOf_unlines (not_mem_newline_squeeze hlines _), specifierLinesOf_squeeze]

/-! ## Lines in a row -/

/-- Whether lines that are read outside comments end outside comments, and which of them have
specifiers. -/
structure Finds (ls : List Line) (found : List Line) : Prop where
  found : specifierLinesOf false ls = found
  outside : ls.foldl opensComment false = false

namespace Finds

variable {ls more found foundMore : List Line}

theorem nil : Finds [] [] := ⟨rfl, rfl⟩

theorem append (h : Finds ls found) (hmore : Finds more foundMore) :
    Finds (ls ++ more) (found ++ foundMore) where
  found := by rw [specifierLinesOf_append, h.outside, h.found, hmore.found]
  outside := by rw [List.foldl_append, h.outside, hmore.outside]

theorem cons {line : Line} (hopens : opensComment false line = false) (h : Finds ls found) :
    Finds (line :: ls) (if isSpecifierLine line then line :: found else found) where
  found := by
    rw [specifierLinesOf, hopens, h.found]
    rfl
  outside := by rw [List.foldl_cons, hopens, h.outside]

/-- A line with a specifier. -/
theorem singleton {line : Line} (hopens : opensComment false line = false)
    (hline : isSpecifierLine line = true) : Finds [line] [line] := by
  have hcons := cons hopens nil
  rwa [if_pos hline] at hcons

/-- Lines without specifiers outside comments. -/
theorem of_forall (h : ∀ line ∈ ls, opensComment false line = false ∧ isSpecifierLine line = false) :
    Finds ls [] := by
  induction ls with
  | nil => exact nil
  | cons line rest ih =>
    rw [List.forall_mem_cons] at h
    have hcons := cons h.1.1 (ih h.2)
    rwa [if_neg (by simp [h.1.2])] at hcons

theorem flatMap {α : Type} {xs : List α} {lines found : α → List Line}
    (h : ∀ x ∈ xs, Finds (lines x) (found x)) : Finds (xs.flatMap lines) (xs.flatMap found) := by
  induction xs with
  | nil => exact nil
  | cons x rest ih =>
    rw [List.forall_mem_cons] at h
    rw [List.flatMap_cons, List.flatMap_cons]
    exact h.1.append (ih h.2)

/-- The line feeds behind lines make no more of them but an empty one. -/
theorem endLines {texts : List Line} (h : Finds (texts.flatMap Text.lines) found) :
    Finds (Text.lines (endLines texts)) found := by
  have hlines : Text.lines (Typescript.endLines texts) = texts.flatMap Text.lines ++ [[]] := by
    clear h
    induction texts with
    | nil => rfl
    | cons text rest ih =>
      rw [Typescript.endLines, List.flatMap_cons, List.append_assoc, List.singleton_append,
        lines_append_newline, ← Typescript.endLines, ih, List.flatMap_cons, List.append_assoc]
  have hempty : Finds [[]] [] := ⟨rfl, rfl⟩
  have hall := h.append hempty
  rwa [← hlines, List.append_nil] at hall

theorem paragraph {texts : List Line} (h : Finds (texts.flatMap Text.lines) found) :
    Finds ((paragraph texts).flatMap Text.lines) found := by
  rw [Typescript.paragraph]
  split
  · next hnil =>
    rw [hnil] at h
    exact h
  · have hempty : Finds (Text.lines []) [] := ⟨rfl, rfl⟩
    exact hempty.append h

end Finds

/-! ## Parts of pages -/

/-- A text without quotes and slashes has no specifiers and begins no comment. -/
theorem finds_of_plain {text : List Char} (h : ∀ c ∈ text, c ≠ '\'' ∧ c ≠ '/') :
    Finds (Text.lines text) [] := by
  refine Finds.of_forall fun line hline => ⟨?_, ?_⟩
  · cases line with
    | nil => rfl
    | cons c rest =>
      have hc := (h c (Text.mem_of_mem_splitAt hline List.mem_cons_self)).2
      simp [opensComment, List.isPrefixOf, Ne.symm hc]
  · have hquote : '\'' ∉ line := fun hmem => (h _ (Text.mem_of_mem_splitAt hline hmem)).1 rfl
    simp [isSpecifierLine, hquote]

/-- A line that begins with neither a word nor a slash is passed over. -/
theorem finds_of_head {line : Line} (hnewline : '\n' ∉ line)
    (hhead : ∀ c ∈ line.head?, isWordPart c = false ∧ c ≠ '/') : Finds (Text.lines line) [] := by
  rw [Text.lines, Text.splitAt_of_not_mem hnewline]
  refine Finds.of_forall (List.forall_mem_singleton.mpr ⟨?_, ?_⟩)
  · cases line with
    | nil => rfl
    | cons c rest => simp [opensComment, List.isPrefixOf, Ne.symm (hhead c rfl).2]
  · cases line with
    | nil => rfl
    | cons c rest =>
      have hword : (c :: rest).takeWhile isWordPart = [] :=
        List.takeWhile_cons_of_neg (by simp [(hhead c rfl).1])
      rw [isSpecifierLine, hword]
      rfl

theorem holdsCommentEnd_of_append_right {text more : List Char}
    (h : holdsCommentEnd (text ++ more) = false) : holdsCommentEnd more = false := by
  induction text with
  | nil => exact h
  | cons c rest ih =>
    refine ih ?_
    by_contra hends
    rw [List.cons_append, holdsCommentEnd.eq_def] at h
    split at h
    · cases h
    · next heq =>
      cases heq
      exact hends h
    · next heq => cases heq

theorem exists_append_of_mem_joinWith {sep piece : List Char} {pieces : List (List Char)}
    (h : piece ∈ pieces) : ∃ front behind, Text.joinWith sep pieces = front ++ (piece ++ behind) := by
  induction pieces with
  | nil => cases h
  | cons first rest ih =>
    by_cases hrest : rest = []
    · subst hrest
      rw [List.mem_singleton.mp h]
      exact ⟨[], [], (List.append_nil _).symm⟩
    · rw [Text.joinWith_cons first hrest]
      rcases List.mem_cons.mp h with rfl | h
      · exact ⟨[], sep ++ Text.joinWith sep rest, List.append_assoc _ _ _⟩
      · obtain ⟨front, behind, heq⟩ := ih h
        refine ⟨first ++ sep ++ front, behind, ?_⟩
        rw [heq, List.append_assoc (first ++ sep)]

/-- The lines of a text without a comment end have none. -/
theorem holdsCommentEnd_of_mem_lines {text : List Char} (h : holdsCommentEnd text = false) :
    ∀ line ∈ Text.lines text, holdsCommentEnd line = false := by
  intro line hline
  obtain ⟨front, behind, heq⟩ : ∃ front behind,
      Text.joinWith ['\n'] (Text.lines text) = front ++ (line ++ behind) :=
    exists_append_of_mem_joinWith hline
  have htext : text = front ++ (line ++ behind) :=
    (Text.joinWith_splitAt '\n' text).symm.trans heq
  rw [htext] at h
  exact holdsCommentEnd_of_append (holdsCommentEnd_of_append_right h)

/-- In a comment lines are passed over as long as none ends it. -/
theorem passes_of_holdsCommentEnd {ls : List Line} (h : ∀ line ∈ ls, holdsCommentEnd line = false) :
    specifierLinesOf true ls = [] ∧ ls.foldl opensComment true = true := by
  induction ls with
  | nil => exact ⟨rfl, rfl⟩
  | cons line rest ih =>
    rw [List.forall_mem_cons] at h
    have hopen : opensComment true line = true := by
      rw [opensComment, if_pos rfl, h.1]
      rfl
    rw [specifierLinesOf, List.foldl_cons, hopen]
    exact ih h.2

/-- Documentation is passed over, also where its lines have line feeds in them. -/
theorem finds_docBlock {doc : List Line} (h : ∀ line ∈ doc, holdsCommentEnd line = false) :
    Finds ((docBlock doc).flatMap Text.lines) [] := by
  rw [docBlock]
  split
  · exact Finds.nil
  · have hinner : ∀ line ∈ (doc.map blockLine).flatMap Text.lines, holdsCommentEnd line = false := by
      intro line hline
      obtain ⟨text, htext, hline⟩ := List.mem_flatMap.mp hline
      obtain ⟨own, hown, rfl⟩ := List.mem_map.mp htext
      exact holdsCommentEnd_of_mem_lines (holdsCommentEnd_blockLine (h own hown)) line hline
    obtain ⟨hnone, hopen⟩ := passes_of_holdsCommentEnd hinner
    have hfirst : opensComment false "/**".toList = true := by decide
    have hlast : opensComment true [' ', '*', '/'] = false := by decide
    have htext : (['/', '*', '*'] :: doc.map blockLine ++ [[' ', '*', '/']]).flatMap Text.lines =
        ["/**".toList] ++ ((doc.map blockLine).flatMap Text.lines ++ [[' ', '*', '/']]) := by
      rw [List.flatMap_append, List.flatMap_cons, List.flatMap_singleton, List.append_assoc]
      rfl
    rw [htext]
    constructor
    · rw [specifierLinesOf_append, List.foldl_cons, hfirst, List.foldl_nil,
        specifierLinesOf_append, hnone, hopen]
      rfl
    · rw [List.foldl_append, List.foldl_cons, hfirst, List.foldl_nil, List.foldl_append, hopen,
        List.foldl_cons, hlast, List.foldl_nil]

end SchemaTypings.Typescript
