/-
  SchemaTypings.Proofs.Typescript.TopLevel

  The names that a source text exports at its top level, read off the text character by character.

  Comments and strings are passed over and brackets are counted; outside all of them `export`, a kind
  of declaration and a word in a row declare the word.  Where these stand on a line does not matter.
  White space at the ends of lines and empty lines do not matter either, so a text is read like the
  same text in clean format.
-/
import SchemaTypings.Proofs.Naming.Identifier
import SchemaTypings.Typescript.Page

namespace SchemaTypings.Typescript

/-! ## The reader -/

/-- The quotes around strings. -/
inductive Quote where
  | single
  | double
  /-- Around a template, which is passed over like any other string. -/
  | back
deriving DecidableEq

/-- The character of a quote. -/
def Quote.char : Quote → Char
  | .single => '\''
  | .double => '"'
  | .back => '\x60'

/-- What a character outside words, comments and strings is. -/
inductive Sign where
  | blank
  | slash
  | quote (quote : Quote)
  | opening
  | closing
  | other
deriving DecidableEq

/-- The sign that a character is. -/
def signOf (c : Char) : Sign :=
  if Text.isBlank c then .blank
  else if c = '/' then .slash
  else if c = '\'' then .quote .single
  else if c = '"' then .quote .double
  else if c = '\x60' then .quote .back
  else if c = '(' ∨ c = '[' ∨ c = '\x7b' then .opening
  else if c = ')' ∨ c = ']' ∨ c = '\x7d' then .closing
  else .other

/-- A character of a word: an ASCII letter or digit, an underscore, a dollar sign, or one beyond ASCII
that is no white space. -/
def isWordPart (c : Char) : Bool :=
  c.isAlphanum || c = '_' || c = '$' || (!Text.isAscii c && !Text.isBlank c)

/-- What the next character is part of. -/
inductive Mode where
  | code
  /-- Behind a slash, which may begin a comment. -/
  | slash
  | lineComment
  /-- In a block comment; whether an asterisk stands right before. -/
  | blockComment (starred : Bool)
  | quoted (quote : Quote)
  /-- Behind a backslash in a string. -/
  | escaped (quote : Quote)
deriving DecidableEq

/-- How much of the beginning of an exported declaration was read last. -/
inductive Stage where
  | nothing
  | exported
  | kind
deriving DecidableEq

/-- The words for the kinds of declarations that are looked for. -/
def kindWords : List (List Char) := ["interface", "type", "const"].map String.toList

/-- A reader within a text. -/
structure Reader where
  mode : Mode := .code
  /-- How many brackets are open. -/
  depth : Nat := 0
  /-- The word that is being read. -/
  word : List Char := []
  stage : Stage := .nothing
  names : List String := []
deriving DecidableEq

namespace Reader

/-- The end of the word that is being read, if one is. -/
def endWord (r : Reader) : Reader :=
  if r.word = [] then r
  else
    match r.stage with
    | .nothing =>
      { r with
        word := []
        stage := if r.depth = 0 ∧ r.word = "export".toList then .exported else .nothing }
    | .exported => { r with word := [], stage := if r.word ∈ kindWords then .kind else .nothing }
    | .kind => { r with word := [], stage := .nothing, names := r.names ++ [String.ofList r.word] }

/-- A sign in the code. -/
def sign (r : Reader) : Sign → Reader
  | .blank => r
  | .slash => { r with mode := .slash }
  | .quote quote => { r with mode := .quoted quote, stage := .nothing }
  | .opening => { r with depth := r.depth + 1, stage := .nothing }
  | .closing => { r with depth := r.depth - 1, stage := .nothing }
  | .other => { r with stage := .nothing }

/-- A character in the code. -/
def codeStep (r : Reader) (c : Char) : Reader :=
  if isWordPart c then { r with word := r.word ++ [c] } else r.endWord.sign (signOf c)

/-- One more character. -/
def step (r : Reader) (c : Char) : Reader :=
  match r.mode with
  | .code => r.codeStep c
  | .slash =>
    if c = '*' then { r with mode := .blockComment false }
    else if c = '/' then { r with mode := .lineComment }
    else codeStep { r with mode := .code, stage := .nothing } c
  | .lineComment => if c = '\n' then codeStep { r with mode := .code } c else r
  | .blockComment starred =>
    if starred ∧ c = '/' then { r with mode := .code }
    else { r with mode := .blockComment (c = '*') }
  | .quoted quote =>
    if c = '\\' then { r with mode := .escaped quote }
    else if c = quote.char then { r with mode := .code }
    else r
  | .escaped quote => { r with mode := .quoted quote }

/-- All characters of a text, one after the other. -/
def read (r : Reader) (text : List Char) : Reader := text.foldl step r

/-- The end of a line, which is the end of a text as well. -/
def endLine (r : Reader) : Reader := r.step '\n'

end Reader

/-- The names that a source text exports at its top level, in order. -/
def topLevelExports (source : String) : List String :=
  (Reader.read {} source.toList).endLine.names

example : topLevelExports
    "/* export type A */ export type B = 'export type C'\nfoo(`\n\nexport const D`)\n  export const E = 1" =
    ["B", "E"] := by
  decide +kernel

/-! ## Texts one after the other -/

namespace Reader

variable {r : Reader}

@[simp] theorem read_nil (r : Reader) : r.read [] = r := rfl

@[simp] theorem read_cons (r : Reader) (c : Char) (text : List Char) :
    r.read (c :: text) = (r.step c).read text := rfl

@[simp] theorem read_append (r : Reader) (text more : List Char) :
    r.read (text ++ more) = (r.read text).read more :=
  List.foldl_append

/-! ## White space -/

theorem signOf_of_isBlank {c : Char} (h : Text.isBlank c = true) : signOf c = .blank := by
  rw [signOf, if_pos h]

theorem ne_of_isBlank {c d : Char} (h : Text.isBlank c = true) (hd : Text.isBlank d = false) :
    c ≠ d := by
  rintro rfl
  rw [h] at hd
  cases hd

theorem isAscii_of_isWordPart_of_isBlank {c : Char} (hword : isWordPart c = true)
    (hblank : Text.isBlank c = true) : Text.isAscii c = true := by
  simp only [isWordPart, hblank, Bool.not_true, Bool.and_false, Bool.or_false, Bool.or_eq_true,
    decide_eq_true_eq] at hword
  rcases hword with (hword | rfl) | rfl
  · exact Naming.isAscii_of_isAlphanum hword
  · rfl
  · rfl

theorem isWordPart_of_isBlank {c : Char} (h : Text.isBlank c = true) : isWordPart c = false := by
  by_contra hword
  rw [Bool.not_eq_false] at hword
  -- Of the ASCII characters none is both.
  have hnot := Naming.forall_ascii (p := fun c => !(isWordPart c && Text.isBlank c))
    (by decide +kernel) (isAscii_of_isWordPart_of_isBlank hword h)
  simp only [hword, h] at hnot
  cases hnot

theorem codeStep_of_isBlank {c : Char} (h : Text.isBlank c = true) (r : Reader) :
    r.codeStep c = r.endWord := by
  rw [codeStep, isWordPart_of_isBlank h, if_neg Bool.false_ne_true, signOf_of_isBlank h, sign]

theorem mode_endWord (r : Reader) : r.endWord.mode = r.mode := by
  unfold endWord
  split
  · rfl
  · split <;> rfl

theorem endWord_endWord (r : Reader) : r.endWord.endWord = r.endWord := by
  have hword : r.endWord.word = [] := by
    unfold endWord
    split
    · assumption
    · split <;> rfl
  rw [endWord, if_pos hword]

/-- White space in front of the end of a line does not count. -/
theorem endLine_step_of_isBlank {c : Char} (h : Text.isBlank c = true) (r : Reader) :
    (r.step c).endLine = r.endLine := by
  have hnewline : Text.isBlank '\n' = true := by decide
  have hstar : c ≠ '*' := ne_of_isBlank h (by decide)
  have hslash : c ≠ '/' := ne_of_isBlank h (by decide)
  have hbackslash : c ≠ '\\' := ne_of_isBlank h (by decide)
  have hquote : ∀ quote : Quote, c ≠ quote.char := by
    intro quote
    cases quote with
    | single => exact ne_of_isBlank h (by decide)
    | double => exact ne_of_isBlank h (by decide)
    | back => exact ne_of_isBlank h (by decide)
  have hcode : ∀ r : Reader, r.mode = .code → (r.codeStep c).step '\n' = r.codeStep '\n' := by
    intro r hr
    rw [codeStep_of_isBlank h, step, mode_endWord, hr]
    dsimp only
    rw [codeStep_of_isBlank hnewline, codeStep_of_isBlank hnewline, endWord_endWord]
  -- in code a blank ends a word, as the end of the line does; elsewhere it changes nothing
  unfold endLine
  obtain ⟨mode, depth, word, stage, names⟩ := r
  cases mode with
  | code => exact hcode _ rfl
  | slash =>
    have hleft : step ⟨.slash, depth, word, stage, names⟩ c =
        codeStep ⟨.code, depth, word, .nothing, names⟩ c := by
      simp [step, hstar, hslash]
    have hright : step ⟨.slash, depth, word, stage, names⟩ '\n' =
        codeStep ⟨.code, depth, word, .nothing, names⟩ '\n' := rfl
    rw [hleft, hright]
    exact hcode _ rfl
  | lineComment =>
    by_cases hline : c = '\n'
    · subst hline
      exact hcode ⟨.code, depth, word, stage, names⟩ rfl
    · simp [step, hline]
  | blockComment starred => simp [step, hslash, hstar]
  | quoted quote => 
    have hend : '\n' ≠ quote.char := by cases quote <;> decide
    simp [step, hbackslash, hquote, hend]
  | escaped quote =>
    have hend : '\n' ≠ quote.char := by cases quote <;> decide
    simp [step, hend]

/-- Only what stands in front of the white space at the end of a line counts. -/
theorem endLine_read_blanks {blanks : List Char} (h : ∀ c ∈ blanks, Text.isBlank c = true)
    (r : Reader) : (r.read blanks).endLine = r.endLine := by
  induction blanks generalizing r with
  | nil => rfl
  | cons c rest ih =>
    rw [List.forall_mem_cons] at h
    rw [read_cons, ih h.2, endLine_step_of_isBlank h.1]

theorem endLine_endLine (r : Reader) : r.endLine.endLine = r.endLine :=
  endLine_step_of_isBlank (by decide) r

/-! ## Clean format -/

theorem endLine_read_trimEnd (r : Reader) (line : Line) :
    (r.read (Text.trimEnd line)).endLine = (r.read line).endLine := by
  obtain ⟨dropped, heq, hblank⟩ := Text.dropEndWhile_append_dropped Text.isBlank line
  conv_rhs => rw [heq, read_append, endLine_read_blanks hblank]
  rfl

theorem endLines_append (ls more : List Line) :
    endLines (ls ++ more) = endLines ls ++ endLines more :=
  List.flatMap_append

theorem read_endLines_cons (r : Reader) (line : Line) (rest : List Line) :
    r.read (endLines (line :: rest)) = (r.read line).endLine.read (endLines rest) := by
  rw [endLines, List.flatMap_cons, read_append, read_append]
  rfl

/-- Lines are read like those of them that clean format leaves, from the beginning of a line. -/
theorem read_endLines_squeeze {r : Reader} (hr : r.endLine = r) (afterBlank : Bool)
    (ls : List Line) : r.read (endLines (squeeze afterBlank ls)) = r.read (endLines ls) := by
  induction ls generalizing r afterBlank with
  | nil => rfl
  | cons line rest ih =>
    have hline := endLine_read_trimEnd r line
    rw [squeeze, read_endLines_cons]
    split
    · next hblank =>
      rw [hblank, read_nil, hr] at hline
      rw [← hline]
      split
      · exact ih hr true
      · rw [read_endLines_cons, read_nil, hr]
        exact ih hr true
    · rw [read_endLines_cons, hline]
      exact ih (endLine_endLine _) false

theorem unlines_append_newline {ls : List Line} (h : ls ≠ []) :
    Text.unlines ls ++ ['\n'] = endLines ls := by
  induction ls with
  | nil => exact absurd rfl h
  | cons line rest ih =>
    by_cases hrest : rest = []
    · subst hrest
      simp [Text.unlines, Text.joinWith, endLines]
    · have hnext := ih hrest
      rw [Text.unlines] at hnext ⊢
      rw [Text.joinWith_cons line hrest, List.append_assoc, hnext]
      simp [endLines]

theorem endLine_read_unlines {r : Reader} (hr : r.endLine = r) (ls : List Line) :
    (r.read (Text.unlines ls)).endLine = r.read (endLines ls) := by
  by_cases hls : ls = []
  · subst hls
    exact hr
  · rw [← unlines_append_newline hls, read_append]
    rfl

theorem endLine_read_trimNewlines {r : Reader} (hr : r.endLine = r) (text : List Char) :
    (r.read (Text.trimNewlines text)).endLine = (r.read text).endLine := by
  have hnewline : ∀ c : Char, decide (c = '\n') = true → Text.isBlank c = true := by
    intro c hc
    rw [of_decide_eq_true hc]
    decide
  -- At the beginning of a line each line feed is read as nothing.
  have hfront : ∀ newlines : List Char, (∀ c ∈ newlines, decide (c = '\n') = true) →
      r.read newlines = r := by
    intro newlines hall
    induction newlines with
    | nil => rfl
    | cons c rest ih =>
      rw [List.forall_mem_cons] at hall
      rw [read_cons, of_decide_eq_true hall.1]
      exact (congrArg (·.read rest) hr).trans (ih hall.2)
  obtain ⟨dropped, heq, hdropped⟩ :=
    Text.dropEndWhile_append_dropped (fun c => decide (c = '\n')) (text.dropWhile (· = '\n'))
  have hback := endLine_read_blanks (fun c hc => hnewline c (hdropped c hc))
    (r.read (Text.trimNewlines text))
  have hskipped : r.read text = r.read (text.dropWhile (· = '\n')) := by
    conv_lhs => rw [← List.takeWhile_append_dropWhile (p := fun c => decide (c = '\n')) (l := text)]
    rw [read_append, hfront _ (List.all_eq_true.mp List.all_takeWhile)]
  rw [hskipped]
  conv_rhs => rw [heq, read_append]
  exact hback.symm

/-- A text in clean format is read like the text itself. -/
theorem read_formatChars {r : Reader} (hr : r.endLine = r) (code : List Char) :
    r.read (formatChars code) = (r.read code).endLine := by
  have hlines : Text.unlines (Text.lines code) = code := Text.joinWith_splitAt '\n' code
  calc r.read (formatChars code)
      = (r.read (Text.trimNewlines (Text.unlines (squeeze false (Text.lines code))))).endLine := by
        rw [formatChars, read_append]
        rfl
    _ = r.read (endLines (squeeze false (Text.lines code))) := by
        rw [endLine_read_trimNewlines hr, endLine_read_unlines hr]
    _ = (r.read code).endLine := by
        rw [read_endLines_squeeze hr, ← endLine_read_unlines hr, hlines]

end Reader

/-- Clean format does not change what is exported. -/
theorem topLevelExports_formatChars (code : List Char) :
    topLevelExports (String.ofList (formatChars code)) = (Reader.read {} code).endLine.names := by
  rw [topLevelExports, String.toList_ofList, Reader.read_formatChars rfl, Reader.endLine_endLine]

end SchemaTypings.Typescript
