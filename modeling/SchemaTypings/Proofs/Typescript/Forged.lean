/-
  SchemaTypings.Proofs.Typescript.Forged

  Names at the beginnings of lines that stand inside comments, and of lines of properties.  A line of
  a comment stands behind its mark, so that only a line feed inside a text gets a name of that text
  to the beginning of a line.  The lines of properties have no names.
-/
import SchemaTypings.Proofs.Typescript.LineName
import SchemaTypings.Proofs.Typescript.OneLine

namespace SchemaTypings.Typescript

/-! ## Lines behind the first -/

/-- The names at the beginnings of the lines of a text, its first line apart. -/
def forgedNames (text : List Char) : List String := (Text.lines text).tail.filterMap exportedName?

section
variable {c : Char} {text : List Char}

theorem forgedNames_of_not_mem (h : '\n' ∉ text) : forgedNames text = [] := by
  rw [forgedNames, Text.lines, Text.splitAt_of_not_mem h]
  rfl

theorem forgedNames_append {front : List Char} (h : '\n' ∉ front) (text : List Char) :
    forgedNames (front ++ text) = forgedNames text := by
  obtain ⟨piece, pieces, hpieces⟩ := List.exists_cons_of_ne_nil (Text.splitAt_ne_nil '\n' text)
  rw [forgedNames, forgedNames, Text.lines, Text.lines,
    Text.splitAt_append_of_not_mem h hpieces, hpieces]
  rfl

theorem lineNames_of_not_mem (h : '\n' ∉ text) : lineNames text = (exportedName? text).toList := by
  rw [lineNames, Text.lines, Text.splitAt_of_not_mem h]
  cases hname : exportedName? text with
  | none =>
    rw [List.filterMap_cons, hname]
    rfl
  | some name =>
    rw [List.filterMap_cons, hname]
    rfl

/-- Behind a character that no export begins with, the first line of a text has no name. -/
theorem lineNames_cons (hc : c ≠ 'e' ∧ c ≠ '\n') (text : List Char) :
    lineNames (c :: text) = forgedNames text := by
  obtain ⟨piece, pieces, hpieces⟩ := List.exists_cons_of_ne_nil (Text.splitAt_ne_nil '\n' text)
  have hnone : exportedName? (c :: piece) = none := by
    refine exportedName?_eq_none fun hexport => ?_
    exact hc.1 (List.cons_prefix_cons.mp hexport).1.symm
  rw [forgedNames, lineNames, Text.lines, Text.lines, Text.splitAt_cons_of_ne hc.2 hpieces,
    hpieces, List.filterMap_cons, hnone]
  rfl

/-- The same behind an indent. -/
theorem lineNames_indented {indent : Line} (hindent : ∀ c ∈ indent, c = ' ')
    (hc : c ≠ 'e' ∧ c ≠ '\n') (text : List Char) :
    lineNames (indent ++ c :: text) = forgedNames text := by
  cases indent with
  | nil => exact lineNames_cons hc text
  | cons d rest =>
    have hfront : '\n' ∉ rest ++ [c] := by
      simp only [List.mem_append, List.mem_singleton, not_or]
      refine ⟨fun hmem => ?_, Ne.symm hc.2⟩
      cases hindent _ (List.mem_cons_of_mem _ hmem)
    rw [hindent d List.mem_cons_self, List.cons_append, lineNames_cons (by decide),
      List.append_cons, forgedNames_append hfront]

end

/-! ## Comments -/

theorem leadingName?_breakCommentEnds (text : List Char) :
    leadingName? (breakCommentEnds text) = leadingName? text := by
  have htake : ∀ text : List Char,
      (breakCommentEnds text).takeWhile isNamePart = text.takeWhile isNamePart := by
    intro text
    fun_induction breakCommentEnds text with
    | case1 rest _ => rfl
    | case2 c rest _ ih => rw [List.takeWhile_cons, List.takeWhile_cons, ih]
    | case3 => rfl
  fun_cases breakCommentEnds text with
  | case1 rest => rfl
  | case2 c rest _ => rw [leadingName?, leadingName?, htake]
  | case3 => rfl

theorem breakCommentEnds_append {front : List Char} (h : '*' ∉ front) (text : List Char) :
    breakCommentEnds (front ++ text) = front ++ breakCommentEnds text := by
  induction front with
  | nil => rfl
  | cons c rest ih =>
    rw [List.mem_cons, not_or] at h
    rw [List.cons_append, breakCommentEnds.eq_2 _ _ fun _ hc => absurd hc.symm h.1, ih h.2]
    rfl

theorem exists_of_breakCommentEnds_eq_append {front text rest : List Char} (h : '*' ∉ front)
    (heq : breakCommentEnds text = front ++ rest) :
    ∃ more, text = front ++ more ∧ rest = breakCommentEnds more := by
  induction front generalizing text with
  | nil => exact ⟨text, rfl, heq.symm⟩
  | cons c front ih =>
    rw [List.mem_cons, not_or] at h
    fun_cases breakCommentEnds text with
    | case1 later =>
      rw [breakCommentEnds] at heq
      exact absurd (List.cons.inj heq).1 h.1
    | case2 d later hnot =>
      rw [breakCommentEnds.eq_2 _ _ hnot, List.cons_append] at heq
      obtain ⟨rfl, hlater⟩ := List.cons.inj heq
      obtain ⟨more, rfl, hrest⟩ := ih h.2 hlater
      exact ⟨more, rfl, hrest⟩
    | case3 => cases heq

/-- Breaking comment ends changes no name, for none is looked for behind an asterisk. -/
theorem exportedName?_breakCommentEnds (line : Line) :
    exportedName? (breakCommentEnds line) = exportedName? line := by
  have hstarts : ∀ start ∈ exportStarts, '*' ∉ start := by decide
  ext name
  rw [exportedName?_eq_some_iff, exportedName?_eq_some_iff]
  constructor
  · rintro ⟨start, hstart, rest, heq, hname⟩
    obtain ⟨more, rfl, rfl⟩ := exists_of_breakCommentEnds_eq_append (hstarts start hstart) heq
    exact ⟨start, hstart, more, rfl, (leadingName?_breakCommentEnds more).symm.trans hname⟩
  · rintro ⟨start, hstart, rest, rfl, hname⟩
    exact ⟨start, hstart, _, breakCommentEnds_append (hstarts start hstart) rest,
      (leadingName?_breakCommentEnds rest).trans hname⟩

theorem lines_breakCommentEnds (text : List Char) :
    Text.lines (breakCommentEnds text) = (Text.lines text).map breakCommentEnds := by
  unfold Text.lines
  fun_induction breakCommentEnds text with
  | case1 rest ih =>
    obtain ⟨piece, pieces, hpieces⟩ := List.exists_cons_of_ne_nil (Text.splitAt_ne_nil '\n' rest)
    have hfrees : '\n' ∉ ['*', '\\', '/'] ∧ '\n' ∉ ['*', '/'] := by decide
    have hbroken := Text.splitAt_append_of_not_mem hfrees.1 (ih.trans (congrArg _ hpieces))
    have hplain := Text.splitAt_append_of_not_mem hfrees.2 hpieces
    exact hbroken.trans (congrArg (List.map breakCommentEnds) hplain).symm
  | case2 c rest hnot ih =>
    obtain ⟨piece, pieces, hpieces⟩ := List.exists_cons_of_ne_nil (Text.splitAt_ne_nil '\n' rest)
    by_cases hc : c = '\n'
    · subst hc
      rw [Text.splitAt_sep_cons, Text.splitAt_sep_cons, ih]
      rfl
    · -- A slash at the head of the first line would be one behind the character itself.
      have hpiece : ∀ later, c = '*' → piece = '/' :: later → False := by
        rintro later hstar rfl
        have hrest := Text.joinWith_splitAt '\n' rest
        rw [hpieces] at hrest
        cases pieces with
        | nil => exact hnot _ hstar hrest.symm
        | cons next more => exact hnot _ hstar hrest.symm
      rw [Text.splitAt_cons_of_ne hc (ih.trans (congrArg _ hpieces)),
        Text.splitAt_cons_of_ne hc hpieces, List.map_cons, breakCommentEnds.eq_2 _ _ hpiece]
  | case3 => rfl

/-- A comment line has the names of its text. -/
theorem forgedNames_commentLine (text : List Char) :
    forgedNames (commentLine text) = forgedNames text := by
  have hspace : ' ' ≠ 'e' ∧ ' ' ≠ '\n' := by decide
  obtain ⟨dropped, heq, hblank⟩ :=
    Text.dropEndWhile_append_dropped Text.isBlank (breakCommentEnds text)
  have htrim : forgedNames (commentLine text) = forgedNames (breakCommentEnds text) := by
    have hnames := lineNames_append_blanks hblank (' ' :: commentLine text)
    rw [commentLine, Text.trimEnd, List.cons_append, ← heq, lineNames_cons hspace,
      lineNames_cons hspace] at hnames
    exact hnames.symm
  rw [htrim, forgedNames, lines_breakCommentEnds, ← List.map_tail, List.filterMap_map, forgedNames]
  exact List.filterMap_congr fun line _ => exportedName?_breakCommentEnds line

/-- A documentation block has the names of its lines. -/
theorem flatMap_lineNames_docBlock {indent : Line} (hindent : ∀ c ∈ indent, c = ' ')
    (doc : List Line) :
    ((docBlock doc).map (indent ++ ·)).flatMap lineNames = doc.flatMap forgedNames := by
  have hopen : lineNames (indent ++ ['/', '*', '*']) = [] := lineNames_indented hindent (by decide) _
  have hclose : lineNames (indent ++ [' ', '*', '/']) = [] :=
    lineNames_indented hindent (by decide) _
  have hline : ∀ line, lineNames (indent ++ blockLine line) = forgedNames line := by
    intro line
    rw [blockLine]
    split
    · next hnil =>
      rw [hnil]
      exact lineNames_indented hindent (by decide) _
    · have hmark : '\n' ∉ ['*', ' '] := by decide
      rw [lineNames_indented hindent (by decide)]
      exact forgedNames_append hmark line
  rw [docBlock]
  split
  · next hnil =>
    rw [hnil]
    rfl
  · have hlines := List.flatMap_congr fun line (_ : line ∈ doc) => hline line
    simp only [List.cons_append, List.map_cons, List.map_append, List.map_map, List.map_nil,
      List.flatMap_cons, List.flatMap_append, List.flatMap_map, List.flatMap_nil, hopen, hclose,
      Function.comp_apply, List.append_nil, List.nil_append]
    exact hlines

/-! ## Properties -/

/-- Whether a property is written with the key of a name and a type on one line. -/
structure PropertyText.IsOnLine (p : PropertyText) : Prop where
  key : ∃ name, p.key = (Naming.propertyKey name).toList
  type : '\n' ∉ p.type

/-- A word before a character that is not in what an export begins with is no export. -/
theorem exportedName?_word {word more : List Char} (hword : ' ' ∉ word)
    (hmore : ∀ c ∈ more.head?, c ∉ "export ".toList) : exportedName? (word ++ more) = none := by
  refine exportedName?_eq_none fun hexport => ?_
  obtain ⟨rest, heq⟩ := hexport
  rcases List.append_eq_append_iff.mp heq with ⟨front, rfl, -⟩ | ⟨back, hback, rfl⟩
  · exact hword (List.mem_append_left _ (by decide))
  · cases back with
    | nil =>
      rw [List.append_nil] at hback
      exact hword (hback ▸ by decide)
    | cons c back =>
      have hmem : c ∈ "export ".toList := by
        rw [hback]
        simp
      exact hmore c rfl hmem

/-- An indented word before such a character has no name. -/
theorem lineNames_indented_word {indent word more : Line} (hindent : ∀ c ∈ indent, c = ' ')
    (hword : ∀ c ∈ word, Naming.isIdentifierPart c = true) (hnewline : '\n' ∉ more)
    (hmore : ∀ c ∈ more.head?, c ∉ "export ".toList) : lineNames (indent ++ word ++ more) = [] := by
  have hout : ∀ c, Naming.isIdentifierPart c = false → c ∉ word := by
    intro c hc hmem
    rw [hword c hmem] at hc
    cases hc
  cases indent with
  | nil =>
    have hline : '\n' ∉ word ++ more := by
      simp [hout '\n' (by decide), hnewline]
    have hnone := exportedName?_word (hout ' ' (by decide)) hmore
    rw [List.nil_append, lineNames_of_not_mem hline, hnone]
    rfl
  | cons c rest =>
    have hspaces : '\n' ∉ rest := fun hmem => by
      cases hindent _ (List.mem_cons_of_mem _ hmem)
    rw [hindent c List.mem_cons_self, List.cons_append, List.cons_append,
      lineNames_cons (by decide)]
    refine forgedNames_of_not_mem ?_
    simp [hspaces, hout '\n' (by decide), hnewline]

/-- The line of a property has no name. -/
theorem PropertyText.IsOnLine.lineNames_eq_nil {p : PropertyText} (h : p.IsOnLine) {indent : Line}
    (hindent : ∀ c ∈ indent, c = ' ') :
    lineNames (indent ++ p.key ++ (if p.optional then ['?'] else []) ++ ':' :: ' ' :: p.type) =
      [] := by
  obtain ⟨⟨name, hkey⟩, htype⟩ := h
  -- behind the key stands `?` or `:`, which ends whatever the key was about to spell
  have hrest : ∃ c more, (if p.optional then ['?'] else []) ++ ':' :: ' ' :: p.type = c :: more ∧
      (c ≠ 'e' ∧ c ≠ '\n') ∧ c ∉ "export ".toList ∧ '\n' ∉ more := by
    split
    · exact ⟨'?', _, rfl, by decide, by decide, by simp [htype]⟩
    · exact ⟨':', _, rfl, by decide, by decide, by simp [htype]⟩
  obtain ⟨c, more, hrest, hc, hexport, hmore⟩ := hrest
  have hhead : ∀ d ∈ (c :: more).head?, d ∉ "export ".toList := by
    rintro d hd
    cases hd
    exact hexport
  have hline : '\n' ∉ c :: more := by
    simp [hmore, Ne.symm hc.2]
  rw [List.append_assoc, hrest, hkey]
  rcases propertyKey_cases name with ⟨word, hword, heq | heq⟩ | ⟨text, htext, heq⟩
  · rw [heq]
    exact lineNames_indented_word hindent hword hline hhead
  · -- The line feed that is let through cuts the line behind the word.
    have hfront : lineNames (indent ++ word) = [] := by
      have hnone := lineNames_indented_word hindent hword List.not_mem_nil (by simp)
      rwa [List.append_nil] at hnone
    have hback := lineNames_cons hc more
    rw [forgedNames_of_not_mem hmore] at hback
    rw [heq, List.append_assoc, List.append_assoc, ← List.append_assoc, List.singleton_append,
      lineNames_append_newline, hfront, hback]
    rfl
  · have hquoted : '\n' ∉ text ++ c :: more := by
      simp only [List.mem_append, htext, hline, or_self, not_false_eq_true]
    rw [heq, List.append_assoc, List.cons_append, lineNames_indented hindent (by decide)]
    exact forgedNames_of_not_mem hquoted

theorem PropertyText.IsOnLine.flatMap_lineNames {p : PropertyText} (h : p.IsOnLine) {indent : Line}
    (hindent : ∀ c ∈ indent, c = ' ') :
    (p.lines indent).flatMap lineNames = p.doc.flatMap forgedNames := by
  rw [PropertyText.lines, List.flatMap_append, flatMap_lineNames_docBlock hindent,
    List.flatMap_singleton, h.lineNames_eq_nil hindent, List.append_nil]

end SchemaTypings.Typescript
