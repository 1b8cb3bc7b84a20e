/-
  SchemaTypings.Proofs.Typescript.LineName

  The names that are found at the beginnings of lines.  White space at the ends of lines and clean
  format leave them as they are, and the sources of declarations have all their names among them.
-/
import SchemaTypings.Proofs.Typescript.Exported
import SchemaTypings.Section.Build
import Mathlib.Data.List.Flatten

namespace SchemaTypings.Typescript

open Reader (endLines_append read_append read_cons read_endLines_cons read_nil)

/-! ## Lines -/

/-- The names at the beginnings of the lines of a text. -/
def lineNames (text : List Char) : List String := (Text.lines text).filterMap exportedName?

theorem exportedNames_eq_lineNames (source : String) :
    exportedNames source = lineNames source.toList := rfl

theorem lineNames_append_newline (text rest : List Char) :
    lineNames (text ++ '\n' :: rest) = lineNames text ++ lineNames rest := by
  rw [lineNames, Text.lines, Text.splitAt_append_cons, List.filterMap_append]
  rfl

theorem lineNames_endLines (ls : List Line) : lineNames (endLines ls) = ls.flatMap lineNames := by
  induction ls with
  | nil => rfl
  | cons line rest ih =>
    have hfirst : endLines (line :: rest) = line ++ '\n' :: endLines rest := by
      simp [endLines]
    rw [hfirst, lineNames_append_newline, ih, List.flatMap_cons]

/-! ## What a line begins with -/

/-- The words that a line with a name begins with. -/
def exportStarts : List (List Char) :=
  ["export ", "export declare "].flatMap fun start =>
    declarationWords.map fun word => start.toList ++ word ++ [' ']

/-- Behind such words the name is what is left to find. -/
theorem exportedName?_append {start : List Char} (h : start ∈ exportStarts) (rest : List Char) :
    exportedName? (start ++ rest) = leadingName? rest := by
  simp only [exportStarts, declarationWords, List.flatMap_cons, List.flatMap_nil, List.map_cons,
    List.map_nil, List.append_nil, List.mem_append, List.mem_cons, List.not_mem_nil,
    or_false] at h
  rcases h with (h | h | h | h | h | h | h) | (h | h | h | h | h | h | h)
  all_goals
    subst h
    rfl

theorem exportedName?_eq_some_iff {line : Line} {name : String} :
    exportedName? line = some name ↔
      ∃ start ∈ exportStarts, ∃ rest, line = start ++ rest ∧ leadingName? rest = some name := by
  constructor
  · intro h
    simp only [exportedName?, Option.bind_eq_bind, Option.bind_eq_some_iff] at h
    obtain ⟨behind, hexport, rest, hword, hname⟩ := h
    obtain ⟨word, hmem, hrest⟩ := List.exists_of_findSome?_eq_some hword
    have hline := eq_append_of_dropStart?_eq_some hexport
    have hkind := eq_append_of_dropStart?_eq_some hrest
    cases hdeclare : dropStart? "declare ".toList behind with
    | none =>
      rw [hdeclare, Option.getD_none] at hkind
      refine ⟨"export ".toList ++ word ++ [' '], ?_, rest, ?_, hname⟩
      · simp [exportStarts, hmem]
      · rw [hline, hkind]
        simp
    | some more =>
      rw [hdeclare, Option.getD_some] at hkind
      have hbehind := eq_append_of_dropStart?_eq_some hdeclare
      refine ⟨"export declare ".toList ++ word ++ [' '], ?_, rest, ?_, hname⟩
      · simp [exportStarts, hmem]
      · rw [hline, hbehind, hkind]
        simp
  · rintro ⟨start, hstart, rest, rfl, hname⟩
    rw [exportedName?_append hstart, hname]

/-- A line has a name only if it begins with the word for what is exported. -/
theorem exportedName?_eq_none {line : Line} (h : ¬"export ".toList <+: line) :
    exportedName? line = none := by
  have hdrop : dropStart? "export ".toList line = none := by
    rw [dropStart?, if_neg (mt List.isPrefixOf_iff_prefix.mp h)]
  rw [exportedName?, hdrop]
  rfl

/-! ## White space and clean format -/

/-- White space is no part of a name. -/
theorem isNamePart_of_isBlank {c : Char} (h : Text.isBlank c = true) :
    isNamePart c = false ∧ Naming.isIdentifierStart c = false := by
  have hcodes : ∀ n ∈ List.range' 9 5 ++ List.range' 28 5 ++ List.range' 0x2000 11 ++
      [0x85, 0xA0, 0x1680, 0x2028, 0x2029, 0x202F, 0x205F, 0x3000],
      isNamePart (Char.ofNat n) = false ∧ Naming.isIdentifierStart (Char.ofNat n) = false := by
    decide +kernel
  have hcode := hcodes c.toNat
  simp only [Text.isBlank, Bool.or_eq_true, Bool.and_eq_true, decide_eq_true_eq] at h
  simp only [List.mem_append, List.mem_range'_1, List.mem_cons, List.not_mem_nil, or_false,
    Char.ofNat_toNat] at hcode
  exact hcode (by omega)

/-- White space behind a name is not looked at. -/
theorem leadingName?_append_blanks {blanks : List Char} (h : ∀ c ∈ blanks, Text.isBlank c = true)
    (rest : List Char) : leadingName? (rest ++ blanks) = leadingName? rest := by
  cases rest with
  | nil =>
    cases blanks with
    | nil => rfl
    | cons c more =>
      have hc := (isNamePart_of_isBlank (h c List.mem_cons_self)).2
      rw [List.nil_append, leadingName?, hc, if_neg Bool.false_ne_true, leadingName?]
  | cons c more =>
    have htake : (more ++ blanks).takeWhile isNamePart = more.takeWhile isNamePart := by
      induction more with
      | nil =>
        cases blanks with
        | nil => rfl
        | cons d later =>
          have hd := (isNamePart_of_isBlank (h d List.mem_cons_self)).1
          rw [List.nil_append, List.takeWhile_cons_of_neg (by rw [hd]; exact Bool.false_ne_true),
            List.takeWhile_nil]
      | cons d later ih =>
        rw [List.cons_append, List.takeWhile_cons, List.takeWhile_cons, ih]
    rw [List.cons_append, leadingName?, leadingName?, htake]

/-- White space at the end of a line is not looked at. -/
theorem exportedName?_append_blanks {blanks : List Char} (h : ∀ c ∈ blanks, Text.isBlank c = true)
    (line : Line) : exportedName? (line ++ blanks) = exportedName? line := by
  ext name
  rw [exportedName?_eq_some_iff, exportedName?_eq_some_iff]
  constructor
  · rintro ⟨start, hstart, rest, heq, hname⟩
    rcases List.append_eq_append_iff.mp heq with ⟨more, -, rfl⟩ | ⟨more, rfl, rfl⟩
    · -- The name would be white space.
      have hrest : ∀ c ∈ rest, Text.isBlank c = true := fun c hc =>
        h c (List.mem_append_right _ hc)
      have hnone := leadingName?_append_blanks hrest []
      rw [List.nil_append, hname] at hnone
      cases hnone
    · exact ⟨start, hstart, more, rfl, (leadingName?_append_blanks h more).symm.trans hname⟩
  · rintro ⟨start, hstart, rest, rfl, hname⟩
    exact ⟨start, hstart, rest ++ blanks, List.append_assoc _ _ _,
      (leadingName?_append_blanks h rest).trans hname⟩

theorem lineNames_append_blanks {blanks : List Char} (h : ∀ c ∈ blanks, Text.isBlank c = true)
    (text : List Char) : lineNames (text ++ blanks) = lineNames text := by
  induction blanks generalizing text with
  | nil => rw [List.append_nil]
  | cons c rest ih =>
    rw [List.forall_mem_cons] at h
    by_cases hc : c = '\n'
    · have hrest : lineNames rest = [] := ih h.2 []
      rw [hc, lineNames_append_newline, hrest, List.append_nil]
    · have hlast : lineNames (text ++ [c]) = lineNames text := by
        have hfree : '\n' ∉ [c] := by simpa using Ne.symm hc
        obtain ⟨front, last, htext, hmore⟩ := Text.exists_splitAt_append text
        have hname := exportedName?_append_blanks (List.forall_mem_singleton.mpr h.1) last
        rw [lineNames, lineNames, Text.lines, Text.lines, htext,
          hmore (Text.splitAt_of_not_mem hfree), List.filterMap_append, List.filterMap_append,
          List.filterMap_cons, List.filterMap_cons, hname]
      rw [List.append_cons, ih h.2, hlast]

theorem lineNames_trimEnd (text : List Char) : lineNames (Text.trimEnd text) = lineNames text := by
  obtain ⟨dropped, heq, hblank⟩ := Text.dropEndWhile_append_dropped Text.isBlank text
  have hnames := lineNames_append_blanks hblank (Text.trimEnd text)
  rw [Text.trimEnd, ← heq] at hnames
  exact hnames.symm

/-- Line feeds at the ends of a text are no lines with names. -/
theorem lineNames_trimNewlines (text : List Char) :
    lineNames (Text.trimNewlines text) = lineNames text := by
  have hfront : lineNames (text.dropWhile (· = '\n')) = lineNames text := by
    induction text with
    | nil => rfl
    | cons c rest ih =>
      by_cases hc : c = '\n'
      · subst hc
        have hrest := lineNames_append_newline [] rest
        rw [List.dropWhile_cons_of_pos (by decide), ih]
        exact hrest.symm
      · rw [List.dropWhile_cons_of_neg (by simpa using hc)]
  obtain ⟨dropped, heq, hdropped⟩ :=
    Text.dropEndWhile_append_dropped (fun c => decide (c = '\n')) (text.dropWhile (· = '\n'))
  have hblank : ∀ c ∈ dropped, Text.isBlank c = true := by
    intro c hc
    rw [of_decide_eq_true (hdropped c hc)]
    decide
  rw [← hfront, heq, lineNames_append_blanks hblank]
  rfl

theorem lineNames_unlines (ls : List Line) : lineNames (Text.unlines ls) = ls.flatMap lineNames := by
  by_cases hls : ls = []
  · subst hls
    rfl
  · rw [← lineNames_endLines, ← Reader.unlines_append_newline hls, lineNames_append_newline]
    exact (List.append_nil _).symm

theorem flatMap_lineNames_squeeze (afterBlank : Bool) (ls : List Line) :
    (squeeze afterBlank ls).flatMap lineNames = ls.flatMap lineNames := by
  induction ls generalizing afterBlank with
  | nil => rfl
  | cons line rest ih =>
    have hline := lineNames_trimEnd line
    rw [squeeze, List.flatMap_cons, ← hline]
    split
    · next hblank =>
      have hnone : lineNames [] = [] := rfl
      rw [hblank, hnone, List.nil_append]
      split
      · exact ih true
      · rw [List.flatMap_cons, hnone, List.nil_append, ih true]
    · rw [List.flatMap_cons, ih false]

/-- Clean format leaves the names at the beginnings of lines as they are. -/
theorem lineNames_formatChars (code : List Char) : lineNames (formatChars code) = lineNames code := by
  have hend := lineNames_append_newline
    (Text.trimNewlines (Text.unlines (squeeze false (Text.lines code)))) []
  have hcode : Text.unlines (Text.lines code) = code := Text.joinWith_splitAt '\n' code
  rw [formatChars, hend, lineNames_trimNewlines, lineNames_unlines, flatMap_lineNames_squeeze,
    ← lineNames_unlines, hcode]
  exact List.append_nil _

/-! ## Names behind the words that introduce them -/

/-- A name that is found where a line begins with its declaration. -/
structure IsLineName (name : List Char) : Prop where
  ne_nil : name ≠ []
  isIdentifierStart : ∀ c ∈ name.head?, Naming.isIdentifierStart c = true
  isNamePart : ∀ c ∈ name, isNamePart c = true
  newline_not_mem : '\n' ∉ name

theorem leadingName?_append {name : List Char} (h : IsLineName name) (rest : List Char) :
    leadingName? (name ++ ' ' :: rest) = some (String.ofList name) := by
  obtain ⟨c, cs, rfl⟩ := List.exists_cons_of_ne_nil h.ne_nil
  have hparts := h.isNamePart
  rw [List.forall_mem_cons] at hparts
  have htake : (cs ++ ' ' :: rest).takeWhile isNamePart = cs := by
    rw [List.takeWhile_append_of_pos hparts.2, List.takeWhile_cons_of_neg (by decide),
      List.append_nil]
  rw [List.cons_append, leadingName?, if_pos (h.isIdentifierStart c rfl), htake]

/-- A line that begins with a declaration has its name. -/
theorem exportedName?_declared {kind name : List Char} (hkind : kind ∈ kindWords)
    (hname : IsLineName name) (rest : List Char) :
    exportedName? ("export ".toList ++ (kind ++ [' ']) ++ (name ++ [' ']) ++ rest) =
      some (String.ofList name) := by
  have hstarts : ∀ kind ∈ kindWords, "export ".toList ++ (kind ++ [' ']) ∈ exportStarts := by decide
  have htext : "export ".toList ++ (kind ++ [' ']) ++ (name ++ [' ']) ++ rest =
      "export ".toList ++ (kind ++ [' ']) ++ (name ++ ' ' :: rest) := by simp
  rw [htext, exportedName?_append (hstarts kind hkind), leadingName?_append hname]

/-- A text that begins with a declaration has its name among those at the beginnings of lines. -/
theorem sublist_lineNames_declared {kind name : List Char} (hkind : kind ∈ kindWords)
    (hname : IsLineName name) (rest : List Char) :
    [String.ofList name].Sublist
      (lineNames ("export ".toList ++ (kind ++ [' ']) ++ (name ++ [' ']) ++ rest)) := by
  have hkinds : ∀ kind ∈ kindWords, '\n' ∉ kind := by decide
  have hfront : '\n' ∉ "export ".toList ++ (kind ++ [' ']) ++ (name ++ [' ']) := by
    simp [hkinds kind hkind, hname.newline_not_mem]
  obtain ⟨piece, pieces, hpieces⟩ := List.exists_cons_of_ne_nil (Text.splitAt_ne_nil '\n' rest)
  rw [lineNames, Text.lines, Text.splitAt_append_of_not_mem hfront hpieces, List.filterMap_cons,
    exportedName?_declared hkind hname]
  exact List.singleton_sublist.mpr List.mem_cons_self

/-! ## Sources -/

/-- Whether a source, read from the beginning of a line, exports some names, all of which are at the
beginnings of its lines. -/
structure Declares (source : List Char) (names : List String) : Prop where
  read : ∀ before, ((settled 0 before).read source).endLine = settled 0 (before ++ names)
  sublist : names.Sublist (lineNames source)

theorem endLine_settled (depth : Nat) (names : List String) :
    (settled depth names).endLine = settled depth names := rfl

/-- The lines of a declaration are its documentation and what begins with its name. -/
theorem DeclarationText.exists_lines (d : DeclarationText) (indent : Line) :
    ∃ kind ∈ kindWords, ∃ rest tail, d.lines indent = docBlock d.doc ++
      ("export ".toList ++ (kind ++ [' ']) ++ (d.name ++ [' ']) ++ rest) :: tail := by
  obtain ⟨doc, name, form⟩ := d
  have hobject : ∀ (head : Line) properties index?, ∃ rest tail,
      objectLines head indent properties index? = (head ++ rest) :: tail := by
    intro head properties index?
    rw [objectLines]
    split
    · exact ⟨_, _, rfl⟩
    · exact ⟨_, _, by rw [List.append_assoc, List.cons_append]⟩
  -- all three forms begin with the keyword and the name
  rcases form with ⟨properties, index?⟩ | ⟨properties, index?⟩ | type
  · obtain ⟨rest, tail, hlines⟩ :=
      hobject ("export interface ".toList ++ name ++ [' ']) properties index?
    refine ⟨"interface".toList, by decide, rest, tail, ?_⟩
    show docBlock doc ++
      objectLines ("export interface ".toList ++ name ++ [' ']) indent properties index? = _
    rw [hlines]
    simp
  · obtain ⟨rest, tail, hlines⟩ :=
      hobject ("export type ".toList ++ name ++ " = ".toList) properties index?
    refine ⟨"type".toList, by decide, '=' :: ' ' :: rest, tail, ?_⟩
    show docBlock doc ++
      objectLines ("export type ".toList ++ name ++ " = ".toList) indent properties index? = _
    rw [hlines]
    simp
  · exact ⟨"type".toList, by decide, '=' :: ' ' :: type, [], by simp [DeclarationText.lines]⟩

theorem DeclarationText.sublist_lineNames {d : DeclarationText} (hname : IsLineName d.name)
    (indent : Line) : [String.ofList d.name].Sublist (lineNames (endLines (d.lines indent))) := by
  obtain ⟨kind, hkind, rest, tail, hlines⟩ := d.exists_lines indent
  rw [hlines, lineNames_endLines, List.flatMap_append, List.flatMap_cons]
  have hfirst := sublist_lineNames_declared hkind hname rest
  exact (hfirst.trans (List.sublist_append_left _ _)).trans (List.sublist_append_right _ _)

/-- The source of declarations declares their names. -/
theorem declares_declarationSource {indent : Line} (hindent : ∀ c ∈ indent, c = ' ')
    {ds : List DeclarationText} (hds : ∀ d ∈ ds, d.IsProper ∧ IsLineName d.name) :
    Declares (declarationSource indent ds) (ds.map fun d => String.ofList d.name) where
  read before := by
    rw [read_declarationSource hindent fun d hd => (hds d hd).1]
    rfl
  sublist := by
    rw [declarationSource]
    fun_induction declarationLines indent ds with
    | case1 => simp
    | case2 d => exact DeclarationText.sublist_lineNames (hds d List.mem_cons_self).2 indent
    | case3 d next rest ih =>
      rw [List.forall_mem_cons] at hds
      have hfirst := DeclarationText.sublist_lineNames hds.1.2 indent
      rw [lineNames_endLines] at hfirst
      have hrest := ih hds.2
      rw [lineNames_endLines] at hrest
      rw [lineNames_endLines, List.flatMap_append, List.flatMap_cons, List.map_cons (a := d)]
      exact hfirst.append hrest

theorem Declares.trimNewlines {source : List Char} {names : List String}
    (h : Declares source names) : Declares (Text.trimNewlines source) names where
  read before := by
    rw [Reader.endLine_read_trimNewlines (endLine_settled 0 before), h.read]
  sublist := by
    rw [lineNames_trimNewlines]
    exact h.sublist

/-- Sources on lines of their own declare the names of both. -/
theorem Declares.append_newline {source more : List Char} {names moreNames : List String}
    (h : Declares source names) (hmore : Declares more moreNames) :
    Declares (source ++ '\n' :: more) (names ++ moreNames) where
  read before := by
    have hread := hmore.read (before ++ names)
    rw [← h.read before, List.append_assoc] at hread
    rw [Reader.read_append]
    exact hread
  sublist := by
    rw [lineNames_append_newline]
    exact h.sublist.append hmore.sublist

theorem declares_nil : Declares [] [] where
  read before := by rw [List.append_nil]; rfl
  sublist := List.nil_sublist _

/-- Joined sources declare the names of all of them. -/
theorem declares_joinSources {sources : List (String × List String)}
    (h : ∀ s ∈ sources, Declares s.1.toList s.2) :
    Declares (Toolkit.joinSources (sources.map Prod.fst)).toList (sources.flatMap Prod.snd) := by
  rw [Toolkit.joinSources, String.toList_ofList, List.map_map]
  induction sources with
  | nil => exact declares_nil
  | cons first rest ih =>
    rw [List.forall_mem_cons] at h
    cases rest with
    | nil => simpa [Text.joinWith] using h.1.trimNewlines
    | cons next more => 
      have hall := h.1.trimNewlines.append_newline (declares_nil.append_newline (ih h.2))
      rw [List.map_cons, Text.joinWith_cons _ (by simp), List.append_assoc, List.flatMap_cons]
      exact hall

end SchemaTypings.Typescript
