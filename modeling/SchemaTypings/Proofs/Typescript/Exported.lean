/-
  SchemaTypings.Proofs.Typescript.Exported

  What the text of declarations exports: their names, in order, and nothing from documentation, keys
  or types.  All of these names are found at the beginnings of lines as well.
-/
import SchemaTypings.Proofs.Typescript.Phrase
import SchemaTypings.Typescript.Exports

namespace SchemaTypings.Typescript

open Reader (endLines_append read_append read_cons read_endLines_cons read_nil)

/-! ## Comments -/

/-- Whether a text has a comment end in it. -/
def holdsCommentEnd : List Char → Bool
  | '*' :: '/' :: _ => true
  | _ :: rest => holdsCommentEnd rest
  | [] => false

theorem holdsCommentEnd_cons {c : Char} {text : List Char}
    (h : ¬(c = '*' ∧ text.head? = some '/')) :
    holdsCommentEnd (c :: text) = holdsCommentEnd text := by
  rw [holdsCommentEnd.eq_2]
  rintro rest rfl rfl
  exact h ⟨rfl, rfl⟩

theorem holdsCommentEnd_breakCommentEnds (text : List Char) :
    holdsCommentEnd (breakCommentEnds text) = false := by
  have hhead : ∀ text : List Char, (breakCommentEnds text).head? = text.head? := by
    intro text
    unfold breakCommentEnds
    split <;> rfl
  fun_induction breakCommentEnds text with
  | case1 rest ih =>
    rw [holdsCommentEnd_cons (by simp), holdsCommentEnd_cons (by simp),
      holdsCommentEnd_cons (by simp), ih]
  | case2 c rest hnot ih =>
    have hcons : ¬(c = '*' ∧ (breakCommentEnds rest).head? = some '/') := by
      rw [hhead]
      rintro ⟨rfl, hslash⟩
      obtain ⟨more, rfl⟩ := List.head?_eq_some_iff.mp hslash
      exact hnot more rfl rfl
    rw [holdsCommentEnd_cons hcons, ih]
  | case3 => rfl

theorem holdsCommentEnd_of_append {text more : List Char}
    (h : holdsCommentEnd (text ++ more) = false) : holdsCommentEnd text = false := by
  induction text with
  | nil => rfl
  | cons c rest ih =>
    have hcons : ¬(c = '*' ∧ (rest ++ more).head? = some '/') := by
      rintro ⟨rfl, hslash⟩
      obtain ⟨after, hafter⟩ := List.head?_eq_some_iff.mp hslash
      rw [List.cons_append, hafter] at h
      cases h
    rw [List.cons_append, holdsCommentEnd_cons hcons] at h
    rw [holdsCommentEnd_cons, ih h]
    rintro ⟨rfl, hslash⟩
    obtain ⟨after, rfl⟩ := List.head?_eq_some_iff.mp hslash
    exact hcons ⟨rfl, rfl⟩

/-- A line of a comment does not end it. -/
theorem holdsCommentEnd_commentLine (line : Line) : holdsCommentEnd (commentLine line) = false := by
  obtain ⟨dropped, heq, -⟩ :=
    Text.dropEndWhile_append_dropped Text.isBlank (breakCommentEnds line)
  have hall := holdsCommentEnd_breakCommentEnds line
  rw [heq] at hall
  exact holdsCommentEnd_of_append hall

theorem holdsCommentEnd_blockLine {line : Line} (h : holdsCommentEnd line = false) :
    holdsCommentEnd (blockLine line) = false := by
  rw [blockLine]
  split
  · rfl
  · rw [holdsCommentEnd_cons (by simp), holdsCommentEnd_cons (by simp),
      holdsCommentEnd_cons (by simp), h]

/-- A reader in a comment, at the beginning of a line. -/
def commenting (depth : Nat) (names : List String) : Reader :=
  { settled depth names with mode := .blockComment false }

/-- A text without a comment end is read as part of the comment. -/
theorem exists_read_comment {text : List Char} (h : holdsCommentEnd text = false) {starred : Bool}
    (hstart : starred = true → text.head? ≠ some '/') (r : Reader) :
    ∃ starred', Reader.read { r with mode := .blockComment starred } text =
      { r with mode := .blockComment starred' } := by
  induction text generalizing starred with
  | nil => exact ⟨starred, rfl⟩
  | cons c rest ih =>
    have hnot : ¬(c = '*' ∧ rest.head? = some '/') := by
      rintro ⟨rfl, hslash⟩
      obtain ⟨after, rfl⟩ := List.head?_eq_some_iff.mp hslash
      cases h
    have hclose : ¬(starred = true ∧ c = '/') := fun hboth => hstart hboth.1 (by simp [hboth.2])
    have hstep : Reader.step { r with mode := .blockComment starred } c =
        { r with mode := .blockComment (c = '*') } := by
      rw [Reader.step]
      dsimp only
      rw [if_neg hclose]
    rw [holdsCommentEnd_cons hnot] at h
    rw [read_cons, hstep]
    exact ih h fun hstar hslash => hnot ⟨of_decide_eq_true hstar, hslash⟩

section
variable {depth : Nat} {indent : Line}

theorem settles_newline : Settles depth ['\n'] :=
  settles_of_isPlainSign (List.all_eq_true.mp (by decide))

theorem settles_blanks (hindent : ∀ c ∈ indent, c = ' ') : Settles depth indent :=
  settles_of_isPlainSign fun c hc => by
    rw [hindent c hc]
    decide

theorem read_commenting_blanks (hindent : ∀ c ∈ indent, c = ' ') (names : List String) :
    (commenting depth names).read indent = commenting depth names := by
  induction indent with
  | nil => rfl
  | cons c rest ih =>
    rw [List.forall_mem_cons] at hindent
    rw [read_cons, hindent.1]
    exact ih hindent.2

/-- A line inside a documentation block is read as part of the comment. -/
theorem read_blockLine (hindent : ∀ c ∈ indent, c = ' ') {line : Line}
    (hline : holdsCommentEnd line = false) (names : List String) :
    ((commenting depth names).read (indent ++ blockLine line)).endLine =
      commenting depth names := by
  have hstart : false = true → (blockLine line).head? ≠ some '/' := fun h => by cases h
  obtain ⟨starred, hread⟩ :=
    exists_read_comment (holdsCommentEnd_blockLine hline) hstart (settled depth names)
  rw [read_append, read_commenting_blanks hindent, commenting, hread]
  cases starred with
  | _ => rfl

/-- A documentation block exports nothing. -/
theorem settles_docBlock (hindent : ∀ c ∈ indent, c = ' ') {doc : List Line}
    (hdoc : ∀ line ∈ doc, holdsCommentEnd line = false) :
    Settles depth (endLines ((docBlock doc).map (indent ++ ·))) := by
  intro names
  have hopen : ((settled depth names).read (indent ++ ['/', '*', '*'])).endLine =
      commenting depth names := by
    rw [read_append, settles_blanks hindent]
    rfl
  have hclose : ((commenting depth names).read (indent ++ [' ', '*', '/'])).endLine =
      settled depth names := by
    rw [read_append, read_commenting_blanks hindent]
    rfl
  have hlines : (commenting depth names).read (endLines ((doc.map blockLine).map (indent ++ ·))) =
      commenting depth names := by
    induction doc with
    | nil => rfl
    | cons line rest ih =>
      rw [List.forall_mem_cons] at hdoc
      rw [List.map_cons, List.map_cons, read_endLines_cons, read_blockLine hindent hdoc.1]
      exact ih hdoc.2
  rw [docBlock]
  split
  · rfl
  · rw [List.map_append, List.map_cons, List.map_singleton, endLines_append, read_append,
      read_endLines_cons (settled depth names), hopen, hlines, read_endLines_cons, hclose]
    rfl

/-! ## Properties -/

/-- Whether the texts of a property are such that it exports nothing: no line of its documentation
ends the comment, and its key and type are inert inside brackets. -/
structure PropertyText.IsInside (p : PropertyText) : Prop where
  doc : ∀ line ∈ p.doc, holdsCommentEnd line = false
  key : IsInert 1 p.key
  type : IsInert 1 p.type

theorem PropertyText.IsInside.settles {p : PropertyText} (h : p.IsInside)
    (hindent : ∀ c ∈ indent, c = ' ') : Settles 1 (endLines (p.lines indent)) := by
  have hoptional : Settles 1 (if p.optional then ['?'] else []) := by
    split
    · exact settles_of_isPlainSign (List.all_eq_true.mp (by decide))
    · exact settles_nil
  have htype : Settles 1 (':' :: ' ' :: p.type ++ ['\n']) :=
    settles_colon.append (h.type.append_settles (by decide) settles_newline)
  have hkey : Settles 1 (p.key ++ (if p.optional then ['?'] else []) ++
      ':' :: ' ' :: p.type ++ ['\n']) := by
    by_cases hmark : p.optional = true
    · simp only [hmark, if_true] at hoptional ⊢
      have hall := h.key.append_settles (by decide) (hoptional.append htype)
      simpa using hall
    · simp only [hmark, Bool.false_eq_true, if_false, List.append_nil]
      have hall := h.key.append_settles (by decide) htype
      simpa using hall
  have hline := (settles_blanks hindent).append hkey
  have hdoc : Settles 1 _ := settles_docBlock hindent h.doc
  rw [PropertyText.lines, endLines_append]
  refine hdoc.append ?_
  simpa [endLines] using hline

/-! ## Declarations -/

/-- The blank behind a word ends it. -/
theorem read_word_blank {word : List Char} (hword : ∀ c ∈ word, isWordPart c = true) {r : Reader}
    (hmode : r.mode = .code) (hr : r.word = []) :
    r.read (word ++ [' ']) = Reader.endWord { r with word } := by
  have hblank := (step_code (r := { r with word }) hmode ' ').trans
    (Reader.codeStep_of_isBlank (by decide) _)
  rw [read_append, read_word hword hmode, hr, List.nil_append, read_cons, read_nil, hblank]

/-- Behind `export` and a kind of declaration the name is to come. -/
theorem read_start {kind : List Char} (hkind : kind ∈ kindWords) (names : List String) :
    (settled 0 names).read ("export ".toList ++ (kind ++ [' '])) =
      { settled 0 names with stage := .kind } := by
  have hwords : ∀ word ∈ kindWords, word ≠ [] ∧ word.all isWordPart = true := by decide
  obtain ⟨hne, hparts⟩ := hwords kind hkind
  have hword : ∀ c ∈ "export".toList, isWordPart c = true := List.all_eq_true.mp (by decide)
  have hexport : (settled 0 names).read "export ".toList =
      { settled 0 names with stage := .exported } :=
    read_word_blank hword rfl rfl
  rw [read_append, hexport, read_word_blank (List.all_eq_true.mp hparts) rfl rfl]
  simp only [Reader.endWord, if_neg hne, if_pos hkind, settled]

/-- A declaration of one kind begins with its name behind the words that introduce it. -/
theorem read_declared {kind name : List Char} (hkind : kind ∈ kindWords) (hne : name ≠ [])
    (hname : ∀ c ∈ name, isWordPart c = true) (names : List String) :
    (settled 0 names).read ("export ".toList ++ (kind ++ [' ']) ++ (name ++ [' '])) =
      settled 0 (names ++ [String.ofList name]) := by
  rw [read_append, read_start hkind, read_word_blank hname rfl rfl]
  simp only [Reader.endWord, if_neg hne, settled]

/-- Whether the texts of a declaration are such that it exports its name alone. -/
structure DeclarationText.IsProper (d : DeclarationText) : Prop where
  ne_nil : d.name ≠ []
  isWordPart : ∀ c ∈ d.name, isWordPart c = true
  doc : ∀ line ∈ d.doc, holdsCommentEnd line = false
  form : match d.form with
    | .interface properties index? | .objectAlias properties index? =>
      (∀ p ∈ properties, p.IsInside) ∧ ∀ type ∈ index?, IsInert 1 type
    | .alias type => IsInert 0 type

/-- An object type behind its head closes what it opens. -/
theorem endLine_read_objectLines (hindent : ∀ c ∈ indent, c = ' ') {properties : List PropertyText}
    (hproperties : ∀ p ∈ properties, p.IsInside) {index? : Option Line}
    (hindex : ∀ type ∈ index?, IsInert 1 type) {head : Line} {names names' : List String}
    (hhead : (settled 0 names).read head = settled 0 names') :
    (settled 0 names).read (endLines (objectLines head indent properties index?)) =
      settled 0 names' := by
  have hopen : ((settled 0 names').read ['\x7b']).endLine = settled 1 names' := rfl
  have hclose : ((settled 1 names').read ['\x7d']).endLine = settled 0 names' := rfl
  have hbraces : ((settled 0 names').read ['\x7b', '\x7d']).endLine = settled 0 names' := rfl
  have hlines : Settles 1 (endLines (properties.flatMap (·.lines indent))) := by
    rw [endLines, List.flatMap_assoc]
    exact settles_flatMap fun p hp => (hproperties p hp).settles hindent
  have hlast : Settles 1 (endLines
      (index?.map fun type => indent ++ "[k: string]: ".toList ++ type).toList) := by
    cases index? with
    | none => exact settles_nil
    | some type =>
      have hkey : Settles 1 ('[' :: "k: string".toList ++ [']']) :=
        settles_bracketed (by decide) (by decide) (by decide) (by decide)
          (isInert_of_isPlain (List.all_eq_true.mp (by decide +kernel)))
      have hfront := (settles_blanks hindent).append (hkey.append settles_colon)
      have hline := hfront.append ((hindex type rfl).append_settles (by decide) settles_newline)
      simpa [endLines] using hline
  -- without members the braces stand on one line
  rw [objectLines]
  split
  · rw [read_endLines_cons, read_append, hhead, hbraces]
    rfl
  · rw [endLines_append, endLines_append, read_append, read_append,
      read_endLines_cons (settled 0 names), read_append, hhead, hopen, hlines, hlast,
      read_endLines_cons, hclose]
    rfl

/-- A declaration exports its name and nothing else. -/
theorem DeclarationText.IsProper.read_lines {d : DeclarationText} (h : d.IsProper)
    (hindent : ∀ c ∈ indent, c = ' ') (names : List String) :
    (settled 0 names).read (endLines (d.lines indent)) =
      settled 0 (names ++ [String.ofList d.name]) := by
  obtain ⟨doc, name, form⟩ := d
  have hdoc : Settles 0 (endLines ((docBlock doc).map ([] ++ ·))) :=
    settles_docBlock (by simp) h.doc
  have hkinds : "interface".toList ∈ kindWords ∧ "type".toList ∈ kindWords := by decide
  have hinterface := read_declared hkinds.1 h.ne_nil h.isWordPart
  have htype := read_declared hkinds.2 h.ne_nil h.isWordPart
  have hequals : Settles 0 ['=', ' '] := settles_of_isPlainSign (List.all_eq_true.mp (by decide))
  have halias : ∀ names, (settled 0 names).read ("export type ".toList ++ name ++ " = ".toList) =
      settled 0 (names ++ [String.ofList name]) := by
    intro names
    have htext : "export type ".toList ++ name ++ " = ".toList =
        "export ".toList ++ ("type".toList ++ [' ']) ++ (name ++ [' ']) ++ ['=', ' '] := by simp
    rw [htext, read_append, htype, hequals]
  simp only [List.nil_append, List.map_id'] at hdoc
  rw [DeclarationText.lines, endLines_append, read_append, hdoc]
  -- each form begins with the keyword and the name, behind which it exports nothing
  match form, h.form with
  | .interface properties index?, hform =>
    have hhead := hinterface names
    have htext : "export interface ".toList ++ name ++ [' '] =
        "export ".toList ++ ("interface".toList ++ [' ']) ++ (name ++ [' ']) := by simp
    rw [← htext] at hhead
    exact endLine_read_objectLines hindent hform.1 hform.2 hhead
  | .objectAlias properties index?, hform =>
    exact endLine_read_objectLines hindent hform.1 hform.2 (halias names)
  | .alias type, hform =>
    have hline := IsInert.append_settles hform (by decide) settles_newline
    have htext : endLines ["export type ".toList ++ name ++ " = ".toList ++ type] =
        "export type ".toList ++ name ++ " = ".toList ++ (type ++ ['\n']) := by simp [endLines]
    rw [htext, read_append, halias, hline]

/-- Declarations export their names, in order. -/
theorem read_declarationSource (hindent : ∀ c ∈ indent, c = ' ') {ds : List DeclarationText}
    (hds : ∀ d ∈ ds, d.IsProper) (names : List String) :
    (settled 0 names).read (declarationSource indent ds) =
      settled 0 (names ++ ds.map fun d => String.ofList d.name) := by
  rw [declarationSource]
  fun_induction declarationLines indent ds generalizing names with
  | case1 => simp [endLines]
  | case2 d => exact (hds d List.mem_cons_self).read_lines hindent names
  | case3 d next rest ih =>
    rw [List.forall_mem_cons] at hds
    rw [endLines_append, read_append, hds.1.read_lines hindent, read_endLines_cons]
    refine (ih hds.2 _).trans ?_
    rw [List.map_cons (a := d), List.append_assoc, List.singleton_append]

end

end SchemaTypings.Typescript
