/-
  SchemaTypings.Proofs.Typescript.IndexLines

  The lines of an index that import or export by a specifier: one for each import, then one for each
  exported module.  An index puts its specifiers between single quotes as they are, so the literal is
  read as the specifier unless there is a quote in it.
-/
import Mathlib.Data.Bool.AllAny
import SchemaTypings.Proofs.Typescript.SpecifierLine

namespace SchemaTypings.Typescript

open Json (textUnits unitsOf)

/-! ## Lines -/

/-- A text that neither begins an escape nor breaks a line. -/
def IsUnbroken (text : List Char) : Prop := ∀ c ∈ text, c ≠ '\\' ∧ c ≠ '\n' ∧ c ≠ '\r'

theorem IsUnbroken.newline_not_mem {text : List Char} (h : IsUnbroken text) : '\n' ∉ text :=
  fun hmem => (h _ hmem).2.1 rfl

theorem newline_not_mem_of_isWholeWord {word : String} (h : IsWholeWord word) :
    '\n' ∉ word.toList := by
  intro hmem
  have hpart := h _ hmem
  revert hpart
  decide

/-- The characters of words are neither quotes nor slashes. -/
theorem isPlain_of_isWordPart {c : Char} (h : isWordPart c = true) : c ≠ '\'' ∧ c ≠ '/' := by
  constructor
  · rintro rfl
    revert h
    decide
  · rintro rfl
    revert h
    decide

theorem importLine_eq (i : Import) : importLine i =
    "import".toList ++ ' ' :: ("type \x7b ".toList ++ i.name.toList ++ " \x7d from ".toList ++
      '\'' :: (i.specifier.toList ++ ['\''])) := by
  unfold importLine
  simp

theorem exportLine_eq (specifier : String) : exportLine specifier =
    "export".toList ++ ' ' :: ("* from ".toList ++ '\'' :: (specifier.toList ++ ['\''])) := by
  unfold exportLine
  simp

/-- A line that begins with one of the two words and has a quote is a line with a specifier. -/
theorem finds_word {word rest : List Char} (hword : word ∈ ["import".toList, "export".toList])
    (hnewline : '\n' ∉ rest) (hquote : '\'' ∈ rest) :
    Finds (Text.lines (word ++ ' ' :: rest)) [word ++ ' ' :: rest] := by
  have hwords : ∀ word ∈ ["import".toList, "export".toList],
      word.all isWordPart = true ∧ '\n' ∉ word ∧ word.head? ≠ some '/' ∧ word ≠ [] := by
    decide
  obtain ⟨hparts, hfree, hhead, hne⟩ := hwords word hword
  have hline : '\n' ∉ word ++ ' ' :: rest := by simp [hfree, hnewline]
  rw [Text.lines, Text.splitAt_of_not_mem hline]
  refine Finds.singleton ?_ ?_
  · obtain ⟨c, more, rfl⟩ := List.exists_cons_of_ne_nil hne
    have hc : '/' ≠ c := fun heq => hhead (congrArg some heq.symm)
    simp [opensComment, List.isPrefixOf, hc]
  · have htake : (word ++ ' ' :: rest).takeWhile isWordPart = word := by
      rw [List.takeWhile_append_of_pos (List.all_eq_true.mp hparts), List.takeWhile_cons_of_neg (by decide),
        List.append_nil]
    have hmember : (word ++ ' ' :: rest).contains '\'' = true := by
      rw [List.contains_iff_mem]
      exact List.mem_append_right _ (List.mem_cons_of_mem _ hquote)
    rw [isSpecifierLine, htake, hmember, Bool.and_true, Bool.or_eq_true, decide_eq_true_eq,
      decide_eq_true_eq]
    exact (List.mem_cons.mp hword).imp_right List.mem_singleton.mp

theorem finds_importLine {i : Import} (hname : IsWholeWord i.name)
    (hspecifier : '\n' ∉ i.specifier.toList) :
    Finds (Text.lines (importLine i)) [importLine i] := by
  rw [importLine_eq]
  refine finds_word List.mem_cons_self ?_ (by simp)
  simp [newline_not_mem_of_isWholeWord hname, hspecifier]

theorem finds_exportLine {specifier : String} (h : '\n' ∉ specifier.toList) :
    Finds (Text.lines (exportLine specifier)) [exportLine specifier] := by
  rw [exportLine_eq]
  refine finds_word (List.mem_cons_of_mem _ List.mem_cons_self) ?_ (by simp)
  simp [h]

/-! ## Aggregate types -/

section
variable {indent : Line}

/-- A member of an aggregate type has no specifier.  A bare key may have a line feed behind it. -/
theorem finds_member (hindent : ∀ c ∈ indent, c = ' ') (key : String) {type : String}
    (htype : IsWholeWord type) :
    Finds ((PropertyText.lines indent
      ⟨[], (Naming.propertyKey key).toList, false, type.toList⟩).flatMap Text.lines) [] := by
  have hline : PropertyText.lines indent
      ⟨[], (Naming.propertyKey key).toList, false, type.toList⟩ =
        [indent ++ ((Naming.propertyKey key).toList ++ ':' :: ' ' :: type.toList)] := by
    simp [PropertyText.lines, docBlock]
  have hspace : ∀ c ∈ indent, c ≠ '\'' ∧ c ≠ '/' := by
    intro c hc
    rw [hindent c hc]
    decide
  have hword : ∀ {cs : List Char}, (∀ c ∈ cs, isWordPart c = true) →
      ∀ c ∈ cs, c ≠ '\'' ∧ c ≠ '/' := fun h c hc => isPlain_of_isWordPart (h c hc)
  rw [hline, List.flatMap_singleton]
  rcases propertyKey_cases key with ⟨word, hparts, hkey⟩ | ⟨text, htext, hkey⟩
  · have hplain : ∀ c ∈ word, c ≠ '\'' ∧ c ≠ '/' :=
      hword fun c hc => isWordPart_of_isIdentifierPart (hparts c hc)
    have hrest : ∀ c ∈ ':' :: ' ' :: type.toList, c ≠ '\'' ∧ c ≠ '/' := by
      rw [List.forall_mem_cons, List.forall_mem_cons]
      exact ⟨by decide, by decide, hword htype⟩
    have hkeyPlain : ∀ c ∈ (Naming.propertyKey key).toList, c ≠ '\'' ∧ c ≠ '/' := by
      rcases hkey with hkey | hkey
      · rw [hkey]
        exact hplain
      · rw [hkey, List.forall_mem_append]
        exact ⟨hplain, List.all_iff_forall_prop.mp (by decide)⟩
    refine finds_of_plain ?_
    rw [List.forall_mem_append, List.forall_mem_append]
    exact ⟨hspace, hkeyPlain, hrest⟩
  · rw [hkey]
    refine finds_of_head ?_ ?_
    · have hfree : '\n' ∉ indent := fun hmem => absurd (hindent _ hmem) (by decide)
      simp [hfree, htext, newline_not_mem_of_isWholeWord htype]
    · cases indent with
      | nil =>
        rintro _ ⟨rfl⟩
        decide
      | cons d rest =>
        rintro _ ⟨rfl⟩
        rw [hindent _ List.mem_cons_self]
        decide

/-- An aggregate type of words has no specifiers. -/
theorem finds_aggregateText (hindent : ∀ c ∈ indent, c = ' ') {doc : List Line}
    (hdoc : ∀ line ∈ doc, holdsCommentEnd line = false) {name : String} (hname : IsWholeWord name)
    {entries : List AggregateEntry} (hentries : ∀ e ∈ entries, IsWholeWord e.typeName) :
    Finds (((aggregateText doc name.toList (entries.map fun e =>
      ((Naming.propertyKey e.key).toList, e.typeName.toList))).lines indent).flatMap Text.lines)
      [] := by
  have hstart : ∀ c ∈ "export type ".toList, c ≠ '\'' ∧ c ≠ '/' :=
    List.all_iff_forall_prop.mp (by decide)
  have hequals : ∀ c ∈ " = ".toList, c ≠ '\'' ∧ c ≠ '/' := List.all_iff_forall_prop.mp (by decide)
  have hhead : ∀ brackets : List Char, (∀ c ∈ brackets, c ≠ '\'' ∧ c ≠ '/') →
      Finds (Text.lines ("export type ".toList ++ name.toList ++ " = ".toList ++ brackets)) [] := by
    intro brackets hbrackets
    refine finds_of_plain ?_
    simp only [List.forall_mem_append]
    exact ⟨⟨⟨hstart, fun c hc => isPlain_of_isWordPart (hname c hc)⟩, hequals⟩, hbrackets⟩
  rw [aggregateText, DeclarationText.lines, List.flatMap_append]
  -- comment, head, members, closing brace: none of these lines opens a quote or a comment
  refine (finds_docBlock hdoc).append ?_
  show Finds ((objectLines _ indent _ none).flatMap Text.lines) []
  rw [objectLines]
  split
  · rw [List.flatMap_singleton]
    exact hhead _ (List.all_iff_forall_prop.mp (by decide))
  · have hmembers : Finds (((entries.map fun e =>
        (⟨[], (Naming.propertyKey e.key).toList, false, e.typeName.toList⟩ : PropertyText)).flatMap
          (·.lines indent)).flatMap Text.lines) [] := by
      rw [List.flatMap_map, List.flatMap_assoc]
      have hall := Finds.flatMap fun e he => finds_member hindent e.key (hentries e he)
      rwa [List.flatMap_eq_nil_iff.mpr fun _ _ => rfl] at hall
    have hclose : Finds ([['\x7d']].flatMap Text.lines) [] := by
      rw [List.flatMap_singleton]
      exact finds_of_plain (List.all_iff_forall_prop.mp (by decide))
    rw [List.flatMap_append, List.flatMap_append, List.flatMap_cons, List.map_map]
    have hopen := hhead ['\x7b'] (List.all_iff_forall_prop.mp (by decide))
    exact ((hopen.append hmembers).append Finds.nil).append hclose

end

/-! ## Indexes -/

theorem trimEnd_append_quote (front : Line) : Text.trimEnd (front ++ ['\'']) = front ++ ['\''] := by
  refine Text.dropEndWhile_eq_self fun c hc => ?_
  rw [List.getLast?_concat] at hc
  cases hc
  rfl

/-- Whether all that an index writes as it is stays on the line it is written on. -/
structure IndexView.IsLined (view : IndexView) : Prop where
  content : view.content?.getD "" = ""
  imports : ∀ i ∈ view.imports, IsWholeWord i.name ∧ '\n' ∉ i.specifier.toList
  exports : ∀ specifier ∈ view.exports, '\n' ∉ specifier.toList
  aggregate : ∀ name ∈ view.aggregate?, IsWholeWord name
  entries : ∀ e ∈ view.entries, IsWholeWord e.typeName

/-- The lines with specifiers in an index without a text of its own are those of its imports and those
of the modules that it exports. -/
theorem specifierLines_indexPage {config : Config}
    (hheader : Finds (Text.lines config.header.plain.toList) []) {view : IndexView}
    (hview : view.IsLined) {text : String} (h : indexPage config view = .ok text) :
    specifierLines text = view.imports.map importLine ++ view.exports.map exportLine := by
  obtain ⟨indent, hindent, rfl⟩ := exists_of_map_eq_ok h
  have himports : Finds ((view.imports.map importLine).flatMap Text.lines)
      (view.imports.map importLine) := by
    rw [List.flatMap_map, List.map_eq_flatMap]
    exact Finds.flatMap fun i hi =>
      finds_importLine (hview.imports i hi).1 (hview.imports i hi).2
  have hexports : Finds ((view.exports.map exportLine).flatMap Text.lines)
      (view.exports.map exportLine) := by
    rw [List.flatMap_map, List.map_eq_flatMap]
    exact Finds.flatMap fun specifier hspecifier =>
      finds_exportLine (hview.exports specifier hspecifier)
  have haggregate : Finds
      ((((aggregateOf? config view).map (·.lines indent)).getD []).flatMap Text.lines) [] := by
    rw [aggregateOf?]
    cases hname : view.aggregate? with
    | none => exact Finds.nil
    | some name =>
      exact finds_aggregateText (eq_space_of_mem_indent hindent)
        (holdsCommentEnd_extraLines config view.doc) (hview.aggregate name hname) hview.entries
  have hown : Text.trimNewlines (view.content?.getD "").toList = [] := by
    rw [hview.content]
    rfl
  have hlines : Finds (Text.lines (endLines (indexLines config.header.plain.toList indent
      view.imports [] view.exports (aggregateOf? config view))))
        (view.imports.map importLine ++ view.exports.map exportLine) := by
    refine Finds.endLines ?_
    rw [indexLines, List.flatMap_append, List.flatMap_append, List.flatMap_append,
      List.flatMap_cons]
    have hnone : Finds (([] : List Line).flatMap Text.lines) [] := Finds.nil
    have hall := (((hheader.append himports.paragraph).append hnone.paragraph).append
      hexports.paragraph).append haggregate.paragraph
    simpa using hall
  rw [hown, specifierLines_formatChars, hlines.found, List.map_append, List.map_map, List.map_map]
  congr 1
  · exact List.map_congr_left fun i _ => trimEnd_append_quote _
  · exact List.map_congr_left fun specifier _ => trimEnd_append_quote _

/-! ## Literals -/

section
variable {text : List Char}

/-- A literal without escapes and line ends is read up to its first quote. -/
theorem readLiteral_append_quote (h : IsUnbroken text) :
    (readLiteral '\'' (text ++ ['\''])).map Prod.fst =
      some (textUnits (text.takeWhile (· ≠ '\''))) := by
  induction text with
  | nil => rw [List.nil_append, readLiteral_quote]; rfl
  | cons c rest ih =>
    rw [IsUnbroken, List.forall_mem_cons] at h
    by_cases hquote : c = '\''
    · subst hquote
      rw [List.cons_append, readLiteral_quote, List.takeWhile_cons_of_neg (by simp)]
      rfl
    · obtain ⟨⟨hbackslash, hnewline, hreturn⟩, hrest⟩ := h
      obtain ⟨⟨units, behind⟩, hread, heq⟩ := Option.map_eq_some_iff.mp (ih hrest)
      rw [List.cons_append, readLiteral_cons hquote hbackslash hnewline hreturn, hread,
        List.takeWhile_cons_of_pos (by simpa using hquote), textUnits, List.flatMap_cons,
        ← textUnits, ← heq]
      rfl

/-- It is read as itself exactly if there is no quote in it. -/
theorem readLiteral_append_quote_eq_iff (h : IsUnbroken text) :
    (readLiteral '\'' (text ++ ['\''])).map Prod.fst = some (textUnits text) ↔ '\'' ∉ text := by
  rw [readLiteral_append_quote h, Option.some_inj, Json.textUnits_injective.eq_iff,
    List.takeWhile_eq_self_iff]
  simp only [decide_eq_true_eq]
  exact ⟨fun hall hmem => hall _ hmem rfl, fun hnot c hc heq => hnot (heq ▸ hc)⟩

theorem readSpecifier?_append {front : List Char} (hfront : '\'' ∉ front) (rest : List Char) :
    readSpecifier? (front ++ '\'' :: rest) = (readLiteral '\'' rest).map Prod.fst := by
  have hskip : (front ++ '\'' :: rest).dropWhile (· ≠ '\'') = '\'' :: rest := by
    rw [List.dropWhile_append_of_pos fun c hc => by
      simpa using fun heq : c = '\'' => hfront (heq ▸ hc)]
    exact List.dropWhile_cons_of_neg (by simp)
  rw [readSpecifier?, hskip]
  rfl

end

/-- The specifier of an import is read off its line exactly if there is no quote in it. -/
theorem readSpecifier?_importLine_eq_iff {i : Import} (hname : IsWholeWord i.name)
    (h : IsUnbroken i.specifier.toList) :
    readSpecifier? (importLine i) = some (textUnits i.specifier.toList) ↔
      '\'' ∉ i.specifier.toList := by
  have hfree : '\'' ∉ "import type \x7b ".toList ++ i.name.toList ++ " \x7d from ".toList := by
    have hword : '\'' ∉ i.name.toList := fun hmem => (isPlain_of_isWordPart (hname _ hmem)).1 rfl
    simp [hword]
  have hline : importLine i = "import type \x7b ".toList ++ i.name.toList ++ " \x7d from ".toList ++
      '\'' :: (i.specifier.toList ++ ['\'']) := by
    unfold importLine
    simp
  rw [hline, readSpecifier?_append hfree]
  exact readLiteral_append_quote_eq_iff h

/-- So is that of an exported module. -/
theorem readSpecifier?_exportLine_eq_iff {specifier : String} (h : IsUnbroken specifier.toList) :
    readSpecifier? (exportLine specifier) = some (textUnits specifier.toList) ↔
      '\'' ∉ specifier.toList := by
  have hfree : '\'' ∉ "export * from ".toList := by decide
  have hline : exportLine specifier =
      "export * from ".toList ++ '\'' :: (specifier.toList ++ ['\'']) := by
    unfold exportLine
    simp
  rw [hline, readSpecifier?_append hfree]
  exact readLiteral_append_quote_eq_iff h

end SchemaTypings.Typescript
