/-
  SchemaTypings.Proofs.Typescript.Pages

  What the pages that are composed by hand export: an index what its content declares and its
  aggregate type, the accessor of secrets two names, a record of metadata nothing.

  Names and specifiers are put into these pages as they are, so the names have to be words and the
  specifiers must not end the strings they stand in.
-/
import SchemaTypings.Proofs.Typescript.OneLine
import SchemaTypings.Proofs.Typescript.Source

namespace SchemaTypings.Typescript

open Reader (endLines_append read_append read_cons read_endLines_cons read_nil)

/-! ## Index pages -/

/-- A text that is all of a word. -/
def IsWholeWord (s : String) : Prop := ∀ c ∈ s.toList, isWordPart c = true

/-- A text that does not end the string in single quotes in which it stands. -/
def StaysInside (s : String) : Prop := ∀ c ∈ s.toList, c ≠ '\\' ∧ c ≠ '\''

-- Only the characters of the text are gone through; instances for all characters never end.
instance (s : String) : Decidable (IsWholeWord s) := List.decidableBAll _ s.toList

instance (s : String) : Decidable (StaysInside s) := List.decidableBAll _ s.toList

section
variable {specifier : String}

theorem settles_quotedSpecifier (h : StaysInside specifier) {depth : Nat} :
    Settles depth ('\'' :: specifier.toList ++ ['\'']) :=
  settles_string .single (staysQuoted_of_ne h)

theorem settles_importLine {i : Import} (hname : IsWholeWord i.name)
    (hspecifier : StaysInside i.specifier) : Settles 0 (importLine i) := by
  have hspace : ∀ {depth}, Settles depth [' '] :=
    settles_of_isPlainSign (List.all_eq_true.mp (by decide))
  have hstart : Settles 0 ("import type".toList ++ [' ']) :=
    (isInert_of_isPlain (List.all_eq_true.mp (by decide +kernel))).append_settles (by decide) hspace
  have hfrom : Settles 0 (" from".toList ++ [' ']) :=
    (isInert_of_isPlain (List.all_eq_true.mp (by decide +kernel))).append_settles (by decide) hspace
  have hword : IsInert 1 i.name.toList := isInert_word hname fun h => by cases h
  have hnames : Settles 0 ('\x7b' :: (' ' :: i.name.toList ++ [' ']) ++ ['\x7d']) :=
    settles_bracketed (by decide) (by decide) (by decide) (by decide)
      (hspace.append (hword.append_settles (by decide) hspace)).isInert
  have hall := ((hstart.append hnames).append hfrom).append (settles_quotedSpecifier hspecifier)
  have htext : importLine i = "import type".toList ++ [' '] ++
      ('\x7b' :: (' ' :: i.name.toList ++ [' ']) ++ ['\x7d']) ++ (" from".toList ++ [' ']) ++
        ('\'' :: i.specifier.toList ++ ['\'']) := by
    unfold importLine
    simp
  rw [htext]
  exact hall

theorem settles_exportLine (h : StaysInside specifier) : Settles 0 (exportLine specifier) := by
  have hstart : Settles 0 "export * from ".toList := by
    intro names
    have hwords : ∀ word ∈ ["export", "from"], IsWholeWord word := by decide +kernel
    -- The asterisk ends what `export` may begin.
    have hexport : (settled 0 names).read "export ".toList =
        { settled 0 names with stage := .exported } :=
      read_word_blank (hwords "export" (by decide)) rfl rfl
    have hstar : Reader.read { settled 0 names with stage := .exported } ['*', ' '] =
        settled 0 names := rfl
    have hfrom : (settled 0 names).read "from ".toList = settled 0 names :=
      read_word_blank (hwords "from" (by decide)) rfl rfl
    have htext : "export * from ".toList = "export ".toList ++ ['*', ' '] ++ "from ".toList := by
      decide +kernel
    rw [htext, read_append, read_append, hexport, hstar, hfrom]
  have hall := hstart.append (settles_quotedSpecifier h)
  have htext : exportLine specifier =
      "export * from ".toList ++ ('\'' :: specifier.toList ++ ['\'']) := by
    unfold exportLine
    simp
  rw [htext]
  exact hall

end

theorem read_endLines_of_settles {lines : List Line} (h : ∀ line ∈ lines, Settles 0 line)
    (names : List String) : (settled 0 names).read (endLines lines) = settled 0 names := by
  induction lines with
  | nil => rfl
  | cons line rest ih =>
    rw [List.forall_mem_cons] at h
    rw [read_endLines_cons, h.1, endLine_settled, ih h.2]

/-- The empty line in front of a part does not count. -/
theorem read_paragraph (lines : List Line) (names : List String) :
    (settled 0 names).read (endLines (paragraph lines)) =
      (settled 0 names).read (endLines lines) := by
  rw [paragraph]
  split
  · next hnil => rw [hnil]
  · rw [read_endLines_cons, read_nil, endLine_settled]

/-- An aggregate of words exports its name. -/
theorem isProper_aggregateText {doc : List Line} (hdoc : ∀ line ∈ doc, holdsCommentEnd line = false)
    {name : Line} (hne : name ≠ []) (hname : ∀ c ∈ name, isWordPart c = true)
    {entries : List AggregateEntry} (hentries : ∀ e ∈ entries, IsWholeWord e.typeName) :
    (aggregateText doc name
      (entries.map fun e => ((Naming.propertyKey e.key).toList, e.typeName.toList))).IsProper := by
  refine ⟨hne, hname, hdoc, ?_, by simp⟩
  rw [List.map_map, List.forall_mem_map]
  intro e he
  exact ⟨by simp, isInert_propertyKey e.key, isInert_word (hentries e he) fun h => by cases h⟩

/-- Whether all that an index writes as it is fits its place. -/
structure IndexView.IsFit (view : IndexView) : Prop where
  imports : ∀ i ∈ view.imports, IsWholeWord i.name ∧ StaysInside i.specifier
  exports : ∀ specifier ∈ view.exports, StaysInside specifier
  aggregate : ∀ name ∈ view.aggregate?, name ≠ "" ∧ IsWholeWord name
  entries : ∀ e ∈ view.entries, IsWholeWord e.typeName

/-- An index exports what its content declares and its aggregate type. -/
theorem topLevelExports_indexPage {config : Config} (hheader : HasQuietHeader config)
    {view : IndexView} (hview : view.IsFit) {names : List String}
    (hcontent : Declares (view.content?.getD "").toList names) {text : String}
    (h : indexPage config view = .ok text) :
    topLevelExports text = names ++ view.aggregate?.toList := by
  obtain ⟨indent, hindent, rfl⟩ := exists_of_map_eq_ok h
  -- each paragraph is read from where the one before it has left the reader
  have himports : (settled 0 []).read (endLines (view.imports.map importLine)) = settled 0 [] := by
    refine read_endLines_of_settles ?_ []
    rw [List.forall_mem_map]
    exact fun i hi => settles_importLine (hview.imports i hi).1 (hview.imports i hi).2
  have hexports : (settled 0 names).read (endLines (view.exports.map exportLine)) =
      settled 0 names := by
    refine read_endLines_of_settles ?_ names
    rw [List.forall_mem_map]
    exact fun specifier hspecifier => settles_exportLine (hview.exports specifier hspecifier)
  have hbody := hcontent.trimNewlines.read []
  rw [List.nil_append] at hbody
  generalize Text.trimNewlines (view.content?.getD "").toList = content at hbody ⊢
  have hown : (settled 0 []).read (endLines (if content = [] then [] else [content])) =
      settled 0 names := by
    by_cases hnil : content = []
    · subst hnil
      exact hbody
    · rw [if_neg hnil, read_endLines_cons, hbody]
      rfl
  have haggregate : (settled 0 names).read
      (endLines (((aggregateOf? config view).map (·.lines indent)).getD [])) =
        settled 0 (names ++ view.aggregate?.toList) := by
    rw [aggregateOf?]
    cases hname : view.aggregate? with
    | none => simp [endLines]
    | some name =>
      obtain ⟨hne, hword⟩ := hview.aggregate name hname
      have hnonempty : name.toList ≠ [] := fun hnil =>
        hne (String.toList_injective (hnil.trans String.toList_empty.symm))
      have hproper := isProper_aggregateText (holdsCommentEnd_extraLines config view.doc) hnonempty
        hword hview.entries
      have hread := hproper.read_lines (eq_space_of_mem_indent hindent) names
      rw [aggregateText, String.ofList_toList] at hread
      exact hread
  rw [topLevelExports_formatChars, indexLines, endLines_append, endLines_append, endLines_append,
    read_append, read_append, read_append, read_endLines_cons, hheader]
  change (((((settled 0 []).read _).read _).read _).read _).endLine.names = _
  rw [read_paragraph, himports, read_paragraph, hown, read_paragraph, hexports, read_paragraph,
    haggregate]
  rfl

/-! ## Metadata -/

theorem constantLine_eq (name : String) (value : Json) :
    constantLine name value = "export ".toList ++ ("const".toList ++ [' ']) ++ (name.toList ++ [' ']) ++
      '=' :: ' ' :: value.chars := by
  unfold constantLine
  simp

/-- A constant about an installed integration is one line, on which its name is found. -/
theorem lineNames_constantLine {name : String} (hname : IsLineName name.toList) (value : Json) :
    lineNames (constantLine name value) = [name] := by
  have hnewline : '\n' ∉ constantLine name value := by
    have hstart : '\n' ∉ "export const ".toList ∧ '\n' ∉ " = ".toList := by
      decide +kernel
    unfold constantLine
    simp only [List.mem_append, not_or]
    exact ⟨⟨⟨hstart.1, hname.newline_not_mem⟩, hstart.2⟩, newline_not_mem_json value⟩
  have hkind : "const".toList ∈ kindWords := by decide
  have hfound := exportedName?_declared hkind hname ('=' :: ' ' :: value.chars)
  have hline := constantLine_eq name value
  generalize constantLine name value = line at hline hnewline ⊢
  rw [hline.symm, String.ofList_toList] at hfound
  rw [lineNames, Text.lines, Text.splitAt_of_not_mem hnewline, List.filterMap_cons, hfound]
  rfl

/-- A constant about an installed integration declares its name. -/
theorem declares_constantLine {name : String} (hname : IsDeclarable name) (value : Json) :
    Declares (constantLine name value) [name] where
  read before := by
    have hkind : "const".toList ∈ kindWords := by decide
    have hstart := read_declared hkind hname.isWord.ne_nil hname.isWord.isWordPart before
    have hequals : Settles 0 ['=', ' '] := settles_of_isPlainSign (List.all_eq_true.mp (by decide))
    have hrest := (hequals.append_isInert (isInert_json value 0)).append_settles (by decide)
      settles_newline
    have htext : constantLine name value ++ ['\n'] =
        "export ".toList ++ ("const".toList ++ [' ']) ++ (name.toList ++ [' ']) ++
          (['=', ' '] ++ value.chars ++ ['\n']) := by
      simp [constantLine_eq]
    have hread : (settled 0 before).read (constantLine name value ++ ['\n']) =
        settled 0 (before ++ [name]) := by
      rw [htext, read_append, hstart, hrest, String.ofList_toList]
    rw [read_append] at hread
    exact hread
  sublist := by rw [lineNames_constantLine hname.isLineName]

theorem isDeclarable_metadataName : ∀ word ∈ ["name", "version", "id"], IsDeclarable word := by
  intro word hword
  have hwords : ∀ word ∈ ["name", "version", "id"], word.toList ≠ [] ∧
      word.toList.all isWordPart = true ∧ word.toList ≠ "export".toList ∧
        (word.toList.head?.all Naming.isIdentifierStart) = true ∧
          word.toList.all isNamePart = true ∧ '\n' ∉ word.toList := by
    decide +kernel
  obtain ⟨hne, hparts, hexport, hstart, hnames, hnewline⟩ := hwords word hword
  refine ⟨⟨hne, List.all_eq_true.mp hparts, hexport⟩, hne, ?_, List.all_eq_true.mp hnames, hnewline⟩
  intro c hc
  rw [Option.mem_def] at hc
  rwa [hc] at hstart

/-- The constants about an installed integration declare their names. -/
theorem declares_metadataSource (name version id : String) :
    Declares (metadataSource name version id).toList ["name", "version", "id"] := by
  have hline : ∀ word ∈ ["name", "version", "id"], ∀ value : Json,
      Declares (constantLine word value) [word] := fun word hword value =>
    declares_constantLine (isDeclarable_metadataName word hword) value
  have htext : ∀ first second third : Line, Text.unlines [first, second, third] =
      first ++ '\n' :: (second ++ '\n' :: third) := by
    simp [Text.unlines, Text.joinWith]
  rw [metadataSource, String.toList_ofList, htext]
  exact (hline "name" (by decide) _).append_newline
    ((hline "version" (by decide) _).append_newline (hline "id" (by decide) _))

/-- Nothing but the names of the constants is found in them. -/
theorem exportedNames_metadataSource (name version id : String) :
    exportedNames (metadataSource name version id) = ["name", "version", "id"] := by
  have hline : ∀ word ∈ ["name", "version", "id"], ∀ value : Json,
      lineNames (constantLine word value) = [word] := fun word hword value =>
    lineNames_constantLine (isDeclarable_metadataName word hword).isLineName value
  rw [exportedNames_eq_lineNames, metadataSource, String.toList_ofList, lineNames_unlines]
  simp only [List.flatMap_cons, List.flatMap_nil, hline "name" (by decide), hline "version" (by decide),
    hline "id" (by decide)]
  rfl

/-! ## Records -/

theorem settles_recordLines (entries : List (String × String)) :
    Settles 1 (Json.recordLines entries) := by
  have hindent : Settles 1 "  ".toList := settles_of_isPlainSign (List.all_eq_true.mp (by decide))
  have hend : Settles 1 [',', '\n'] := settles_of_isPlainSign (List.all_eq_true.mp (by decide))
  have hentry : ∀ key value : String, Settles 1 ("  ".toList ++ Json.quotedAscii key.toList ++
      [':', ' '] ++ Json.quotedAscii value.toList) := fun key value =>
    ((hindent.append (settles_quotedAscii _)).append settles_colon).append (settles_quotedAscii _)
  fun_induction Json.recordLines entries with
  | case1 => exact settles_nil
  | case2 key value =>
    have hall := (hentry key value).append settles_newline
    simpa using hall
  | case3 key value next rest ih =>
    have hall := ((hentry key value).append hend).append ih
    simpa using hall

/-- A record exports nothing. -/
theorem topLevelExports_recordText (entries : List (String × String)) :
    topLevelExports (Json.recordText entries) = [] := by
  have hopen : (settled 0 []).read ['\x7b', '\n'] = settled 1 [] := rfl
  have hclose : ((settled 1 []).read ['\x7d']).endLine.names = [] := rfl
  have htext : '\x7b' :: '\n' :: Json.recordLines entries ++ ['\x7d'] =
      ['\x7b', '\n'] ++ Json.recordLines entries ++ ['\x7d'] := by simp
  rw [topLevelExports, Json.recordText, String.toList_ofList, htext]
  change (((settled 0 []).read _).endLine).names = []
  rw [read_append, read_append, hopen, settles_recordLines, hclose]

/-! ## The accessor of secrets -/

section
variable {indent : Line}

theorem endLine_read_indented (hindent : ∀ c ∈ indent, c = ' ') {depth : Nat} {names : List String}
    {line : Line} {r : Reader} (h : ((settled depth names).read line).endLine = r) :
    ((settled depth names).read (indent ++ line)).endLine = r := by
  rw [read_append, settles_blanks hindent, h]

/-- The lines of one secret. -/
theorem read_secretLines (hindent : ∀ c ∈ indent, c = ' ') {secret : String × String}
    (hname : ∀ c ∈ secret.1.toList, isPlain c = true) (henv : StaysInside secret.2) :
    (settled 1 ["secrets"]).read (endLines
      [indent ++ "get ".toList ++ secret.1.toList ++ "(): string \x7b".toList,
        indent ++ indent ++ "return getSecret('".toList ++ secret.2.toList ++ "')".toList,
        indent ++ "\x7d,".toList]) = settled 1 ["secrets"] := by
  have hget : (settled 1 ["secrets"]).read "get ".toList = settled 1 ["secrets"] := by
    decide +kernel
  have hhead : ((settled 1 ["secrets"]).read
      ('(' :: "): string \x7b".toList)).endLine = settled 2 ["secrets"] := by decide +kernel
  have hopen : ((settled 1 ["secrets"]).read
      ("get ".toList ++ (secret.1.toList ++ '(' :: "): string \x7b".toList))).endLine =
        settled 2 ["secrets"] := by
    rw [read_append, hget, isInert_of_isPlain hname _ _ _ (by decide), hhead]
  have hcall : (settled 2 ["secrets"]).read "return getSecret('".toList =
      { settled 3 ["secrets"] with mode := .quoted .single } := by decide +kernel
  have hreturn : ((settled 2 ["secrets"]).read
      ("return getSecret('".toList ++ secret.2.toList ++ "')".toList)).endLine =
        settled 2 ["secrets"] := by
    have hquoted : StaysQuoted .single secret.2.toList := staysQuoted_of_ne henv
    rw [read_append, read_append, hcall, hquoted _ rfl]
    decide +kernel
  have hclose : ((settled 2 ["secrets"]).read "\x7d,".toList).endLine = settled 1 ["secrets"] := by
    decide +kernel
  have hname' : indent ++ "get ".toList ++ secret.1.toList ++ "(): string \x7b".toList =
      indent ++ ("get ".toList ++ (secret.1.toList ++ '(' :: "): string \x7b".toList)) := by simp
  have hvalue : indent ++ indent ++ "return getSecret('".toList ++ secret.2.toList ++ "')".toList =
      indent ++ (indent ++ ("return getSecret('".toList ++ secret.2.toList ++ "')".toList)) := by simp
  rw [hname', hvalue, read_endLines_cons, endLine_read_indented hindent hopen, read_endLines_cons,
    endLine_read_indented hindent (endLine_read_indented hindent hreturn), read_endLines_cons,
    endLine_read_indented hindent hclose]
  rfl

/-- The lines of the accessor export two names. -/
theorem read_endLines_secretLines {header : Line} (hheader : (Reader.read {} header).endLine = {})
    (hindent : ∀ c ∈ indent, c = ' ') {secrets : Entries String}
    (hsecrets : ∀ secret ∈ secrets,
      (∀ c ∈ secret.1.toList, isPlain c = true) ∧ StaysInside secret.2) :
    (Reader.read {} (endLines (secretLines header indent secrets))) =
      settled 0 ["secrets", "Secret"] := by
  -- between the fixed lines only the depth of the brackets and the names so far are passed on
  have hfunction : ((settled 0 []).read
      "const getSecret = (envVar: string): string => \x7b".toList).endLine = settled 1 [] := by
    decide +kernel
  have hvalue : ((settled 1 []).read "const value = process.env[envVar]".toList).endLine =
      settled 1 [] := by decide +kernel
  have hmissing : ((settled 1 []).read "if (value === undefined) \x7b".toList).endLine =
      settled 2 [] := by decide +kernel
  have hthrow : ((settled 2 []).read ("throw new Error(`Missing secret: environment variable " ++
      "$\x7benvVar\x7d is not set`)").toList).endLine = settled 2 [] := by decide +kernel
  have hfound : ((settled 2 []).read ['\x7d']).endLine = settled 1 [] := by decide +kernel
  have hreturn : ((settled 1 []).read "return value".toList).endLine = settled 1 [] := by
    decide +kernel
  have hobject : (settled 1 []).read (endLines
      [['\x7d'], [], "export const secrets = \x7b".toList]) = settled 1 ["secrets"] := by
    decide +kernel
  have hend : (settled 1 ["secrets"]).read (endLines
      [['\x7d'], [], "export type Secret = keyof typeof secrets".toList]) =
        settled 0 ["secrets", "Secret"] := by decide +kernel
  -- the getters leave the reader as they find it, inside the object of the secrets
  have hall : (settled 1 ["secrets"]).read (endLines (secrets.flatMap fun secret =>
      [indent ++ "get ".toList ++ secret.1.toList ++ "(): string \x7b".toList,
        indent ++ indent ++ "return getSecret('".toList ++ secret.2.toList ++ "')".toList,
        indent ++ "\x7d,".toList])) = settled 1 ["secrets"] := by
    induction secrets with
    | nil => rfl
    | cons secret rest ih =>
      rw [List.forall_mem_cons] at hsecrets
      rw [List.flatMap_cons, endLines_append, read_append,
        read_secretLines hindent hsecrets.1.1 hsecrets.1.2, ih hsecrets.2]
  have hstart : Reader.read {} (endLines [header, [],
      "const getSecret = (envVar: string): string => \x7b".toList,
      indent ++ "const value = process.env[envVar]".toList,
      indent ++ "if (value === undefined) \x7b".toList,
      indent ++ indent ++ ("throw new Error(`Missing secret: environment variable " ++
        "$\x7benvVar\x7d is not set`)").toList,
      indent ++ ['\x7d'],
      indent ++ "return value".toList,
      ['\x7d'], [],
      "export const secrets = \x7b".toList]) = settled 1 ["secrets"] := by
    rw [read_endLines_cons, hheader, List.append_assoc indent indent]
    change (settled 0 []).read _ = _
    rw [read_endLines_cons, read_nil, endLine_settled, read_endLines_cons, hfunction,
      read_endLines_cons, endLine_read_indented hindent hvalue, read_endLines_cons,
      endLine_read_indented hindent hmissing, read_endLines_cons,
      endLine_read_indented hindent (endLine_read_indented hindent hthrow), read_endLines_cons,
      endLine_read_indented hindent hfound, read_endLines_cons,
      endLine_read_indented hindent hreturn, hobject]
  rw [secretLines, endLines_append, endLines_append, read_append, read_append, hstart, hall, hend]

/-- The accessor of secrets exports two names, both at the beginnings of lines. -/
theorem topLevelExports_secretsPage {config : Config} (hheader : HasQuietHeader config)
    {secrets : Entries String} (hsecrets : ∀ secret ∈ secrets,
      (∀ c ∈ secret.1.toList, isPlain c = true) ∧ StaysInside secret.2) {text : String}
    (h : secretsPage config secrets = .ok text) :
    topLevelExports text = ["secrets", "Secret"] ∧
      ["secrets", "Secret"].Sublist (exportedNames text) := by
  obtain ⟨indent, hindent, rfl⟩ := exists_of_map_eq_ok h
  have hread := read_endLines_secretLines hheader (eq_space_of_mem_indent hindent) hsecrets
  constructor
  · rw [topLevelExports_formatChars, Reader.endLine_read_unlines rfl, hread]
    rfl
  · let object := "export const secrets = \x7b".toList
    let type := "export type Secret = keyof typeof secrets".toList
    have hnames : [object, type].flatMap lineNames = ["secrets", "Secret"] := by decide +kernel
    have hlines : [object, type].Sublist
        (secretLines config.header.plain.toList indent secrets) := by
      rw [secretLines, List.append_assoc]
      change ([object] ++ ([] ++ [type])).Sublist _
      refine List.Sublist.append ?_ (List.Sublist.append ?_ ?_)
      · exact List.singleton_sublist.mpr (by simp [object])
      · exact List.nil_sublist _
      · exact List.singleton_sublist.mpr (by simp [type])
    have hsublist := hlines.flatMap lineNames
    rw [hnames] at hsublist
    rw [exportedNames_eq_lineNames, String.toList_ofList, lineNames_formatChars, lineNames_unlines]
    exact hsublist

end

end SchemaTypings.Typescript
