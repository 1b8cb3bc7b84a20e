/-
  SchemaTypings.Proofs.Typescript.DocBlock

  Where documentation ends.  The lines of a documentation block have no comment end in them, so the
  block closes at its last line, in the source of a node, in that of an object type and in an index,
  and in what clean format and the header make of these.
-/
import SchemaTypings.Proofs.Typescript.Cleaned
import SchemaTypings.Proofs.Typescript.Notes

namespace SchemaTypings.Typescript

open Reader (endLines_append unlines_append_newline)

/-! ## Written blocks -/

/-- The text of a documentation block whose lines stand behind an indent. -/
def blockText (indent : Line) (doc : List Line) : List Char :=
  Text.unlines ("/**".toList :: doc.map (indent ++ blockLine ·) ++ [indent ++ [' ', '*', '/']])

/-- The block that is written for documentation; without lines there is none. -/
def docBlocks (indent : Line) (doc : List Line) : List (List Char) :=
  if doc = [] then [] else [blockText indent doc]

/-- The properties that a declaration lists. -/
def DeclarationForm.properties : DeclarationForm → List PropertyText
  | .interface properties _ | .objectAlias properties _ => properties
  | .alias _ => []

/-- The blocks that are written for a declaration, its own one first. -/
def DeclarationText.blocks (indent : Line) (d : DeclarationText) : List (List Char) :=
  docBlocks [] d.doc ++ d.form.properties.flatMap fun p => docBlocks indent p.doc

/-- Whether no documentation of a declaration has a comment end in it. -/
structure DeclarationText.IsDocumented (d : DeclarationText) : Prop where
  doc : ∀ line ∈ d.doc, holdsCommentEnd line = false
  properties : ∀ p ∈ d.form.properties, ∀ line ∈ p.doc, holdsCommentEnd line = false

section
variable {indent : Line}

theorem holdsCommentEnd_indent_append (hindent : ∀ c ∈ indent, c = ' ') (line : Line) :
    holdsCommentEnd (indent ++ line) = holdsCommentEnd line := by
  induction indent with
  | nil => rfl
  | cons c rest ih =>
    rw [List.forall_mem_cons] at hindent
    rw [List.cons_append, holdsCommentEnd_cons (by simp [hindent.1]), ih hindent.2]

/-- A block closes at its last line if no line of the documentation has a comment end. -/
theorem isBlock_blockText (hindent : ∀ c ∈ indent, c = ' ') {doc : List Line}
    (hdoc : ∀ line ∈ doc, holdsCommentEnd line = false) : IsBlock (blockText indent doc) := by
  have hlast : ∀ front : List Line, ∀ text more : Line,
      Text.unlines (front ++ [text ++ more]) = Text.unlines (front ++ [text]) ++ more :=
    fun front text more => Text.joinWith_append_cons front text more []
  -- the last line is cut behind its star, so that the slash ends the first comment end
  let front := "/**".toList :: doc.map (indent ++ blockLine ·)
  have htext : blockText indent doc =
      Text.unlines (front ++ [indent ++ [' ']]) ++ ['*', '/'] := by
    rw [← hlast, List.append_assoc]
    rfl
  have hinner : Text.unlines (front ++ [indent ++ [' ']]) ++ ['*'] =
      Text.unlines (front ++ [indent ++ [' ', '*']]) := by
    rw [← hlast, List.append_assoc]
    rfl
  refine ⟨?_, _, htext, ?_⟩
  · rw [blockText, List.cons_append, Text.unlines, Text.joinWith_cons _ (by simp)]
    exact List.prefix_append _ _
  · rw [hinner]
    refine holdsCommentEnd_unlines (List.forall_mem_append.mpr
      ⟨List.forall_mem_cons.mpr ⟨by decide, ?_⟩, ?_⟩)
    · rw [List.forall_mem_map]
      intro line hline
      rw [holdsCommentEnd_indent_append hindent]
      exact holdsCommentEnd_blockLine (hdoc line hline)
    · rw [List.forall_mem_singleton, holdsCommentEnd_indent_append hindent]
      rfl

theorem documents_docBlock (hindent : ∀ c ∈ indent, c = ' ') {doc : List Line}
    (hdoc : ∀ line ∈ doc, holdsCommentEnd line = false) :
    Documents (docBlocks indent doc) (endLines ((docBlock doc).map (indent ++ ·))) := by
  rw [docBlocks, docBlock]
  split
  · exact .nil _
  · have hlines : endLines ((['/', '*', '*'] :: doc.map blockLine ++ [[' ', '*', '/']]).map
        (indent ++ ·)) = indent ++ (blockText indent doc ++ ['\n']) := by
      rw [blockText, unlines_append_newline (by simp)]
      simp [endLines, Function.comp_def]
    rw [hlines]
    exact .cons indent (isBlock_blockText hindent hdoc) (.nil _)

theorem documents_property (hindent : ∀ c ∈ indent, c = ' ') {p : PropertyText}
    (hdoc : ∀ line ∈ p.doc, holdsCommentEnd line = false) :
    Documents (docBlocks indent p.doc) (endLines (p.lines indent)) := by
  rw [PropertyText.lines, endLines_append]
  exact (documents_docBlock hindent hdoc).append_text _

theorem documents_properties (hindent : ∀ c ∈ indent, c = ' ') {properties : List PropertyText}
    (hdoc : ∀ p ∈ properties, ∀ line ∈ p.doc, holdsCommentEnd line = false) :
    Documents (properties.flatMap fun p => docBlocks indent p.doc)
      (endLines (properties.flatMap (·.lines indent))) := by
  induction properties with
  | nil => exact .nil _
  | cons p rest ih =>
    rw [List.forall_mem_cons] at hdoc
    rw [List.flatMap_cons, List.flatMap_cons, endLines_append]
    exact (documents_property hindent hdoc.1).append (ih hdoc.2)

theorem documents_objectLines (hindent : ∀ c ∈ indent, c = ' ') {properties : List PropertyText}
    (hdoc : ∀ p ∈ properties, ∀ line ∈ p.doc, holdsCommentEnd line = false) (head : Line)
    (index? : Option Line) :
    Documents (properties.flatMap fun p => docBlocks indent p.doc)
      (endLines (objectLines head indent properties index?)) := by
  rw [objectLines]
  split
  · next hempty =>
    obtain rfl : properties = [] := List.isEmpty_iff.mp (Bool.and_eq_true_iff.mp hempty).1
    exact .nil _
  · rw [endLines_append, endLines_append, endLines, List.flatMap_cons]
    exact (((documents_properties hindent hdoc).prepend _).append_text _).append_text _

theorem DeclarationText.IsDocumented.documents {d : DeclarationText} (h : d.IsDocumented)
    (hindent : ∀ c ∈ indent, c = ' ') : Documents (d.blocks indent) (endLines (d.lines indent)) := by
  have hown : Documents (docBlocks [] d.doc) (endLines (docBlock d.doc)) := by
    have hblock := documents_docBlock (List.forall_mem_nil (· = ' ')) h.doc
    rwa [List.map_id''] at hblock
    exact fun _ => rfl
  have hproperties := h.properties
  obtain ⟨doc, name, form⟩ := d
  rw [DeclarationText.lines, endLines_append]
  refine hown.append ?_
  rcases form with ⟨properties, index?⟩ | ⟨properties, index?⟩ | type
  · exact documents_objectLines hindent hproperties _ _
  · exact documents_objectLines hindent hproperties _ _
  · exact .nil _

theorem documents_declarationSource (hindent : ∀ c ∈ indent, c = ' ') {ds : List DeclarationText}
    (hds : ∀ d ∈ ds, d.IsDocumented) :
    Documents (ds.flatMap (·.blocks indent)) (declarationSource indent ds) := by
  rw [declarationSource]
  fun_induction declarationLines indent ds with
  | case1 => exact .nil _
  | case2 d =>
    rw [List.flatMap_singleton]
    exact (hds d List.mem_cons_self).documents hindent
  | case3 d next rest ih =>
    rw [List.forall_mem_cons] at hds
    rw [List.flatMap_cons, endLines_append]
    exact (hds.1.documents hindent).append ((ih hds.2).prepend ['\n'])

end

/-! ## Texts of documentation -/

section
variable {config : Config}

/-- The keywords in the nodes of a document are those that the conversion knows. -/
theorem everywhere_hasQuietKeywords {document : Json} {external? : Option (Json → Except Fault Json)}
    {limit : Schema.ReferenceLimit} {node : SchemaNode}
    (h : Schema.ofDocument document external? limit = .ok node) :
    node.Everywhere fun n => HasQuietKeywords n.note := fun n hn =>
  hasQuietKeywords_of_isRegular (Schema.everywhere_isRegular_of_ofDocument h n hn)

theorem isDocumented_propertyTexts {properties : List Property}
    (hproperties : ∀ p ∈ properties, HasQuietKeywords p.note) {texts : List PropertyText}
    (h : propertyTexts config properties = .ok texts) :
    ∀ text ∈ texts, ∀ line ∈ text.doc, holdsCommentEnd line = false := by
  induction properties generalizing texts with
  | nil =>
    cases h
    simp
  | cons p rest ih =>
    rw [List.forall_mem_cons] at hproperties
    obtain ⟨doc, more, hdoc, hmore, rfl⟩ := exists_of_propertyTexts_cons h
    exact List.forall_mem_cons.mpr
      ⟨holdsCommentEnd_noteLines hproperties.1.isQuiet hdoc, ih hproperties.2 hmore⟩

theorem isDocumented_declarationText {d : Declaration}
    (hd : ∀ note ∈ d.body.notes, HasQuietKeywords note) {doc : List Line}
    (hdoc : ∀ line ∈ doc, holdsCommentEnd line = false) {text : DeclarationText}
    (h : declarationText config doc d = .ok text) : text.IsDocumented := by
  obtain ⟨form, rfl, ⟨properties, isOpen, texts, hbody, htexts, rfl⟩ | ⟨t, hbody, rfl⟩⟩ :=
    exists_of_declarationText h
  · rw [hbody, DeclarationBody.notes, List.forall_mem_map] at hd
    exact ⟨hdoc, isDocumented_propertyTexts hd htexts⟩
  · exact ⟨hdoc, List.forall_mem_nil _⟩

theorem isDocumented_declarationTexts {ds : List Declaration}
    (hds : ∀ d ∈ ds, ∀ note ∈ d.body.notes, HasQuietKeywords note) {doc : List Line}
    (hdoc : ∀ line ∈ doc, holdsCommentEnd line = false) {texts : List DeclarationText}
    (h : declarationTexts config doc ds = .ok texts) : ∀ text ∈ texts, text.IsDocumented := by
  induction ds generalizing doc texts with
  | nil =>
    cases h
    simp
  | cons d rest ih =>
    rw [List.forall_mem_cons] at hds
    obtain ⟨text, more, htext, hmore, rfl⟩ := exists_of_declarationTexts_cons h
    exact List.forall_mem_cons.mpr ⟨isDocumented_declarationText hds.1 hdoc htext,
      ih hds.2 (by simp) hmore⟩

end

/-! ## Sources -/

/-- Whether some blocks stand in a source, and cleaned in what clean format and the header make of
it. -/
structure StaysDocumented (blocks : List (List Char)) (source : String) : Prop where
  written : Documents blocks source.toList
  formatted : Documents (blocks.map cleanLines) (format source).toList
  filed : ∀ config text, file config source = .ok text →
    Documents (blocks.map cleanLines) text.toList

theorem Documents.stays {blocks : List (List Char)} {source : String}
    (h : Documents blocks source.toList) : StaysDocumented blocks source where
  written := h
  formatted := by
    rw [format, String.toList_ofList]
    exact h.formatChars
  filed config text htext := by
    rw [file] at htext
    split at htext
    · split at htext
      · obtain rfl := Except.ok.inj htext
        rw [String.toList_ofList]
        exact ((h.trimNewlines.prepend ['\n', '\n']).prepend _).formatChars
      · cases htext
    · obtain rfl := Except.ok.inj htext
      rw [String.toList_ofList]
      exact h.trimNewlines.formatChars

theorem documents_paragraph {blocks : List (List Char)} {ls : List Line}
    (h : Documents blocks (endLines ls)) : Documents blocks (endLines (paragraph ls)) := by
  rw [paragraph]
  split
  · next hnil => rwa [hnil] at h
  · exact h.prepend ['\n']

/-- An object type whose members refer to named types has no documentation but its own. -/
theorem blocks_aggregateText (indent : Line) (doc : List Line) (name : Line)
    (entries : List (Line × Line)) :
    (aggregateText doc name entries).blocks indent = docBlocks [] doc := by
  have hnone : (entries.map fun entry => (⟨[], entry.1, false, entry.2⟩ : PropertyText)).flatMap
      (fun p => docBlocks indent p.doc) = [] := by
    rw [List.flatMap_map]
    exact List.flatMap_eq_nil_iff.mpr fun _ _ => rfl
  rw [DeclarationText.blocks, aggregateText]
  exact (congrArg _ hnone).trans (List.append_nil _)

theorem isDocumented_aggregateText {doc : List Line}
    (hdoc : ∀ line ∈ doc, holdsCommentEnd line = false) (name : Line)
    (entries : List (Line × Line)) : (aggregateText doc name entries).IsDocumented where
  doc := hdoc
  properties := by
    rw [aggregateText]
    exact List.forall_mem_map.mpr fun _ _ => List.forall_mem_nil _

/-- The blocks of an index are those of its own content and the one of its aggregate type. -/
theorem documents_indexLines {indent : Line} (hindent : ∀ c ∈ indent, c = ' ')
    {blocks : List (List Char)} {content : List Char} (hcontent : Documents blocks content)
    {aggregate? : Option DeclarationText} (haggregate : ∀ d ∈ aggregate?, d.IsDocumented)
    (header : Line) (imports : List Import) (exports : List String) :
    Documents (blocks ++ (aggregate?.map (·.blocks indent)).getD [])
      (endLines (indexLines header indent imports content exports aggregate?)) := by
  have hown : Documents blocks (endLines (if content = [] then [] else [content])) := by
    split
    · next hnil => rwa [hnil] at hcontent
    · rw [endLines, List.flatMap_singleton]
      exact hcontent.append_text _
  have hlast : Documents ((aggregate?.map (·.blocks indent)).getD [])
      (endLines ((aggregate?.map (·.lines indent)).getD [])) := by
    cases aggregate? with
    | none => exact .nil _
    | some d => exact (haggregate d rfl).documents hindent
  rw [indexLines, endLines_append, endLines_append, endLines_append]
  exact (((documents_paragraph hown).prepend _).append_text _).append (documents_paragraph hlast)

section
variable {config : Config} {doc : List String}

theorem staysDocumented_nodeSource {node : SchemaNode}
    (hnode : node.Everywhere fun n => HasQuietKeywords n.note) {name source : String}
    (h : nodeSource config node name doc = .ok source) :
    ∃ lines texts indent, noteLines config node.note = .ok lines ∧
      declarationTexts config (lines ++ extraLines config doc) (declarations node name) = .ok texts ∧
        config.indent = .ok indent ∧ StaysDocumented (texts.flatMap (·.blocks indent)) source := by
  obtain ⟨lines, texts, indent, hlines, htexts, hindent, rfl⟩ := exists_of_nodeSource h
  have hquiet := (hnode node (SchemaNode.self_mem_subnodes node)).isQuiet
  have hdoc : ∀ line ∈ lines ++ extraLines config doc, holdsCommentEnd line = false :=
    List.forall_mem_append.mpr
      ⟨holdsCommentEnd_noteLines hquiet hlines, holdsCommentEnd_extraLines config doc⟩
  have hdocumented := isDocumented_declarationTexts (forall_notes_declarations hnode name) hdoc
    htexts
  refine ⟨lines, texts, indent, hlines, htexts, hindent, Documents.stays ?_⟩
  rw [String.toList_ofList]
  exact documents_declarationSource (eq_space_of_mem_indent hindent) hdocumented

theorem staysDocumented_objectTypeSource {name source : String} {members : List (String × String)}
    (h : objectTypeSource config name members doc = .ok source) :
    StaysDocumented (docBlocks [] (extraLines config doc)) source := by
  obtain ⟨indent, hindent, rfl⟩ := exists_of_map_eq_ok h
  let text := aggregateText (extraLines config doc) name.toList
    (members.map fun member => ((Naming.propertyKey member.1).toList, member.2.toList))
  have htext : ∀ d ∈ [text], d.IsDocumented := List.forall_mem_singleton.mpr
    (isDocumented_aggregateText (holdsCommentEnd_extraLines config doc) _ _)
  have hall := documents_declarationSource (eq_space_of_mem_indent hindent) htext
  rw [List.flatMap_singleton, blocks_aggregateText] at hall
  simp only [text, aggregateText, List.map_map] at hall
  refine Documents.stays ?_
  rw [String.toList_ofList]
  exact hall

theorem staysDocumented_indexPage {view : IndexView} {page : String}
    (h : indexPage config view = .ok page) {blocks : List (List Char)}
    (hcontent : Documents blocks (view.content?.getD "").toList) :
    StaysDocumented ((blocks ++
      view.aggregate?.elim [] fun _ => docBlocks [] (extraLines config view.doc)).map cleanLines)
        page := by
  obtain ⟨indent, hindent, rfl⟩ := exists_of_map_eq_ok h
  have haggregate : ∀ d ∈ aggregateOf? config view, d.IsDocumented := by
    rintro d hd
    obtain ⟨name, -, rfl⟩ := Option.map_eq_some_iff.mp hd
    exact isDocumented_aggregateText (holdsCommentEnd_extraLines config view.doc) _ _
  have hblocks : ((aggregateOf? config view).map (·.blocks indent)).getD [] =
      view.aggregate?.elim [] fun _ => docBlocks [] (extraLines config view.doc) := by
    rw [aggregateOf?]
    cases view.aggregate? with
    | none => rfl
    | some name => exact blocks_aggregateText indent _ _ _
  have hall := documents_indexLines (eq_space_of_mem_indent hindent) hcontent.trimNewlines
    haggregate config.header.plain.toList view.imports view.exports
  rw [hblocks] at hall
  refine Documents.stays ?_
  rw [String.toList_ofList]
  exact hall.formatChars

end

/-- No text of documentation ends the block it is written in.  The blocks in the source of a node
are those of its declarations and their properties, an object type has one block, and an index has
those of its own content and one for its aggregate type. -/
theorem staysDocumented_sources (config : Config) :
    (∀ node name doc source, node.Everywhere (fun n => HasQuietKeywords n.note) →
      nodeSource config node name doc = .ok source →
        ∃ lines texts indent, noteLines config node.note = .ok lines ∧
          declarationTexts config (lines ++ extraLines config doc) (declarations node name) =
            .ok texts ∧ config.indent = .ok indent ∧
              StaysDocumented (texts.flatMap (·.blocks indent)) source) ∧
    (∀ name members doc source, objectTypeSource config name members doc = .ok source →
      StaysDocumented (docBlocks [] (extraLines config doc)) source) ∧
    ∀ view page, indexPage config view = .ok page →
      ∀ blocks, Documents blocks (view.content?.getD "").toList →
        StaysDocumented ((blocks ++
          view.aggregate?.elim [] fun _ => docBlocks [] (extraLines config view.doc)).map cleanLines)
            page := by
  refine ⟨?_, ?_, ?_⟩
  · intro node name doc source hnode h
    exact staysDocumented_nodeSource hnode h
  · intro name members doc source h
    exact staysDocumented_objectTypeSource h
  · intro view page h blocks hcontent
    exact staysDocumented_indexPage h hcontent

/-- A document whose texts are ends of comments, whole or in parts. -/
def starredDocument : Json :=
  .obj [("type", .str "object"), ("description", .str "**//"),
    ("properties", .obj [("a", .obj [("type", .str "string"), ("pattern", .str "*\n/")])])]

/-- The note of the property in `starredDocument`. -/
def starredNote : Note := { constraints := [("pattern", .str "*\n/")] }

/-- The node of `starredDocument`. -/
def starredNode : SchemaNode :=
  .object [⟨"a", true, .primitive .string starredNote⟩] false { description := .str "**//" }

theorem declarations_starredNode : declarations starredNode "Foo" =
    [⟨"Foo", .interface [⟨"a", true, .primitive .string, starredNote⟩] false⟩] := by
  have hword : (sanitizer.claim "Foo").1 = "Foo" := by decide +kernel
  change ((bodyOf starredNode (sanitizer.claim "Foo").1 (sanitizer.claim "Foo").2).declare
    (sanitizer.claim "Foo").1).declarations = _
  rw [hword, starredNode, bodyOf]
  simp only [referFields, refer]
  rfl

/-- The texts of the declaration for `starredNode`. -/
theorem declarationTexts_starredNode (doc : List Line) :
    declarationTexts {} doc (declarations starredNode "Foo") =
      .ok [⟨doc, "Foo".toList, .interface [⟨["@pattern *\n/".toList],
        (Naming.propertyKey "a").toList, true, TypeExpr.chars (.primitive .string)⟩] none⟩] := by
  have hnote : noteLines {} starredNote = .ok ["@pattern *\n/".toList] := by cbv
  rw [declarations_starredNode, declarationTexts, declarationText]
  dsimp only
  rw [propertyTexts, hnote]
  rfl

/-- Ends of comments in all texts of a source, and of an index that has it as its content. -/
theorem staysDocumented_sources_starred :
    let blocks := ["/**\n * **\\//\n * /*\\/\n */".toList,
      "/**\n   * @pattern *\n/\n   */".toList]
    let view (source : String) : IndexView :=
      { path := "index.ts", exportName := "All", content? := some source, aggregate? := some "All"
        doc := ["*/"] }
    Schema.ofDocument starredDocument none (.ofInt 16) = .ok starredNode ∧
      (∃ source, objectTypeSource {} "Foo" [("a", "A")] ["/*/"] = .ok source ∧
        StaysDocumented ["/**\n * /*\\/\n */".toList] source) ∧
      ∃ source page, nodeSource {} starredNode "Foo" ["/*/"] = .ok source ∧
        indexPage {} (view source) = .ok page ∧ StaysDocumented blocks source ∧
          StaysDocumented (blocks ++ ["/**\n * *\\/\n */".toList]) page := by
  intro blocks view
  have hnode : Schema.ofDocument starredDocument none (.ofInt 16) = .ok starredNode := by cbv
  have hnote : noteLines {} starredNode.note = .ok ["**\\//".toList] := by cbv
  have hsource : ∃ source, nodeSource {} starredNode "Foo" ["/*/"] = .ok source := by
    rw [nodeSource, hnote]
    dsimp only
    rw [declarationTexts_starredNode]
    exact ⟨_, rfl⟩
  obtain ⟨source, hsource⟩ := hsource
  obtain ⟨hnodes, hobjects, hindexes⟩ := staysDocumented_sources {}
  obtain ⟨lines, texts, indent, hlines, htexts, hindent, hstays⟩ :=
    hnodes starredNode "Foo" ["/*/"] source (everywhere_hasQuietKeywords hnode) hsource
  cases hlines.symm.trans hnote
  cases htexts.symm.trans (declarationTexts_starredNode _)
  cases hindent
  have hblocks : StaysDocumented blocks source := hstays
  refine ⟨hnode, ⟨_, rfl, hobjects "Foo" [("a", "A")] ["/*/"] _ rfl⟩, source, _, hsource, rfl,
    hblocks, ?_⟩
  have hall : StaysDocumented ((blocks ++ docBlocks [] (extraLines {} ["*/"])).map cleanLines) _ :=
    hindexes (view source) _ rfl blocks hblocks.written
  have hclean : (blocks ++ docBlocks [] (extraLines {} ["*/"])).map cleanLines =
      blocks ++ ["/**\n * *\\/\n */".toList] := by
    decide +kernel
  rwa [hclean] at hall

end SchemaTypings.Typescript
