/-
  SchemaTypings.Proofs.Typescript.Scraped

  Which names are found at the beginnings of lines in the source of a node.  Descriptions are cut into
  lines before they are written.  Texts of constraints and extra documentation lines are not: a name
  at the beginning of a line that such a text has inside counts as well.  Nothing else adds a name,
  and neither clean format nor the header changes any.
-/
import SchemaTypings.Proofs.Schema.Subnode
import SchemaTypings.Proofs.Typescript.Forged
import SchemaTypings.Proofs.Typescript.Notes
import SchemaTypings.Proofs.Typescript.Source

namespace SchemaTypings.Typescript

/-! ## Declarations -/

/-- The documentation of the properties that a declaration lists. -/
def DeclarationForm.docs : DeclarationForm → List Line
  | .interface properties _ | .objectAlias properties _ => properties.flatMap (·.doc)
  | .alias _ => []

/-- Whether a declaration has a name that is found, and types on one line. -/
structure DeclarationText.IsOnLines (d : DeclarationText) : Prop where
  name : IsLineName d.name
  form : match d.form with
    | .interface properties index? | .objectAlias properties index? =>
      (∀ p ∈ properties, p.IsOnLine) ∧ ∀ type ∈ index?, '\n' ∉ type
    | .alias type => '\n' ∉ type

section
variable {indent : Line}

/-- A line that begins with a declaration has its name alone. -/
theorem lineNames_declared {kind name rest : List Char} (hkind : kind ∈ kindWords)
    (hname : IsLineName name) (hrest : '\n' ∉ rest) :
    lineNames ("export ".toList ++ (kind ++ [' ']) ++ (name ++ [' ']) ++ rest) =
      [String.ofList name] := by
  have hkinds : ∀ kind ∈ kindWords, '\n' ∉ kind := by decide
  have hline : '\n' ∉ "export ".toList ++ (kind ++ [' ']) ++ (name ++ [' ']) ++ rest := by
    simp [hkinds kind hkind, hname.newline_not_mem, hrest]
  rw [lineNames_of_not_mem hline, exportedName?_declared hkind hname]
  rfl

/-- An object type has the name that its head has, and those in the documentation of its
properties. -/
theorem flatMap_lineNames_objectLines (hindent : ∀ c ∈ indent, c = ' ') {head : Line} {name : String}
    (hhead : ∀ rest, '\n' ∉ rest → lineNames (head ++ rest) = [name])
    {properties : List PropertyText} (hproperties : ∀ p ∈ properties, p.IsOnLine)
    {index? : Option Line} (hindex : ∀ type ∈ index?, '\n' ∉ type) :
    (objectLines head indent properties index?).flatMap lineNames =
      name :: (properties.flatMap (·.doc)).flatMap forgedNames := by
  have hclose : lineNames ['\x7d'] = [] := rfl
  have hlines : (properties.flatMap (·.lines indent)).flatMap lineNames =
      (properties.flatMap (·.doc)).flatMap forgedNames := by
    rw [List.flatMap_assoc, List.flatMap_assoc]
    exact List.flatMap_congr fun p hp => (hproperties p hp).flatMap_lineNames hindent
  have hlast : ((index?.map fun type => indent ++ "[k: string]: ".toList ++ type).toList).flatMap
      lineNames = [] := by
    cases index? with
    | none => rfl
    | some type =>
      have hnewline : '\n' ∉ "k: string]: ".toList ++ type := by
        simp [hindex type rfl]
      have hline := lineNames_indented hindent (c := '[') (by decide) ("k: string]: ".toList ++ type)
      rw [forgedNames_of_not_mem hnewline] at hline
      simpa using hline
  rw [objectLines]
  split
  · next hempty =>
    rw [Bool.and_eq_true, List.isEmpty_iff] at hempty
    rw [hempty.1, List.flatMap_singleton, hhead _ (by decide)]
    rfl
  · rw [List.flatMap_append, List.flatMap_append, List.flatMap_cons, hhead _ (by decide), hlines,
      hlast, List.flatMap_singleton, hclose, List.append_nil, List.append_nil,
      List.singleton_append]

/-- A declaration has its name, and those in its documentation and that of its properties. -/
theorem DeclarationText.IsOnLines.flatMap_lineNames {d : DeclarationText} (h : d.IsOnLines)
    (hindent : ∀ c ∈ indent, c = ' ') :
    (d.lines indent).flatMap lineNames =
      d.doc.flatMap forgedNames ++ String.ofList d.name :: d.form.docs.flatMap forgedNames := by
  obtain ⟨doc, name, form⟩ := d
  have hkinds : "interface".toList ∈ kindWords ∧ "type".toList ∈ kindWords := by decide
  have hdoc := flatMap_lineNames_docBlock (List.forall_mem_nil (· = ' ')) doc
  simp only [List.nil_append, List.map_id'] at hdoc
  have hinterface : ∀ rest, '\n' ∉ rest →
      lineNames ("export interface ".toList ++ name ++ [' '] ++ rest) = [String.ofList name] := by
    intro rest hrest
    have hnames := lineNames_declared hkinds.1 h.name hrest
    simpa using hnames
  have htype : ∀ rest, '\n' ∉ rest →
      lineNames ("export type ".toList ++ name ++ " = ".toList ++ rest) = [String.ofList name] := by
    intro rest hrest
    have hequals : '\n' ∉ '=' :: ' ' :: rest := by
      simp [hrest]
    have hnames := lineNames_declared hkinds.2 h.name hequals
    simpa using hnames
  rw [DeclarationText.lines, List.flatMap_append, hdoc]
  congr 1
  -- The documentation is done with; what is left is what begins with the name.
  have hform := h.form
  rcases form with ⟨properties, index?⟩ | ⟨properties, index?⟩ | type
  · exact flatMap_lineNames_objectLines hindent hinterface hform.1 hform.2
  · exact flatMap_lineNames_objectLines hindent htype hform.1 hform.2
  · exact (List.flatMap_singleton _ _).trans (htype type hform)

theorem lineNames_declarationSource (hindent : ∀ c ∈ indent, c = ' ') {ds : List DeclarationText}
    (hds : ∀ d ∈ ds, d.IsOnLines) :
    lineNames (declarationSource indent ds) = ds.flatMap fun d =>
      d.doc.flatMap forgedNames ++ String.ofList d.name :: d.form.docs.flatMap forgedNames := by
  rw [declarationSource, lineNames_endLines]
  fun_induction declarationLines indent ds with
  | case1 => rfl
  | case2 d =>
    rw [List.flatMap_singleton]
    exact (hds d List.mem_cons_self).flatMap_lineNames hindent
  | case3 d next rest ih =>
    have hblank : lineNames [] = [] := rfl
    rw [List.forall_mem_cons] at hds
    rw [List.flatMap_append, List.flatMap_cons, hblank, List.nil_append, ih hds.2,
      hds.1.flatMap_lineNames hindent, List.flatMap_cons (x := d)]

end

/-! ## Notes -/

/-- The value of a constraint if it is a text that documentation takes over uncut; a default is
printed. -/
def uncutValue (keyword : String) : Json → List String
  | .str s => if keyword = "default" then [] else [s]
  | _ => []

/-- The texts of a note that its documentation takes over uncut. -/
def uncutTexts (note : Note) : List String :=
  note.constraints.flatMap fun (keyword, value) => uncutValue keyword value

/-- The names that uncut texts add where documentation is written. -/
def forgedBy (config : Config) (texts : List String) : List String :=
  if config.writesComments then texts.flatMap fun text => forgedNames text.toList else []

/-- Whether the keywords of a note stand on one line. -/
def HasPlainKeywords (note : Note) : Prop :=
  ∀ constraint ∈ note.constraints, '\n' ∉ constraint.1.toList

section
variable {config : Config}

@[simp] theorem forgedBy_nil (config : Config) : forgedBy config [] = [] := by
  unfold forgedBy
  split
  · rfl
  · rfl

theorem forgedBy_append (config : Config) (texts more : List String) :
    forgedBy config (texts ++ more) = forgedBy config texts ++ forgedBy config more := by
  unfold forgedBy
  split
  · exact List.flatMap_append
  · rfl

theorem forgedBy_eq_nil_iff {texts : List String} :
    forgedBy config texts = [] ↔
      (config.writesComments = true → ∀ text ∈ texts, forgedNames text.toList = []) := by
  unfold forgedBy
  split
  · next hcomments => simp [hcomments]
  · next hcomments => simp [hcomments]

theorem hasPlainKeywords_of_isRegular {node : SchemaNode} (h : node.IsRegular) :
    HasPlainKeywords node.note := by
  have hkeywords : ∀ keyword ∈ "integer" :: Schema.constraintKeywords, '\n' ∉ keyword.toList := by
    decide +kernel
  intro constraint hconstraint
  have hmem : constraint.1 ∈ node.note.constraints.keys := List.mem_map_of_mem hconstraint
  exact hkeywords _ (List.mem_cons.mpr (h.keyword _ hmem))

/-- The line of a constraint has the names of its value if that is taken over. -/
theorem forgedNames_constraintLine {keyword : String} (hkeyword : '\n' ∉ keyword.toList)
    (value : Json) : forgedNames (constraintLine keyword value) =
      (uncutValue keyword value).flatMap fun text => forgedNames text.toList := by
  have hbare : '\n' ∉ '@' :: keyword.toList := by
    simp [hkeyword]
  have hfront : '\n' ∉ '@' :: keyword.toList ++ [' '] := by
    simp [hkeyword]
  have hline : ∀ text, forgedNames (commentLine ('@' :: keyword.toList ++ ' ' :: text)) =
      forgedNames text := by
    intro text
    rw [forgedNames_commentLine, List.append_cons, forgedNames_append hfront]
  have hprinted : forgedNames (commentLine ('@' :: keyword.toList ++ ' ' :: value.chars)) = [] := by
    rw [hline, forgedNames_of_not_mem (newline_not_mem_json value)]
  cases value with
  | bool b =>
    cases b with
    | false => exact hprinted
    | true => exact forgedNames_of_not_mem hbare
  | str s =>
    rw [constraintLine, uncutValue]
    split
    · exact hprinted
    · exact (hline s.toList).trans (List.append_nil _).symm
  | _ => exact hprinted

theorem forgedNames_of_mem_descriptionLines {description : Json} {lines : List Line}
    (h : descriptionLines description = .ok lines) : ∀ line ∈ lines, forgedNames line = [] := by
  unfold descriptionLines at h
  split at h
  · split at h
    · cases h
      rw [List.forall_mem_map]
      intro line hline
      rw [forgedNames_commentLine]
      exact forgedNames_of_not_mem (Text.not_mem_of_mem_splitAt '\n' _ line hline)
    · cases h
  · cases h
    exact List.forall_mem_nil _

/-- The documentation of a note has the names of its uncut texts. -/
theorem flatMap_forgedNames_noteLines {note : Note} (hnote : HasPlainKeywords note)
    {lines : List Line} (h : noteLines config note = .ok lines) :
    lines.flatMap forgedNames = forgedBy config (uncutTexts note) := by
  rw [noteLines] at h
  rw [forgedBy]
  split at h
  · next hcomments =>
    obtain ⟨described, hdescribed, rfl⟩ := exists_of_map_eq_ok h
    have hnone := List.flatMap_eq_nil_iff.mpr (forgedNames_of_mem_descriptionLines hdescribed)
    rw [if_pos hcomments, List.flatMap_append, hnone, List.nil_append, uncutTexts,
      List.flatMap_map, List.flatMap_assoc]
    exact List.flatMap_congr fun constraint hconstraint =>
      forgedNames_constraintLine (hnote constraint hconstraint) constraint.2
  · next hcomments =>
    cases h
    rw [if_neg hcomments]
    rfl

theorem flatMap_forgedNames_extraLines (doc : List String) :
    (extraLines config doc).flatMap forgedNames = forgedBy config doc := by
  rw [extraLines, forgedBy]
  split
  · rw [List.flatMap_map]
    exact List.flatMap_congr fun line _ => forgedNames_commentLine line.toList
  · rfl

/-! ## Texts -/

theorem newline_not_mem_of_isNamed {t : TypeExpr} (h : t.IsNamed) : '\n' ∉ t.chars :=
  t.newline_not_mem_chars fun name hname => (h name hname).isLineName.newline_not_mem

/-- The texts of properties are on lines of their own, and their documentation has the names of the
uncut texts of their notes. -/
theorem isOnLine_propertyTexts {properties : List Property}
    (hproperties : ∀ p ∈ properties, p.IsNamed ∧ HasPlainKeywords p.note)
    {texts : List PropertyText} (h : propertyTexts config properties = .ok texts) :
    (∀ text ∈ texts, text.IsOnLine) ∧ (texts.flatMap (·.doc)).flatMap forgedNames =
      forgedBy config ((properties.map (·.note)).flatMap uncutTexts) := by
  induction properties generalizing texts with
  | nil =>
    cases h
    exact ⟨List.forall_mem_nil _, (forgedBy_nil config).symm⟩
  | cons p rest ih =>
    rw [List.forall_mem_cons] at hproperties
    obtain ⟨doc, more, hdoc, hmore, rfl⟩ := exists_of_propertyTexts_cons h
    obtain ⟨hlines, hnames⟩ := ih hproperties.2 hmore
    refine ⟨List.forall_mem_cons.mpr ⟨⟨⟨p.name, rfl⟩, ?_⟩, hlines⟩, ?_⟩
    · exact newline_not_mem_of_isNamed hproperties.1.1.type
    · rw [List.flatMap_cons, List.flatMap_append, hnames, List.map_cons, List.flatMap_cons,
        forgedBy_append, flatMap_forgedNames_noteLines hproperties.1.2 hdoc]

/-- Whether a declaration has names that can be declared, and notes with keywords on one line. -/
def Declaration.IsPlain (d : Declaration) : Prop :=
  d.IsNamed ∧ ∀ note ∈ d.body.notes, HasPlainKeywords note

/-- The text of a declaration is on lines of its own, and the documentation of its properties has the
names of the uncut texts of their notes. -/
theorem isOnLines_declarationText {d : Declaration} (hd : d.IsPlain) {doc : List Line}
    {text : DeclarationText} (h : declarationText config doc d = .ok text) :
    text.IsOnLines ∧ text.doc = doc ∧ String.ofList text.name = d.name ∧
      text.form.docs.flatMap forgedNames = forgedBy config (d.body.notes.flatMap uncutTexts) := by
  obtain ⟨hnamed, hnotes⟩ := hd
  have hline := hnamed.name.isLineName
  have hbody := hnamed.body
  obtain ⟨form, rfl, ⟨properties, isOpen, texts, heq, htexts, rfl⟩ | ⟨t, heq, rfl⟩⟩ :=
    exists_of_declarationText h
  · rw [heq] at hbody hnotes ⊢
    have hproperties : ∀ p ∈ properties, p.IsNamed ∧ HasPlainKeywords p.note :=
      fun p hp => ⟨hbody p hp, hnotes p.note (List.mem_map_of_mem hp)⟩
    obtain ⟨hlines, hnames⟩ := isOnLine_propertyTexts hproperties htexts
    refine ⟨⟨hline, hlines, ?_⟩, rfl, String.ofList_toList, hnames⟩
    intro type htype
    rw [eq_any_of_mem_openIndex? htype]
    decide
  · rw [heq] at hbody ⊢
    exact ⟨⟨hline, newline_not_mem_of_isNamed hbody⟩, rfl, String.ofList_toList,
      (forgedBy_nil config).symm⟩

/-- The source of declarations has their names, behind those in the documentation of the first, and
each before the names that the uncut texts of its notes add. -/
theorem lineNames_declarationTexts {indent : Line} (hindent : ∀ c ∈ indent, c = ' ')
    {ds : List Declaration} (hds : ∀ d ∈ ds, d.IsPlain) {doc : List Line} (hdoc : ds = [] → doc = [])
    {texts : List DeclarationText} (h : declarationTexts config doc ds = .ok texts) :
    lineNames (declarationSource indent texts) = doc.flatMap forgedNames ++
      ds.flatMap fun d => d.name :: forgedBy config (d.body.notes.flatMap uncutTexts) := by
  have htexts : (∀ text ∈ texts, text.IsOnLines) ∧
      (texts.flatMap fun text => text.doc.flatMap forgedNames ++
        String.ofList text.name :: text.form.docs.flatMap forgedNames) =
      doc.flatMap forgedNames ++
        ds.flatMap fun d => d.name :: forgedBy config (d.body.notes.flatMap uncutTexts) := by
    induction ds generalizing doc texts with
    | nil =>
      cases h
      rw [hdoc rfl]
      exact ⟨List.forall_mem_nil _, rfl⟩
    | cons d rest ih =>
      rw [List.forall_mem_cons] at hds
      obtain ⟨text, more, htext, hmore, rfl⟩ := exists_of_declarationTexts_cons h
      -- The documentation belongs to the first declaration: the rest is written without.
      obtain ⟨hlines, hnames⟩ := ih hds.2 (fun _ => rfl) hmore
      obtain ⟨hline, hdocs, hname, hforged⟩ := isOnLines_declarationText hds.1 htext
      refine ⟨List.forall_mem_cons.mpr ⟨hline, hlines⟩, ?_⟩
      rw [List.flatMap_cons, hnames, List.flatMap_cons, hdocs, hname, hforged, List.append_assoc]
      rfl
  rw [lineNames_declarationSource hindent htexts.1, htexts.2]

/-! ## Sources -/

/-- The names that are found in the source for a regular node: those in its own documentation, then
the declared ones, each before what the notes of its properties add. -/
theorem exportedNames_nodeSource {node : SchemaNode} (hnode : node.Everywhere SchemaNode.IsRegular)
    {name source : String} {doc : List String} (h : nodeSource config node name doc = .ok source) :
    exportedNames source = forgedBy config (uncutTexts node.note ++ doc) ++
      (declarations node name).flatMap fun d =>
        d.name :: forgedBy config (d.body.notes.flatMap uncutTexts) := by
  have hkeywords : node.Everywhere fun n => HasPlainKeywords n.note :=
    fun n hn => hasPlainKeywords_of_isRegular (hnode n hn)
  have hds : ∀ d ∈ declarations node name, d.IsPlain := fun d hd =>
    ⟨isNamed_declarations hnode name d hd, forall_notes_declarations hkeywords name d hd⟩
  obtain ⟨lines, texts, indent, hlines, htexts, hindent, rfl⟩ := exists_of_nodeSource h
  have hnote := flatMap_forgedNames_noteLines
    (hkeywords node (SchemaNode.self_mem_subnodes node)) hlines
  rw [exportedNames_eq_lineNames, String.toList_ofList,
    lineNames_declarationTexts (eq_space_of_mem_indent hindent) hds (fun hnil => by cases hnil)
      htexts, List.flatMap_append, hnote, flatMap_forgedNames_extraLines, forgedBy_append]

end

/-- Names with others in front of all and behind each are the names alone exactly if there are no
others. -/
theorem append_flatMap_cons_eq_map_iff {α β : Type} {f : α → β} {g : α → List β} {as : List α}
    {front : List β} :
    front ++ as.flatMap (fun a => f a :: g a) = as.map f ↔
      front = [] ∧ ∀ a ∈ as, g a = [] := by
  induction as generalizing front with
  | nil => simp
  | cons a rest ih =>
    rw [List.flatMap_cons, List.map_cons, List.forall_mem_cons]
    cases front with
    | nil =>
      rw [List.nil_append, List.cons_append, List.cons.injEq, ih]
      simp
    | cons b front =>
      -- One name too many stands in front of those of the rest.
      rw [List.cons_append, List.cons.injEq, ← List.append_assoc, ih]
      simp

/-- The uncut texts in the documentation of the declarations for a node. -/
def documentationTexts (node : SchemaNode) (name : String) (doc : List String) : List String :=
  uncutTexts node.note ++ doc ++
    (declarations node name).flatMap fun d => d.body.notes.flatMap uncutTexts

/-- The declared names are all that is found exactly if no uncut text adds a name. -/
theorem exportedNames_nodeSource_eq_iff {config : Config} {node : SchemaNode}
    (hnode : node.Everywhere SchemaNode.IsRegular) {name source : String} {doc : List String}
    (h : nodeSource config node name doc = .ok source) :
    exportedNames source = declaredNames node name ↔
      (config.writesComments = true →
        ∀ text ∈ documentationTexts node name doc, forgedNames text.toList = []) := by
  have hforged : forgedBy config (documentationTexts node name doc) = [] ↔
      forgedBy config (uncutTexts node.note ++ doc) = [] ∧
        ∀ d ∈ declarations node name, forgedBy config (d.body.notes.flatMap uncutTexts) = [] := by
    simp only [documentationTexts, forgedBy_eq_nil_iff, List.forall_mem_append, List.mem_flatMap,
      forall_exists_index, and_imp]
    constructor
    · intro hall
      refine ⟨fun hcomments => (hall hcomments).1, fun d hd hcomments text note hnote htext => ?_⟩
      exact (hall hcomments).2 text d hd note hnote htext
    · rintro ⟨hown, hothers⟩ hcomments
      exact ⟨hown hcomments, fun text d hd note hnote htext =>
        hothers d hd hcomments text note hnote htext⟩
  rw [← forgedBy_eq_nil_iff, hforged, exportedNames_nodeSource hnode h, declaredNames,
    append_flatMap_cons_eq_map_iff]

/-! ## Files -/

/-- A file under a header without names has the names of its body. -/
theorem exportedNames_file {config : Config} (hheader : exportedNames config.header.plain = [])
    {body page : String} (h : file config body = .ok page) :
    exportedNames page = exportedNames body := by
  have hbody := lineNames_trimNewlines body.toList
  rw [file] at h
  split at h
  · split at h
    · next header hconfig =>
      obtain rfl := Except.ok.inj h
      have hnone : lineNames header.toList = [] := by
        rw [hconfig] at hheader
        exact hheader
      -- Two line feeds part header and body, so that there is a line without a character between.
      have hblank := lineNames_append_newline [] (Text.trimNewlines body.toList)
      rw [exportedNames_eq_lineNames, String.toList_ofList, lineNames_formatChars,
        lineNames_append_newline, lineNames_trimNewlines, hnone]
      exact hblank.trans hbody
    · cases h
  · obtain rfl := Except.ok.inj h
    rw [exportedNames_eq_lineNames, String.toList_ofList, lineNames_formatChars]
    exact hbody

/-- For every converted document with texts for descriptions, name and documentation lines, with
comments and without, the source is written, and under the default header it has the names that it
has alone.  They are the declared names, in order, exactly if no text that documentation takes over
uncut has a name at the beginning of one of its lines, the first apart. -/
theorem exportedNames_file_nodeSource_of_ofDocument {document : Json}
    {external? : Option (Json → Except Fault Json)} {limit : Schema.ReferenceLimit}
    {node : SchemaNode} (h : Schema.ofDocument document external? limit = .ok node)
    (hdescriptions : node.Everywhere fun n =>
      n.note.description.isTruthy = true → ∃ s, n.note.description = .str s)
    (name : String) (doc : List String) (comments : Bool) :
    let config : Config := { addComments := .bool comments }
    ∃ source page, nodeSource config node name doc = .ok source ∧ file config source = .ok page ∧
      exportedNames page = exportedNames source ∧
      (exportedNames source = declaredNames node name ↔
        (comments = true →
          ∀ text ∈ documentationTexts node name doc, forgedNames text.toList = [])) := by
  intro config
  have hindent : config.indent = .ok [' ', ' '] := rfl
  have hheader : exportedNames config.header.plain = [] := by
    change exportedNames defaultHeader = []
    decide +kernel
  obtain ⟨source, hsource⟩ := exists_nodeSource hindent hdescriptions name doc
  obtain ⟨page, hpage⟩ : ∃ page, file config source = .ok page := ⟨_, rfl⟩
  have hregular := Schema.everywhere_isRegular_of_ofDocument h
  exact ⟨source, page, hsource, hpage, exportedNames_file hheader hpage,
    exportedNames_nodeSource_eq_iff hregular hsource⟩

/-- A text whose pattern has a line in it that exports a name. -/
def forgingDocument : Json :=
  .obj [("type", .str "string"), ("pattern", .str "x\nexport type Evil = 1")]

/-- What the document is converted to. -/
def forgingNode : SchemaNode :=
  .primitive .string { constraints := [("pattern", .str "x\nexport type Evil = 1")] }

theorem exportedNames_file_nodeSource_forgingDocument :
    Schema.ofDocument forgingDocument none (.ofInt 16) = .ok forgingNode ∧
      ∃ source page, nodeSource {} forgingNode "Foo" [] = .ok source ∧
        file {} source = .ok page ∧ exportedNames page = exportedNames source ∧
          exportedNames source = ["Evil", "Foo"] ∧ declaredNames forgingNode "Foo" = ["Foo"] ∧
            exportedNames source ≠ declaredNames forgingNode "Foo" := by
  have hconvert : Schema.ofDocument forgingDocument none (.ofInt 16) = .ok forgingNode := by cbv
  have hdescriptions : forgingNode.Everywhere fun n =>
      n.note.description.isTruthy = true → ∃ s, n.note.description = .str s := by
    intro n hn htruthy
    rw [List.mem_singleton.mp hn] at htruthy
    cases htruthy
  have hdeclared : declarations forgingNode "Foo" = [⟨"Foo", .alias (.primitive .string)⟩] := by
    have hword : (sanitizer.claim "Foo").1 = "Foo" := by decide +kernel
    change [Declaration.mk (sanitizer.claim "Foo").1 (.alias (.primitive .string))] = _
    rw [hword]
  have hforged : forgedNames "x\nexport type Evil = 1".toList = ["Evil"] := by decide +kernel
  obtain ⟨source, page, hsource, hpage, hsame, hiff⟩ :=
    exportedNames_file_nodeSource_of_ofDocument hconvert hdescriptions "Foo" [] true
  have hdiffer : exportedNames source ≠ declaredNames forgingNode "Foo" := by
    intro heq
    have hnone := hiff.mp heq rfl "x\nexport type Evil = 1" (by decide +kernel)
    rw [hforged] at hnone
    cases hnone
  have hnames : exportedNames source = ["Evil", "Foo"] := by
    have hregular := Schema.everywhere_isRegular_of_ofDocument hconvert
    rw [exportedNames_nodeSource hregular hsource, hdeclared]
    decide +kernel
  refine ⟨hconvert, source, page, hsource, hpage, hsame, hnames, ?_, hdiffer⟩
  rw [declaredNames, hdeclared]
  rfl

end SchemaTypings.Typescript
