/-
  SchemaTypings.Proofs.Package.Standard

  What the standard builders make under the default settings.  The trees of a definition are those of
  its sections, each in a directory of its own.  A module whose types are all texts follows from the
  name that its type gets and the place of its file, so that neither a conversion nor the text of a
  page has to be computed.
-/
import SchemaTypings.Package
import SchemaTypings.Proofs.Section.Module
import SchemaTypings.Proofs.Typescript.Scraped

namespace SchemaTypings

open Typescript (sanitizer typeName)

/-! ## Sections -/

theorem standard_get (kind : SectionKind) :
    Registry.standard.get kind.name = .ok (.standard kind) := by
  cases kind with
  | _ => rfl

theorem findBuilders_standard (kinds : List SectionKind) :
    findBuilders .standard kinds = .ok (kinds.map fun kind => (kind, kind.name)) := by
  induction kinds with
  | nil => rfl
  | cons kind rest ih =>
    rw [findBuilders, standard_get, ih]
    rfl

/-- There is no first failure exactly if there is none at all. -/
theorem firstFailure?_eq_none_iff {built : List (SectionKind × Except Failure OutputTree)} :
    firstFailure? built = none ↔ ∀ result ∈ built, ∃ tree, result.2 = .ok tree := by
  rw [firstFailure?, List.findSome?_eq_none_iff]
  constructor
  · rintro h ⟨kind, result⟩ hresult
    have hrank : kind.rank ∈ [0, 1, 2] := by
      cases kind with
      | _ => decide
    have hnone := List.findSome?_eq_none_iff.mp (h kind.rank hrank) (kind, result) hresult
    cases result with
    | ok tree => exact ⟨tree, rfl⟩
    | error e => simp at hnone
  · rintro h rank -
    rw [List.findSome?_eq_none_iff]
    rintro ⟨kind, result⟩ hresult
    obtain ⟨tree, rfl⟩ := h _ hresult
    rfl

/-- Where all have succeeded the successes are in the order of what they come from. -/
theorem filterMap_toOption_eq_iff {α β ε τ : Type} {f : α → β × Except ε τ} {as : List α}
    {trees : List τ} (h : ∀ a ∈ as, ∃ tree, (f a).2 = .ok tree) :
    ((as.map f).filterMap fun result => result.2.toOption) = trees ↔
      List.Forall₂ (fun a tree => (f a).2 = .ok tree) as trees := by
  induction as generalizing trees with
  | nil => simp [eq_comm]
  | cons a rest ih =>
    rw [List.forall_mem_cons] at h
    obtain ⟨⟨tree, htree⟩, hrest⟩ := h
    have hfirst : (f a).2.toOption = some tree := by
      rw [htree]
      rfl
    rw [List.map_cons, List.filterMap_cons, hfirst, List.forall₂_cons_left_iff]
    constructor
    · rintro rfl
      exact ⟨tree, _, htree, (ih hrest).mp rfl, rfl⟩
    · rintro ⟨other, more, hother, hmore, rfl⟩
      obtain rfl : tree = other := Except.ok.inj (htree.symm.trans hother)
      rw [(ih hrest).mpr hmore]

/-- What the standard builder of a section makes of a definition, in the directory of the section. -/
def Toolkit.placedSection (t : Toolkit) (definition : Definition) (kind : SectionKind) :
    Except Failure OutputTree :=
  (t.sectionTree kind definition).map (OutputTree.moveUnder · [kind.name])

theorem Toolkit.placedSection_eq_ok_iff {t : Toolkit} {definition : Definition} {kind : SectionKind}
    {tree : OutputTree} : t.placedSection definition kind = .ok tree ↔
      ∃ raw, t.sectionTree kind definition = .ok raw ∧ raw.moveUnder [kind.name] = tree := by
  refine ⟨exists_of_map_eq_ok, ?_⟩
  rintro ⟨raw, hraw, rfl⟩
  rw [placedSection, hraw]
  rfl

theorem sectionTrees_standard (t : Toolkit) (definition : Definition) :
    sectionTrees t .standard definition =
      match firstFailure? (definition.sections.map fun kind =>
        (kind, t.placedSection definition kind)) with
      | some e => .error e
      | none => .ok ((definition.sections.map fun kind =>
          (kind, t.placedSection definition kind)).filterMap fun result => result.2.toOption) := by
  rewrite [sectionTrees, findBuilders_standard]
  dsimp only
  rewrite [List.map_map]
  rfl

/-- The trees of the sections are those of their builders, each under its directory. -/
theorem sectionTrees_eq_ok_iff {t : Toolkit} {definition : Definition} {trees : List OutputTree} :
    sectionTrees t .standard definition = .ok trees ↔
      List.Forall₂ (fun kind tree => ∃ raw, t.sectionTree kind definition = .ok raw ∧
        raw.moveUnder [kind.name] = tree) definition.sections trees := by
  simp only [sectionTrees_standard, ← Toolkit.placedSection_eq_ok_iff]
  split
  · next e hsome =>
    refine ⟨nofun, fun h => ?_⟩
    -- every section has a tree beside it, so that none of them has failed
    have hnone : firstFailure? (definition.sections.map fun kind =>
        (kind, t.placedSection definition kind)) = none := by
      rw [firstFailure?_eq_none_iff, List.forall_mem_map]
      exact fun kind hkind => (exists_right_of_forall₂ h hkind).imp fun _ hp => hp.2
    rw [hnone] at hsome
    cases hsome
  · next hnone =>
    rw [firstFailure?_eq_none_iff, List.forall_mem_map] at hnone
    rw [Except.ok.injEq]
    exact filterMap_toOption_eq_iff hnone

/-! ## Texts -/

/-- The schema of texts. -/
def textSchema : SchemaObject := [("type", .str "string")]

theorem ofDocument_textSchema :
    Schema.ofDocument (.obj textSchema) none (.ofInt 16) = .ok (.primitive .string {}) := by
  cbv

theorem node_textSchema : Toolkit.node {} (.obj textSchema) = .ok (.primitive .string {}) :=
  congrArg (Except.mapError ConversionError.toFailure) ofDocument_textSchema

/-- The declaration of a type of texts. -/
def textSource (declared : String) (doc : List String) : String :=
  String.ofList (Typescript.declarationSource [' ', ' ']
    [⟨Typescript.extraLines .default doc, declared.toList, .alias "string".toList⟩])

/-- The page of a type of texts. -/
def textPage (declared : String) (doc : List String) : String :=
  String.ofList (Typescript.formatChars (Text.trimNewlines defaultHeader.toList ++
    '\n' :: '\n' :: Text.trimNewlines (textSource declared doc).toList))

/-- The module of a type of texts, in a file of its own. -/
def textModule (exportName declared path : String) (key? : Option String := none)
    (doc : List String := []) : OutputModule :=
  { exportName, source := .content path (textPage declared doc), key?, names := [declared] }

theorem Path.normalizeString?_index : Path.normalizeString? "index.ts" = some "index.ts" := by
  decide +kernel

section
variable {name type declared path own : String} {doc : List String}

theorem nodeSource_text (h : (sanitizer.claim type).1 = declared) :
    Typescript.nodeSource .default (.primitive .string {}) type doc =
      .ok (textSource declared doc) := by
  have hsource : Typescript.nodeSource .default (.primitive .string {}) type doc =
      .ok (textSource (sanitizer.claim type).1 doc) := rfl
  rw [hsource, h]

theorem typeSource_text (h : (sanitizer.claim type).1 = declared) :
    Typescript.typeSource .default (.primitive .string {}) type doc =
      .ok (textSource declared doc) :=
  Typescript.typeSource_eq_ok_iff.mpr ⟨rfl, rfl, nodeSource_text h⟩

theorem exportedNames_textSource (h : (sanitizer.claim type).1 = declared)
    (hdoc : Typescript.forgedBy .default doc = []) :
    Typescript.exportedNames (textSource declared doc) = [declared] := by
  have hdeclarations : Typescript.declarations (.primitive .string {}) type =
      [⟨declared, .alias (.primitive .string)⟩] := by
    change [Typescript.Declaration.mk (sanitizer.claim type).1 (.alias (.primitive .string))] = _
    rw [h]
  have hsource : Typescript.nodeSource .default (.primitive .string {}) type doc =
      .ok (textSource declared doc) := nodeSource_text h
  have hnames := Typescript.exportedNames_nodeSource
    (Schema.everywhere_isRegular_of_ofDocument ofDocument_textSchema) hsource
  rw [hdeclarations] at hnames
  exact hnames.trans (congrArg (· ++ [declared]) hdoc)

namespace Toolkit

theorem schemaSource_textSchema (h : (sanitizer.claim type).1 = declared) :
    schemaSource {} (.obj textSchema) type doc = .ok (textSource declared doc) := by
  rw [schemaSource, node_textSchema]
  dsimp only
  rw [typeSource_text h]

theorem contentModule_textSource (h : (sanitizer.claim type).1 = declared)
    (hdoc : Typescript.forgedBy .default doc = []) (hpath : Path.normalizeString? path = some own)
    (exportName : String) (key? : Option String) :
    contentModule {} exportName path (textSource declared doc) key? =
      .ok (.leaf (textModule exportName declared own key? doc)) := by
  have hfile : Typescript.file .default (textSource declared doc) = .ok (textPage declared doc) := rfl
  rw [contentModule]
  dsimp only
  rw [hfile]
  simp only [OutputModule.ofDescription, OutputModule.Description.source,
    OutputModule.Description.kind, OutputModule.Description.textSource, OutputModule.normalPath, hpath,
    exportedNames_textSource h hdoc]
  rfl

theorem schemaModule_textSchema (h : (sanitizer.claim type).1 = declared)
    (hdoc : Typescript.forgedBy .default doc = [])
    (hpath : Path.normalizeString? (fileName {} name) = some own) :
    schemaModule {} type name textSchema doc =
      .ok (.leaf (textModule type declared own (some name) doc)) := by
  rw [schemaModule, schemaSource_textSchema h]
  simp only [bind, Except.bind, contentModule_textSource h hdoc hpath]

theorem eventModule_textSchema (htype : typeName name = type)
    (h : (sanitizer.claim type).1 = declared)
    (hpath : Path.normalizeString? (fileName {} name) = some own) :
    eventModule {} name ⟨textSchema, {}⟩ = .ok (.leaf (textModule type declared own (some name))) := by
  rw [eventModule, htype]
  exact schemaModule_textSchema h rfl hpath

theorem stateModule_textSchema {scope : StateScope} (htype : typeName name = type)
    (h : (sanitizer.claim type).1 = declared)
    (hdoc : Typescript.forgedBy .default ["@scope " ++ scope.name] = [])
    (hpath : Path.normalizeString? (fileName {} name) = some own) :
    stateModule {} name { schema := textSchema, scope } =
      .ok (.leaf (textModule type declared own (some name) ["@scope " ++ scope.name])) := by
  rw [stateModule, htype]
  exact schemaModule_textSchema h hdoc hpath

/-- The type of a message has that of its channel in front. -/
theorem messageModule_textSchema {channelType : String} (htype : channelType ++ typeName name = type)
    (h : (sanitizer.claim type).1 = declared)
    (hpath : Path.normalizeString? (fileName {} name) = some own) :
    messageModule {} channelType name ⟨textSchema, {}⟩ =
      .ok (.leaf (textModule type declared own (some name))) := by
  rw [messageModule, htype]
  exact schemaModule_textSchema h rfl hpath

/-- An index under the default settings. -/
def defaultIndex (exportName : String) (key? aggregate? : Option String) (doc : List String)
    (directories : List String := []) : OutputModule :=
  { exportName, source := .reexport (some "index.ts") aggregate?, key?, doc, directories
    renderer? := some (Typescript.renderer .default) }

theorem indexModule_default (exportName : String) (key? aggregate? : Option String)
    (doc : List String) : indexModule {} exportName key? aggregate? doc =
      .ok (defaultIndex exportName key? aggregate? doc) := by
  have hfile : Config.default.indexFile = "index.ts" := rfl
  simp only [indexModule, hfile, OutputModule.ofDescription, OutputModule.Description.source,
    OutputModule.Description.kind, OutputModule.normalPath, Path.normalizeString?_index]
  rfl

/-- The index of a section over the trees of its entries. -/
def sectionOf (exportName key : String) (trees : List OutputTree) (directories : List String := [])
    (doc : List String := []) : OutputTree :=
  .node (defaultIndex exportName (some key) (some exportName) doc directories) trees

theorem moveUnder_sectionOf {exportName key : String} {trees : List OutputTree}
    {segments directories : List String} (h : OutputModule.cleanSegments segments = directories) :
    (sectionOf exportName key trees [] doc).moveUnder segments =
      sectionOf exportName key trees directories doc := by
  simp only [sectionOf, OutputTree.moveUnder, Tree.withValue, Tree.value, Tree.children,
    OutputModule.moveUnder, h, defaultIndex, List.append_nil]

theorem aggregateIndex_default {α : Type} (exportName key : String)
    {build : String → α → Except Failure OutputTree} {entries : Entries α} {trees : List OutputTree}
    (h : buildEach build entries = .ok trees) :
    aggregateIndex {} exportName key doc build entries =
      .ok (sectionOf exportName key trees [] doc) := by
  rw [aggregateIndex, indexModule_default, h]
  rfl

theorem channelModule_default {channel : ChannelDefinition} {trees : List OutputTree}
    {directories : List String} (htype : typeName name = type)
    (hdirectories : OutputModule.cleanSegments [Naming.kebabCase name] = directories)
    (h : buildEach (messageModule {} type) channel.messages = .ok trees) :
    channelModule {} name channel = .ok (sectionOf type name trees directories channel.docLines) := by
  rw [← moveUnder_sectionOf hdirectories]
  simp only [channelModule, htype, aggregateIndex_default type name h, bind, Except.bind]
  rfl

/-- The tree of a configuration that is a text. -/
def configurationOfTexts (directories : List String := []) : OutputTree :=
  .node (defaultIndex "Configuration" (some "configuration") none [] directories)
    [OutputTree.leaf (textModule "Configuration" "Configuration" "configuration.ts")]

theorem configurationTree_textSchema : configurationTree {} textSchema = .ok configurationOfTexts := by
  have hclaim : (sanitizer.claim "Configuration").1 = "Configuration" := by decide +kernel
  have hfile : "configuration" ++ Config.default.fileExtension = "configuration.ts" := by decide
  have hcontent : contentModule {} "Configuration" "configuration.ts"
      (textSource "Configuration" []) none =
        .ok (.leaf (textModule "Configuration" "Configuration" "configuration.ts")) :=
    contentModule_textSource hclaim rfl (by decide +kernel) "Configuration" none
  simp only [configurationTree, schemaSource_textSchema hclaim, indexModule_default, hfile, hcontent,
    bind, Except.bind]
  rfl

end Toolkit

end

/-! ## Sections of texts -/

section
open Toolkit

/-- The trees of a bot whose configuration is a text. -/
def botSections (events states : List OutputTree) : List OutputTree :=
  [configurationOfTexts ["configuration"], sectionOf "Events" "events" events ["events"],
    sectionOf "States" "states" states ["states"]]

/-- The trees of an installed instance whose configuration is a text. -/
def instanceSections (events states actions channels : List OutputTree) : List OutputTree :=
  botSections events states ++
    [sectionOf "Actions" "actions" actions ["actions"],
      sectionOf "Channels" "channels" channels ["channels"]]

theorem cleanSegments_name (kind : SectionKind) :
    OutputModule.cleanSegments [kind.name] = [kind.name] := by
  cases kind with
  | _ => decide +kernel

variable {definition : Definition} {events states actions channels : List OutputTree}

/-- The tree of an aggregated section in the directory of the section. -/
theorem exists_sectionTree {kind : SectionKind} {exportName : String} {trees : List OutputTree}
    (h : sectionTree {} kind definition = .ok (sectionOf exportName kind.name trees)) :
    ∃ raw, sectionTree {} kind definition = .ok raw ∧
      raw.moveUnder [kind.name] = sectionOf exportName kind.name trees [kind.name] :=
  ⟨_, h, moveUnder_sectionOf (cleanSegments_name kind)⟩

/-- The tree of a configuration that is a text in its directory. -/
theorem exists_configurationTree (h : definition.base.configuration = textSchema) :
    ∃ raw, sectionTree {} .configuration definition = .ok raw ∧
      raw.moveUnder [SectionKind.configuration.name] = configurationOfTexts ["configuration"] := by
  refine ⟨configurationOfTexts, by rw [sectionTree, h, configurationTree_textSchema], ?_⟩
  simp only [configurationOfTexts, OutputTree.moveUnder, Tree.withValue, Tree.value, Tree.children,
    OutputModule.moveUnder, cleanSegments_name, defaultIndex, List.append_nil]
  rfl

theorem sectionTrees_bot {b : BotDefinition} (hconfiguration : b.configuration = textSchema)
    (hevents : buildEach (eventModule {}) b.events = .ok events)
    (hstates : buildEach (stateModule {}) b.states = .ok states) :
    sectionTrees {} .standard (.bot b) = .ok (botSections events states) :=
  sectionTrees_eq_ok_iff.mpr (.cons (exists_configurationTree hconfiguration)
    (.cons (exists_sectionTree (aggregateIndex_default _ _ hevents))
      (.cons (exists_sectionTree (aggregateIndex_default _ _ hstates)) .nil)))

theorem sectionTrees_instance {i : InstalledIntegration} (hconfiguration : i.configuration = textSchema)
    (hevents : buildEach (eventModule {}) i.events = .ok events)
    (hstates : buildEach (stateModule {}) i.states = .ok states)
    (hactions : buildEach (actionModule {}) i.actions = .ok actions)
    (hchannels : buildEach (channelModule {}) i.channels = .ok channels) :
    sectionTrees {} .standard (.instance i) =
      .ok (instanceSections events states actions channels) :=
  sectionTrees_eq_ok_iff.mpr (.cons (exists_configurationTree hconfiguration)
    (.cons (exists_sectionTree (aggregateIndex_default _ _ hevents))
      (.cons (exists_sectionTree (aggregateIndex_default _ _ hstates))
        (.cons (exists_sectionTree (aggregateIndex_default _ _ hactions))
          (.cons (exists_sectionTree (aggregateIndex_default _ _ hchannels)) .nil)))))

end

end SchemaTypings
