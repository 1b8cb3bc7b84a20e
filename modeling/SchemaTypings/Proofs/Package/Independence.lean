/-
  SchemaTypings.Proofs.Package.Independence

  Entries of a definition do not influence one another.  The file of an entry is found through the
  module tree, where the key of the section and the names of the entry lead to it.  Its text is that of
  the module which is built from the entry alone, and its path is made of the directory of the
  definition, that of the section and the name of the entry.  So what else a definition has, and in
  which order, is of no account.
-/
import SchemaTypings.Proofs.Package.Confinement

namespace SchemaTypings

open Typescript (typeName)

/-! ## Keys -/

/-- The tree that keys lead to: each is the key of a module directly below the one before. -/
def PlacedTree.below? (t : PlacedTree) : List String → Option PlacedTree
  | [] => some t
  | key :: rest =>
    (t.children.find? fun c => c.value.module.key? = some key).bind (PlacedTree.below? · rest)

theorem mem_subtrees_of_below? {keys : List String} {t u : PlacedTree} (h : t.below? keys = some u) :
    u ∈ t.subtrees := by
  induction keys generalizing t with
  | nil =>
    cases h
    exact Tree.self_mem_subtrees _
  | cons key rest ih =>
    obtain ⟨c, hc, hu⟩ := Option.bind_eq_some_iff.mp h
    have hmem : c ∈ Tree.subtreesAll t.children :=
      Tree.mem_subtreesAll_of_mem (List.mem_of_find?_eq_some hc)
    exact Tree.subtrees_trans t c (Tree.mem_subtrees_iff.mpr (.inr hmem)) u (ih hu)

theorem key_moveUnder (tree : OutputTree) (segments : List String) :
    (tree.moveUnder segments).value.key? = tree.value.key? := rfl

/-- Of trees that are built one by one, a key leads to the one that is built for what the key stands
for. -/
theorem exists_find?_of_placeTrees {α : Type} {r : α → OutputTree → Prop} {key : String}
    {p : α → Bool} (hkey : ∀ a tree, r a tree → (tree.value.key? = some key ↔ p a = true))
    {as : List α} {trees : List OutputTree} (hbuilt : List.Forall₂ r as trees)
    {base : List String} {below : List PlacedTree} (hplaced : placeTrees base trees = .ok below)
    {a : α} (ha : as.find? p = some a) :
    ∃ tree placed, r a tree ∧ placeTree base tree = .ok placed ∧
      below.find? (fun c => c.value.module.key? = some key) = some placed := by
  induction hbuilt generalizing below with
  | nil => cases ha
  | @cons b tree as trees hb _ ih =>
    obtain ⟨first, more, hfirst, hmore, rfl⟩ := exists_of_placeTrees_cons hplaced
    have hroot := hkey b tree hb
    rw [← IsPlaced.module ⟨base, hfirst⟩] at hroot
    cases hp : p b with
    | true =>
      rw [List.find?_cons_of_pos hp] at ha
      cases ha
      exact ⟨tree, first, hb, hfirst, List.find?_cons_of_pos (decide_eq_true (hroot.mpr hp))⟩
    | false =>
      have hnot : ¬p b = true := by rw [hp]; exact Bool.false_ne_true
      rw [List.find?_cons_of_neg hnot] at ha
      obtain ⟨found, placed, hfound, hchild, hfind⟩ := ih hmore ha
      refine ⟨found, placed, hfound, hchild, Eq.trans ?_ hfind⟩
      exact List.find?_cons_of_neg fun hkey => hnot (hroot.mp (of_decide_eq_true hkey))

/-! ## Entries -/

/-- One entry of a definition, and what it is defined as. -/
inductive Entry where
  | event (name : String) (event : EventDefinition)
  | state (name : String) (state : StateDefinition)
  | action (name : String) (action : ActionDefinition)
  | message (channel name : String) (message : MessageDefinition)

namespace Entry

/-- The section that the entry stands in. -/
def kind : Entry → SectionKind
  | .event .. => .events
  | .state .. => .states
  | .action .. => .actions
  | .message .. => .channels

/-- The name of the entry in its section or channel. -/
def name : Entry → String
  | .event name _ | .state name _ | .action name _ | .message _ name _ => name

/-- The keys that lead to the entry from the index of its section. -/
def keys : Entry → List String
  | .event name _ | .state name _ | .action name _ => [name]
  | .message channel name _ => [channel, name]

/-- The directories in front of the file of the entry, below the directory of its section. -/
def segments : Entry → List String
  | .event .. | .state .. | .action .. => []
  | .message channel _ _ => [Naming.kebabCase channel]

end Entry

/-- Whether a definition has an entry, defined as it is. -/
def Definition.HasEntry (d : Definition) : Entry → Prop
  | .event name event => d.base.events.get? name = some event
  | .state name state => d.base.states.get? name = some state
  | .action name action => ∃ i, d.interface? = some i ∧ i.actions.get? name = some action
  | .message channel name message => ∃ i c, d.interface? = some i ∧
      i.channels.get? channel = some c ∧ c.messages.get? name = some message

namespace Toolkit

/-- The module of an entry. -/
def entryModule (t : Toolkit) : Entry → Except Failure OutputTree
  | .event name event => t.eventModule name event
  | .state name state => t.stateModule name state
  | .action name action => t.actionModule name action
  | .message channel name message => t.messageModule (typeName channel) name message

variable {t : Toolkit}

/-- Whether a tree is a content module alone, with the key and the file name of an entry. -/
def IsEntryModule (t : Toolkit) (name : String) (tree : OutputTree) : Prop :=
  ∃ m own text, tree = .leaf m ∧ m.key? = some name ∧ m.directories = [] ∧
    m.source = .content own text ∧ OutputModule.normalPath (t.fileName name) = .ok own

theorem isEntryModule_contentModule {exportName name declarations : String} {tree : OutputTree}
    (h : t.contentModule exportName (t.fileName name) declarations (some name) = .ok tree) :
    t.IsEntryModule name tree := by
  obtain ⟨own, text, hown, -, rfl⟩ := exists_of_contentModule h
  exact ⟨_, own, text, rfl, rfl, rfl, rfl, hown⟩

theorem isEntryModule_schemaModule {type name : String} {schema : SchemaObject} {doc : List String}
    {tree : OutputTree} (h : t.schemaModule type name schema doc = .ok tree) :
    t.IsEntryModule name tree := by
  obtain ⟨declarations, -, h⟩ := exists_of_bind_eq_ok h
  exact isEntryModule_contentModule h

theorem isEntryModule_actionModule {name : String} {action : ActionDefinition} {tree : OutputTree}
    (h : t.actionModule name action = .ok tree) : t.IsEntryModule name tree := by
  obtain ⟨input, -, h⟩ := exists_of_bind_eq_ok h
  obtain ⟨output, -, h⟩ := exists_of_bind_eq_ok h
  obtain ⟨pair, -, h⟩ := exists_of_bind_eq_ok h
  exact isEntryModule_contentModule h

theorem isEntryModule_entryModule {entry : Entry} {tree : OutputTree}
    (h : t.entryModule entry = .ok tree) : t.IsEntryModule entry.name tree := by
  cases entry with
  | event name event => exact isEntryModule_schemaModule h
  | state name state => exact isEntryModule_schemaModule h
  | action name action => exact isEntryModule_actionModule h
  | message channel name message => exact isEntryModule_schemaModule h

theorem IsEntryModule.key {name : String} {tree : OutputTree} (h : t.IsEntryModule name tree) :
    tree.value.key? = some name := by
  obtain ⟨m, own, text, rfl, hkey, -⟩ := h
  exact hkey

/-! ## Indexes -/

theorem fields_indexModule {exportName : String} {key? aggregate? : Option String}
    {doc : List String} {m : OutputModule}
    (h : t.indexModule exportName key? aggregate? doc = .ok m) :
    m.key? = key? ∧ m.directories = [] := by
  obtain ⟨path, rfl⟩ := exists_of_indexModule h
  exact ⟨rfl, rfl⟩

theorem exists_of_aggregateIndex {α : Type} {exportName key : String} {doc : List String}
    {build : String → α → Except Failure OutputTree} {entries : Entries α} {tree : OutputTree}
    (h : t.aggregateIndex exportName key doc build entries = .ok tree) :
    ∃ m trees, m.key? = some key ∧ m.directories = [] ∧ buildEach build entries = .ok trees ∧
      tree = .node m trees := by
  obtain ⟨m, hm, h⟩ := exists_of_bind_eq_ok h
  obtain ⟨trees, htrees, h⟩ := exists_of_bind_eq_ok h
  cases h
  obtain ⟨hkey, hdirectories⟩ := fields_indexModule hm
  exact ⟨m, trees, hkey, hdirectories, htrees, rfl⟩

theorem key_aggregateIndex {α : Type} {exportName key : String} {doc : List String}
    {build : String → α → Except Failure OutputTree} {entries : Entries α} {tree : OutputTree}
    (h : t.aggregateIndex exportName key doc build entries = .ok tree) :
    tree.value.key? = some key := by
  obtain ⟨m, trees, hkey, -, -, rfl⟩ := exists_of_aggregateIndex h
  exact hkey

theorem key_channelModule {name : String} {channel : ChannelDefinition} {tree : OutputTree}
    (h : t.channelModule name channel = .ok tree) : tree.value.key? = some name := by
  obtain ⟨raw, hraw, h⟩ := exists_of_bind_eq_ok h
  have hkey := key_aggregateIndex hraw
  cases h
  rw [key_moveUnder]
  exact hkey

/-- From an index that aggregates one module an entry, the name of an entry leads to its module. -/
theorem exists_below?_of_aggregateIndex {α : Type} {exportName key : String} {doc : List String}
    {build : String → α → Except Failure OutputTree} {entries : Entries α} {raw : OutputTree}
    (hkey : ∀ name entry tree, build name entry = .ok tree → tree.value.key? = some name)
    (h : t.aggregateIndex exportName key doc build entries = .ok raw) {base segments : List String}
    {placed : PlacedTree} (hplaced : placeTree base (raw.moveUnder segments) = .ok placed)
    {name : String} {entry : α} (hentry : entries.get? name = some entry) :
    ∃ tree below, build name entry = .ok tree ∧
      placeTree (base ++ OutputModule.cleanSegments segments) tree = .ok below ∧
      ∀ rest, placed.below? (name :: rest) = below.below? rest := by
  obtain ⟨m, trees, -, hdirectories, htrees, rfl⟩ := exists_of_aggregateIndex h
  obtain ⟨path?, children, -, hchildren, rfl⟩ := exists_of_placeTree_node hplaced
  have hmoved : (m.moveUnder segments).directories = OutputModule.cleanSegments segments := by
    rw [OutputModule.moveUnder, hdirectories, List.append_nil]
  obtain ⟨⟨found, value⟩, hfound, hvalue⟩ := Option.map_eq_some_iff.mp hentry
  have hname : found = name := by simpa using List.find?_some hfound
  subst hname hvalue
  have hbuilt : ∀ (e : String × α) tree, build e.1 e.2 = .ok tree →
      (tree.value.key? = some found ↔ decide (e.1 = found) = true) := by
    intro e tree htree
    rw [hkey _ _ _ htree, Option.some.injEq, decide_eq_true_iff]
  obtain ⟨tree, below, htree, hbelow, hfind⟩ :=
    exists_find?_of_placeTrees hbuilt (buildEach_eq_ok_iff.mp htrees) hchildren hfound
  refine ⟨tree, below, htree, hmoved ▸ hbelow, fun rest => ?_⟩
  rw [PlacedTree.below?, Tree.children, hfind]
  rfl

/-! ## Sections -/

theorem key_sectionTree {kind : SectionKind} {definition : Definition} {raw : OutputTree}
    (h : t.sectionTree kind definition = .ok raw) :
    raw.value.key? = if kind = .secrets then none else some kind.name := by
  cases kind with
  | configuration =>
    obtain ⟨declarations, -, h⟩ := exists_of_bind_eq_ok h
    obtain ⟨m, hm, h⟩ := exists_of_bind_eq_ok h
    obtain ⟨content, -, h⟩ := exists_of_bind_eq_ok h
    cases h
    exact (fields_indexModule hm).1
  | events => exact key_aggregateIndex h
  | states => exact key_aggregateIndex h
  | actions =>
    rw [sectionTree] at h
    split at h
    · exact key_aggregateIndex h
    · cases h
  | channels =>
    rw [sectionTree] at h
    split at h
    · exact key_aggregateIndex h
    · cases h
  | secrets =>
    rw [sectionTree] at h
    split at h
    · obtain ⟨environment, -, h⟩ := exists_of_bind_eq_ok h
      obtain ⟨text, -, h⟩ := exists_of_bind_eq_ok h
      obtain ⟨m, hm, h⟩ := exists_of_bind_eq_ok h
      cases h
      obtain ⟨source, -, rfl⟩ := exists_of_map_eq_ok (eq_ok_of_mapError_eq_ok hm)
      rfl
    · cases h

/-- In the tree of its section the names of an entry lead to the module that is built from the entry
alone. -/
theorem exists_below?_of_sectionTree {definition : Definition} {entry : Entry}
    (hentry : definition.HasEntry entry) {raw : OutputTree}
    (h : t.sectionTree entry.kind definition = .ok raw) {base segments : List String}
    {placed : PlacedTree} (hplaced : placeTree base (raw.moveUnder segments) = .ok placed) :
    ∃ tree leaf, t.entryModule entry = .ok tree ∧
      placeTree (base ++ OutputModule.cleanSegments (segments ++ entry.segments)) tree = .ok leaf ∧
      placed.below? entry.keys = some leaf := by
  -- only a message is below an entry of the section, its channel
  cases entry with
  | event name event =>
    obtain ⟨tree, leaf, htree, hleaf, hkeys⟩ := exists_below?_of_aggregateIndex
      (fun _ _ _ hbuild => (isEntryModule_schemaModule hbuild).key) h hplaced hentry
    exact ⟨tree, leaf, htree, by rwa [Entry.segments, List.append_nil], hkeys []⟩
  | state name state =>
    obtain ⟨tree, leaf, htree, hleaf, hkeys⟩ := exists_below?_of_aggregateIndex
      (fun _ _ _ hbuild => (isEntryModule_schemaModule hbuild).key) h hplaced hentry
    exact ⟨tree, leaf, htree, by rwa [Entry.segments, List.append_nil], hkeys []⟩
  | action name action =>
    obtain ⟨i, hi, hentry⟩ := hentry
    rw [Entry.kind, sectionTree, hi] at h
    obtain ⟨tree, leaf, htree, hleaf, hkeys⟩ := exists_below?_of_aggregateIndex
      (fun _ _ _ hbuild => (isEntryModule_actionModule hbuild).key) h hplaced hentry
    exact ⟨tree, leaf, htree, by rwa [Entry.segments, List.append_nil], hkeys []⟩
  | message channel name message =>
    obtain ⟨i, c, hi, hchannel, hentry⟩ := hentry
    rw [Entry.kind, sectionTree, hi] at h
    obtain ⟨index, below, hindex, hbelow, houter⟩ := exists_below?_of_aggregateIndex
      (fun _ _ _ => key_channelModule) h hplaced hchannel
    obtain ⟨inner, hinner, hindex⟩ := exists_of_bind_eq_ok hindex
    cases hindex
    obtain ⟨tree, leaf, htree, hleaf, hkeys⟩ := exists_below?_of_aggregateIndex
      (fun _ _ _ hbuild => (isEntryModule_schemaModule hbuild).key) hinner hbelow hentry
    refine ⟨tree, leaf, htree, ?_, (houter [name]).trans (hkeys [])⟩
    rw [OutputModule.cleanSegments, List.flatMap_append, ← List.append_assoc]
    exact hleaf

end Toolkit

/-! ## Definitions -/

/-- The directory that a definition has of its own under the path for its typings. -/
def Definition.directory? : Definition → Option String
  | .instance installed => some (Naming.kebabCase installed.name)
  | _ => none

/-- The directories of a definition's typings below the output root. -/
def Definition.segments (d : Definition) (path : String) : List String :=
  path :: d.directory?.toList

/-- The directories of the file of an entry below the output root. -/
def Definition.entryDirectories (d : Definition) (path : String) (entry : Entry) : List String :=
  "" :: OutputModule.cleanSegments (d.segments path ++ entry.kind.name :: entry.segments)

theorem SectionKind.name_injective : Function.Injective SectionKind.name := by
  intro a b h
  cases a with
  | _ =>
    cases b with
    | _ => first | rfl | exact absurd h (by decide)

theorem Definition.HasEntry.kind_mem_sections {d : Definition} {entry : Entry}
    (h : d.HasEntry entry) : entry.kind ∈ d.sections := by
  have hbase : SectionKind.events ∈ d.sections ∧ SectionKind.states ∈ d.sections := by
    rcases d with b | i | i <;> simp [Definition.sections]
  have hinterface : ∀ i, d.interface? = some i →
      SectionKind.actions ∈ d.sections ∧ SectionKind.channels ∈ d.sections := by
    rcases d with b | i | i <;> simp [Definition.sections, Definition.interface?]
  cases entry with
  | event name event => exact hbase.1
  | state name state => exact hbase.2
  | action name action =>
    obtain ⟨i, hi, -⟩ := h
    exact (hinterface i hi).1
  | message channel name message =>
    obtain ⟨i, c, hi, -⟩ := h
    exact (hinterface i hi).2

/-- The one file at the path of a module is found there. -/
theorem find?_path_eq_some {own : List File} (hnodup : (own.map File.path).Nodup) {f : File}
    (hf : f ∈ own) (more : List File) :
    (own ++ more).find? (fun g => some f.path = some g.path) = some f := by
  have hown : own.find? (fun g => some f.path = some g.path) = some f := by
    cases hfind : own.find? (fun g => some f.path = some g.path) with
    | none =>
      have hnot := List.find?_eq_none.mp hfind f hf
      exact absurd (decide_eq_true rfl) hnot
    | some g =>
      have hpath : f.path = g.path := by simpa using List.find?_some hfind
      rw [List.inj_on_of_nodup_map hnodup hf (List.mem_of_find?_eq_some hfind) hpath]
  rw [List.find?_append, hown]
  rfl

namespace Toolkit

/-- The module tree of a definition, in its directories. -/
def moduleTree (t : Toolkit) (definition : Definition) (path : String) :
    Except Failure OutputTree :=
  (match definition with
    | .instance installed => instanceTree t .standard installed
    | _ => implementationTree t .standard definition).map
    (OutputTree.moveUnder · (definition.segments path))

/-- The file of an entry among all that are generated: the one at the path of the module that the keys
of the section and the entry lead to. -/
def entryFile? (t : Toolkit) (definition : Definition) (path : String) (entry : Entry) :
    Option File := do
  let files ← (t.generate definition path).toOption
  let tree ← (t.moduleTree definition path).toOption
  let placed ← (placeTree [""] tree).toOption
  let leaf ← placed.below? (entry.kind.name :: entry.keys)
  files.find? fun f => leaf.value.path? = some f.path

variable {t : Toolkit} {definition : Definition} {path : String} {files : List File}

/-- The files of the module tree are what it is flattened to. -/
theorem exists_moduleTree_of_treeFiles {own : List File}
    (h : t.treeFiles definition path = .ok own) :
    ∃ tree, t.moduleTree definition path = .ok tree ∧ tree.flatten = .ok own := by
  rcases definition with b | i | installed
  all_goals
    simp only [Toolkit.treeFiles, generateTypings] at h
    split at h
    · cases h
    · next tree htree => exact ⟨_, congrArg (Except.map _) htree, h⟩

/-- The module tree has the sections below a root in the directories of the definition. -/
theorem exists_of_moduleTree {tree : OutputTree} (h : t.moduleTree definition path = .ok tree) :
    ∃ m trees, m.directories = OutputModule.cleanSegments (definition.segments path) ∧
      sectionTrees t .standard definition = .ok trees ∧ tree = .node m trees := by
  obtain ⟨raw, hraw, rfl⟩ := exists_of_map_eq_ok h
  have hroot : ∃ root, rootTree t .standard definition root = .ok raw := by
    rcases definition with b | i | installed
    · exact ⟨_, hraw⟩
    · exact ⟨_, hraw⟩
    · exact ⟨_, hraw⟩
  obtain ⟨root, hroot⟩ := hroot
  obtain ⟨m, trees, hm, htrees, rfl⟩ := exists_of_rootTree hroot
  obtain ⟨source, -, rfl⟩ := exists_of_map_eq_ok hm
  exact ⟨_, trees, List.append_nil _, htrees, rfl⟩

/-- Under the key of a section stands the tree of the section, in its directory. -/
theorem exists_find?_of_sectionTrees {trees : List OutputTree} {base : List String}
    {below : List PlacedTree} (h : sectionTrees t .standard definition = .ok trees)
    (hplaced : placeTrees base trees = .ok below) {kind : SectionKind}
    (hkind : kind ∈ definition.sections) (hopen : kind ≠ .secrets) :
    ∃ raw placed, t.sectionTree kind definition = .ok raw ∧
      placeTree base (raw.moveUnder [kind.name]) = .ok placed ∧
      below.find? (fun c => c.value.module.key? = some kind.name) = some placed := by
  have hkey : ∀ other tree, (∃ raw, t.sectionTree other definition = .ok raw ∧
      raw.moveUnder [other.name] = tree) →
        (tree.value.key? = some kind.name ↔ decide (other = kind) = true) := by
    rintro other _ ⟨raw, hraw, rfl⟩
    rw [key_moveUnder, key_sectionTree hraw, decide_eq_true_iff]
    constructor
    · intro heq
      split at heq
      · cases heq
      · exact SectionKind.name_injective (Option.some.inj heq)
    · rintro rfl
      rw [if_neg hopen]
  have hfound : definition.sections.find? (fun other => other = kind) = some kind := by
    cases hfind : definition.sections.find? (fun other => other = kind) with
    | none =>
      have hnot := List.find?_eq_none.mp hfind kind hkind
      exact absurd (decide_eq_true rfl) hnot
    | some other =>
      have heq : other = kind := by simpa using List.find?_some hfind
      rw [heq]
  obtain ⟨_, placed, ⟨raw, hraw, rfl⟩, hplaced, hfind⟩ :=
    exists_find?_of_placeTrees hkey (sectionTrees_eq_ok_iff.mp h) hplaced hfound
  exact ⟨raw, placed, hraw, hplaced, hfind⟩

/-- In the module tree the keys of an entry lead to the module that is built from the entry alone, in
the directories of the definition, the section and the entry. -/
theorem exists_below?_of_moduleTree {entry : Entry} (hentry : definition.HasEntry entry)
    {tree : OutputTree} (h : t.moduleTree definition path = .ok tree) {placed : PlacedTree}
    (hplaced : placeTree [""] tree = .ok placed) :
    ∃ built leaf, t.entryModule entry = .ok built ∧
      placeTree (definition.entryDirectories path entry) built = .ok leaf ∧
      placed.below? (entry.kind.name :: entry.keys) = some leaf := by
  obtain ⟨m, trees, hdirectories, htrees, rfl⟩ := exists_of_moduleTree h
  obtain ⟨path?, below, -, hbelow, rfl⟩ := exists_of_placeTree_node hplaced
  have hopen : entry.kind ≠ .secrets := by cases entry <;> exact SectionKind.noConfusion
  obtain ⟨raw, index, hraw, hindex, hfind⟩ :=
    exists_find?_of_sectionTrees htrees hbelow hentry.kind_mem_sections hopen
  obtain ⟨built, leaf, hbuilt, hleaf, hkeys⟩ := exists_below?_of_sectionTree hentry hraw hindex
  refine ⟨built, leaf, hbuilt, ?_, ?_⟩
  · have hall : OutputModule.cleanSegments
          (definition.segments path ++ entry.kind.name :: entry.segments) =
        m.directories ++ OutputModule.cleanSegments ([entry.kind.name] ++ entry.segments) := by
      rw [hdirectories]
      exact List.flatMap_append
    rw [Definition.entryDirectories, hall]
    exact hleaf
  · rw [PlacedTree.below?, Tree.children, hfind]
    exact hkeys

/-- Where typings are generated, the file of an entry is there.  It holds the text of the module that
is built from the entry alone, and it lies in the directories of the definition, the section and the
entry. -/
theorem exists_entryFile? (h : t.generate definition path = .ok files) {entry : Entry}
    (hentry : definition.HasEntry entry) :
    ∃ m own f, t.entryModule entry = .ok (.leaf m) ∧ m.source = .content own f.content ∧
      OutputModule.normalPath (t.fileName entry.name) = .ok own ∧
      OutputModule.place (definition.entryDirectories path entry) own = .ok f.path ∧
      t.entryFile? definition path entry = some f ∧ f ∈ files := by
  obtain ⟨own, record?, hown, hfiles, -⟩ := exists_treeFiles_of_generate h
  obtain ⟨tree, htree, hflat⟩ := exists_moduleTree_of_treeFiles hown
  obtain ⟨placed, hplaced, hrow, hnodup⟩ := flatten_eq_ok_iff.mp hflat
  obtain ⟨_, leaf, hbuilt, hleaf, hkeys⟩ := exists_below?_of_moduleTree hentry htree hplaced
  obtain ⟨m, name, text, rfl, -, hdirectories, hsource, hname⟩ := isEntryModule_entryModule hbuilt
  obtain ⟨place, hplace, rfl⟩ := exists_of_placeTree_leaf hsource hleaf
  rw [hdirectories, List.append_nil] at hplace
  have hmem : Tree.node ⟨m, some place⟩ [] ∈ placed.subtrees.filter hasPath :=
    List.mem_filter.mpr ⟨mem_subtrees_of_below? hkeys, rfl⟩
  obtain ⟨f, hf, hfile⟩ := exists_right_of_forall₂ hrow hmem
  have hfpath : place = f.path := Option.some.inj hfile.path
  have htext : text = f.content := by
    have htext := hfile.text
    rw [Tree.value, fileText, hsource] at htext
    exact Except.ok.inj htext
  -- the file at the place of the entry's module is that of the generation
  subst hfpath htext
  refine ⟨m, name, f, hbuilt, hsource, hname, hplace, ?_, ?_⟩
  · have hfound := find?_path_eq_some hnodup hf record?.toList
    rw [← hfiles] at hfound
    rw [entryFile?, h, htree, Except.toOption, Except.toOption]
    simp only [Option.bind_eq_bind, Option.bind_some, hplaced, Except.toOption, hkeys, Tree.value]
    exact hfound
  · rw [hfiles]
    exact List.mem_append_left _ hf

/-- Entries do not influence one another.  Two definitions that have an entry in common, generated
with one toolkit under one path, have files for it with the same text; each lies at the same place
below the directories of its definition, so that the paths are the same as well unless they are those
of instances with different directories. -/
theorem entryFile?_independent {d₁ d₂ : Definition} {files₁ files₂ : List File} {entry : Entry}
    (h₁ : t.generate d₁ path = .ok files₁) (h₂ : t.generate d₂ path = .ok files₂)
    (hentry₁ : d₁.HasEntry entry) (hentry₂ : d₂.HasEntry entry) :
    ∃ f₁ f₂, t.entryFile? d₁ path entry = some f₁ ∧ t.entryFile? d₂ path entry = some f₂ ∧
      f₁ ∈ files₁ ∧ f₂ ∈ files₂ ∧ f₁.content = f₂.content ∧
      (d₁.directory? = d₂.directory? → f₁.path = f₂.path) ∧
      ∃ own, OutputModule.normalPath (t.fileName entry.name) = .ok own ∧
        OutputModule.place (d₁.entryDirectories path entry) own = .ok f₁.path ∧
        OutputModule.place (d₂.entryDirectories path entry) own = .ok f₂.path := by
  obtain ⟨m, own, f₁, hm₁, hsource₁, hown, hplace₁, hfile₁, hmem₁⟩ := exists_entryFile? h₁ hentry₁
  obtain ⟨m', own', f₂, hm₂, hsource₂, -, hplace₂, hfile₂, hmem₂⟩ := exists_entryFile? h₂ hentry₂
  -- Both modules are built from the entry, and from nothing else.
  rw [hm₁] at hm₂
  cases hm₂
  rw [hsource₁] at hsource₂
  obtain ⟨rfl, hcontent⟩ := ModuleSource.content.inj hsource₂
  refine ⟨f₁, f₂, hfile₁, hfile₂, hmem₁, hmem₂, hcontent, ?_, own, hown, hplace₁, hplace₂⟩
  intro hdirectory
  rw [Definition.entryDirectories, Definition.segments, hdirectory] at hplace₁
  exact Except.ok.inj (hplace₁.symm.trans hplace₂)

end Toolkit

/-- An event without a caption that carries a text. -/
def textEvent (name : String) : Entry := .event name ⟨textSchema, {}⟩

/-- A bot with other events than `eventBot` has, but for one, and a state. -/
def stateBot : Definition :=
  .bot { configuration := textSchema
         events := [("paused", ⟨textSchema, {}⟩), ("ready", ⟨textSchema, {}⟩)]
         states := [("mood", { schema := textSchema, scope := .user })] }

/-- The trees of the sections of the bot. -/
def stateBotTrees : List OutputTree :=
  botSections
    [OutputTree.leaf (textModule "Paused" "Paused" "paused.ts" (some "paused")),
      OutputTree.leaf (textModule "Ready" "Ready" "ready.ts" (some "ready"))]
    [OutputTree.leaf (textModule "Mood" "Mood" "mood.ts" (some "mood") ["@scope user"])]

theorem sectionTrees_stateBot : sectionTrees {} .standard stateBot = .ok stateBotTrees := by
  have hpaused : Toolkit.eventModule {} "paused" ⟨textSchema, {}⟩ =
      .ok (.leaf (textModule "Paused" "Paused" "paused.ts" (some "paused"))) :=
    Toolkit.eventModule_textSchema (by decide +kernel) (by decide +kernel) (by decide +kernel)
  have hmood : Toolkit.stateModule {} "mood" { schema := textSchema, scope := .user } =
      .ok (.leaf (textModule "Mood" "Mood" "mood.ts" (some "mood") ["@scope user"])) :=
    Toolkit.stateModule_textSchema (by decide +kernel) (by decide +kernel) (by decide +kernel)
      (by decide +kernel)
  exact sectionTrees_bot rfl
    (Toolkit.buildEach_eq_ok_iff.mpr (.cons hpaused (.cons eventModule_ready .nil)))
    (Toolkit.buildEach_eq_ok_iff.mpr (.cons hmood .nil))

theorem exists_files_stateBot : ∃ files, Toolkit.generate {} stateBot "out" = .ok files := by
  refine exists_ok_of_isSome_toOption ?_
  change (generateTypings {} .standard stateBot "out").toOption.isSome = true
  simp only [generateTypings, implementationTree, rootTree, sectionTrees_stateBot,
    OutputTree.flatten_eq]
  decide +kernel

/-- The event that the two bots have in common has one file in both. -/
theorem entryFile?_independent_ready :
    ∃ files₁ files₂ f, Toolkit.generate {} eventBot "out" = .ok files₁ ∧
      Toolkit.generate {} stateBot "out" = .ok files₂ ∧
      Toolkit.entryFile? {} eventBot "out" (textEvent "ready") = some f ∧
      Toolkit.entryFile? {} stateBot "out" (textEvent "ready") = some f := by
  obtain ⟨files₁, hfiles₁⟩ := exists_files_eventBot
  obtain ⟨files₂, hfiles₂⟩ := exists_files_stateBot
  have hentry₁ : eventBot.HasEntry (textEvent "ready") := rfl
  have hentry₂ : stateBot.HasEntry (textEvent "ready") := rfl
  obtain ⟨⟨path₁, text₁⟩, ⟨path₂, text₂⟩, hf₁, hf₂, -, -, hcontent, hpath, -⟩ :=
    Toolkit.entryFile?_independent hfiles₁ hfiles₂ hentry₁ hentry₂
  obtain rfl : path₁ = path₂ := hpath rfl
  obtain rfl : text₁ = text₂ := hcontent
  exact ⟨files₁, files₂, _, hfiles₁, hfiles₂, hf₁, hf₂⟩

/-- An installed instance with one event. -/
def pingInstance (name : String) : Definition :=
  .instance { name, version := "1.0.0", id := "i", configuration := textSchema
              events := [("ping", ⟨textSchema, {}⟩)] }

theorem sectionTrees_pingInstance (name : String) :
    sectionTrees {} .standard (pingInstance name) = .ok (instanceSections
      [OutputTree.leaf (textModule "Ping" "Ping" "ping.ts" (some "ping"))] [] [] []) := by
  have hping : Toolkit.eventModule {} "ping" ⟨textSchema, {}⟩ =
      .ok (.leaf (textModule "Ping" "Ping" "ping.ts" (some "ping"))) :=
    Toolkit.eventModule_textSchema (by decide +kernel) (by decide +kernel) (by decide +kernel)
  exact sectionTrees_instance rfl (Toolkit.buildEach_eq_ok_iff.mpr (.cons hping .nil)) rfl rfl rfl

theorem exists_files_pingInstance :
    (∃ files, Toolkit.generate {} (pingInstance "slack") "installs" = .ok files) ∧
      ∃ files, Toolkit.generate {} (pingInstance "discord") "installs" = .ok files := by
  constructor
  all_goals
    refine exists_ok_of_isSome_toOption ?_
    have htrees := fun name => sectionTrees_pingInstance name
    simp only [pingInstance] at htrees
    simp only [Toolkit.generate, generateInstance, instanceTree, pingInstance, rootTree, htrees,
      Typescript.exportedNames_metadataSource, OutputTree.flatten_eq]
    decide +kernel

theorem exists_entryFile?_pingInstance {name place : String} {files : List File}
    (h : Toolkit.generate {} (pingInstance name) "installs" = .ok files)
    (hplace : (OutputModule.place ((pingInstance name).entryDirectories "installs" (textEvent "ping"))
      "ping.ts").toOption = some place) :
    ∃ f, Toolkit.entryFile? {} (pingInstance name) "installs" (textEvent "ping") = some f ∧
      f.path = place := by
  have hfile : (OutputModule.normalPath (Toolkit.fileName {} (textEvent "ping").name)).toOption =
      some "ping.ts" := by decide +kernel
  have hentry : (pingInstance name).HasEntry (textEvent "ping") := rfl
  obtain ⟨m, own, f, -, -, hown, hpath, hf, -⟩ := Toolkit.exists_entryFile? h hentry
  rw [hown] at hfile
  cases hfile
  rw [hpath] at hplace
  exact ⟨f, hf, Option.some.inj hplace⟩

/-- The file of an event that two installed instances have in common lies in the directory of each, so
that they have it at different paths. -/
theorem entryFile?_path_ne_of_instances :
    ∃ files₁ files₂ f₁ f₂, (pingInstance "slack").kindName = (pingInstance "discord").kindName ∧
      Toolkit.generate {} (pingInstance "slack") "installs" = .ok files₁ ∧
      Toolkit.generate {} (pingInstance "discord") "installs" = .ok files₂ ∧
      (pingInstance "slack").HasEntry (textEvent "ping") ∧
      (pingInstance "discord").HasEntry (textEvent "ping") ∧
      Toolkit.entryFile? {} (pingInstance "slack") "installs" (textEvent "ping") = some f₁ ∧
      Toolkit.entryFile? {} (pingInstance "discord") "installs" (textEvent "ping") = some f₂ ∧
      f₁.path = "installs/slack/events/ping.ts" ∧ f₂.path = "installs/discord/events/ping.ts" ∧
      f₁.path ≠ f₂.path := by
  obtain ⟨⟨files₁, hfiles₁⟩, files₂, hfiles₂⟩ := exists_files_pingInstance
  have hslack : (OutputModule.place ((pingInstance "slack").entryDirectories "installs"
      (textEvent "ping")) "ping.ts").toOption = some "installs/slack/events/ping.ts" := by
    decide +kernel
  have hdiscord : (OutputModule.place ((pingInstance "discord").entryDirectories "installs"
      (textEvent "ping")) "ping.ts").toOption = some "installs/discord/events/ping.ts" := by
    decide +kernel
  obtain ⟨f₁, hf₁, hpath₁⟩ := exists_entryFile?_pingInstance hfiles₁ hslack
  obtain ⟨f₂, hf₂, hpath₂⟩ := exists_entryFile?_pingInstance hfiles₂ hdiscord
  refine ⟨files₁, files₂, f₁, f₂, rfl, hfiles₁, hfiles₂, rfl, rfl, hf₁, hf₂, hpath₁, hpath₂, ?_⟩
  rw [hpath₁, hpath₂]
  decide

end SchemaTypings
