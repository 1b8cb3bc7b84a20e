/-
  SchemaTypings.Proofs.Section.Aggregate

  Indexes over members.  An index whose modules below are members of an aggregate type declares it;
  so does the index of a section, and the index of each channel.
-/
import SchemaTypings.Proofs.Section.Module

namespace SchemaTypings

open Typescript (IndexView typeName)

variable {config : Config} {fallback : IndexRenderer} {files : List File}

/-! ## Rows of modules -/

section
variable {α : Type}

/-- Whether a placed module is what is built for an entry, and has its files. -/
def IsBuilt (fallback : IndexRenderer) (files : List File)
    (build : String → α → Except Failure OutputTree) (e : String × α) (placed : PlacedTree) : Prop :=
  ∃ tree, build e.1 e.2 = .ok tree ∧ IsPlaced tree placed ∧ HasFiles fallback files placed

/-- Trees that are made one by one are placed one by one. -/
theorem forall₂_placed {R : α → OutputTree → Prop} {as : List α} {trees : List OutputTree}
    {below : List PlacedTree} (htrees : List.Forall₂ R as trees)
    (hplaced : List.Forall₂ IsPlaced trees below)
    (hfiles : ∀ placed ∈ below, HasFiles fallback files placed) :
    List.Forall₂ (fun a placed =>
      ∃ tree, R a tree ∧ IsPlaced tree placed ∧ HasFiles fallback files placed) as below := by
  induction htrees generalizing below with
  | nil =>
    cases hplaced
    exact .nil
  | cons htree _ ih =>
    cases hplaced with
    | cons hfirst hrest =>
      rw [List.forall_mem_cons] at hfiles
      exact .cons ⟨_, htree, hfirst, hfiles.1⟩ (ih hrest hfiles.2)

/-- Modules that are members each are a row of members. -/
theorem exists_members {outline : α → AggregateMember} {as : List α} {below : List PlacedTree}
    (h : List.Forall₂ (fun a placed => ∃ m : ImportedMember, m.toAggregateMember = outline a ∧
      IsMember config files placed m) as below) :
    ∃ members : List ImportedMember,
      members.map ImportedMember.toAggregateMember = as.map outline ∧
      List.Forall₂ (IsMember config files) below members := by
  induction h with
  | nil => exact ⟨[], rfl, .nil⟩
  | cons hfirst _ ih =>
    obtain ⟨m, houtline, hm⟩ := hfirst
    obtain ⟨members, houtlines, hmembers⟩ := ih
    exact ⟨m :: members, by rw [List.map_cons, List.map_cons, houtline, houtlines],
      .cons hm hmembers⟩

end

/-! ## Aggregates -/

/-- An aggregate type that is declared, of which each member is closed exactly if it is well
named. -/
structure Aggregate.IsSound (config : Config) (files : List File) (a : Aggregate) : Prop where
  isDeclared : a.IsDeclared config files
  isClosed_iff : ∀ m ∈ a.members, m.IsClosed config files ↔ m.IsWellNamed

/-- An index exports its aggregate type. -/
theorem Aggregate.IsDeclared.exports {a : Aggregate} (h : a.IsDeclared config files) :
    Exports config files a.index a.name := by
  obtain ⟨view, hbody, hname, -, -⟩ := h.page
  refine .declared ?_
  rw [hbody, TypingsBody.names, hname]
  exact List.mem_append_right _ (List.mem_singleton_self a.name)

/-- What an aggregate lists are its members. -/
theorem eq_map_of_isListed {below : List PlacedTree} {listed : List (String × String × String)}
    {members : List ImportedMember} (hlisted : List.Forall₂ IsListed below listed)
    (hmembers : List.Forall₂ (IsMember config files) below members) :
    listed = members.map fun m => (m.key, m.typeName, m.source.file.path) := by
  induction hlisted generalizing members with
  | nil =>
    cases hmembers
    rfl
  | cons hfirst _ ih =>
    cases hmembers with
    | cons hm hrest =>
      obtain ⟨hkey, hname, hpath⟩ := hfirst
      rw [hm.key] at hkey
      rw [hm.name] at hname
      rw [hm.path] at hpath
      rw [List.map_cons, ih hrest, Option.some.inj hkey, hname, Option.some.inj hpath]

/-- An index over members declares their aggregate type. -/
theorem exists_aggregate {m : OutputModule} {path? : Option String} {below : List PlacedTree}
    {name : String} {members : List ImportedMember} (hkind : m.kind ≠ .content)
    (hrenderer : m.renderer? = some (Typescript.renderer config))
    (hname : m.aggregate? = some name) (hpath : path?.isSome)
    (hfiles : HasFiles fallback files (.node ⟨m, path?⟩ below))
    (hmembers : List.Forall₂ (IsMember config files) below members) :
    ∃ a : Aggregate, a.name = name ∧ a.members = members ∧ path? = some a.index.file.path ∧
      a.IsSound config files := by
  obtain ⟨path, rfl⟩ := Option.isSome_iff_exists.mp hpath
  obtain ⟨text, htext, hmem⟩ := hfiles.root rfl
  obtain ⟨view, hview, hpage⟩ := exists_indexView_of_fileText hkind htext
  have hkeys : ∀ t ∈ below, t.value.module.key?.isSome := by
    intro t ht
    obtain ⟨member, -, hmember⟩ := exists_right_of_forall₂ hmembers ht
    rw [hmember.key]
    rfl
  obtain ⟨listed, hlisted, hview⟩ := exists_members_of_indexView hname hkeys hview
  rw [eq_map_of_isListed hlisted hmembers, List.map_map, List.map_map] at hview
  rw [hrenderer] at hpage
  -- Of a row of members all that is said of one is said of each.
  have hall : ∀ member ∈ members, ∃ placed, IsMember config files placed member := by
    intro member hm
    obtain ⟨placed, -, hmember⟩ := exists_left_of_forall₂ hmembers hm
    exact ⟨placed, hmember⟩
  refine ⟨⟨name, ⟨⟨path, text⟩, .index view⟩, members⟩, rfl, rfl, rfl, ?_, ?_⟩
  · refine ⟨⟨hmem, ?_, hpage⟩, fun member hm => ?_, ⟨view, rfl, ?_, ?_, ?_⟩, fun member hm => ?_⟩
    · rw [hview]
    · obtain ⟨placed, hmember⟩ := hall member hm
      exact hmember.source
    · rw [hview]
    · rw [hview]
      rfl
    · rw [hview]
      rfl
    · obtain ⟨placed, hmember⟩ := hall member hm
      exact hmember.pair
  · intro member hm
    obtain ⟨placed, hmember⟩ := hall member hm
    exact hmember.closed

variable {t : Toolkit} {placed : PlacedTree} {segments : List String}

/-- An index that exports the type of an entry is a member. -/
theorem isMember_index {key typeName : String} {source : TypingsFile}
    (hkey : placed.value.module.key? = some key)
    (hname : placed.value.module.exportName = typeName)
    (hpath : placed.value.path? = some source.file.path) (hsource : source.IsAmong config files)
    (hexports : Exports config files source typeName) :
    IsMember config files placed ⟨⟨key, typeName, .index⟩, source⟩ where
  key := hkey
  name := hname
  path := hpath
  source := hsource
  pair hpair := by cases hpair
  closed := by
    refine isClosed_iff_of_exports ⟨fun _ => ?_, fun _ => ⟨hexports, ?_⟩⟩
    · intro name hname
      cases hname
    · intro hpair
      cases hpair

/-- An index that aggregates one module an entry, each of them a member, declares the aggregate type
of the members. -/
theorem exists_aggregate_of_aggregateIndex {α : Type} {exportName key : String} {doc : List String}
    {build : String → α → Except Failure OutputTree} {entries : Entries α} {tree : OutputTree}
    (outline : String → AggregateMember)
    (h : t.aggregateIndex exportName key doc build entries = .ok tree)
    (hplaced : IsPlaced (tree.moveUnder segments) placed)
    (hfiles : HasFiles fallback files placed)
    (hbuild : ∀ e placed, IsBuilt fallback files build e placed →
      ∃ m : ImportedMember, m.toAggregateMember = outline e.1 ∧
        IsMember t.generator files placed m) :
    ∃ a : Aggregate, a.outline = ⟨exportName, entries.keys.map outline⟩ ∧
      a.IsSound t.generator files ∧
      IsMember t.generator files placed ⟨⟨key, exportName, .index⟩, a.index⟩ ∧
      ∀ e ∈ entries, ∃ placed, IsBuilt fallback files build e placed := by
  obtain ⟨m, hm, h⟩ := exists_of_bind_eq_ok h
  obtain ⟨trees, htrees, h⟩ := exists_of_bind_eq_ok h
  cases h
  obtain ⟨normal, rfl⟩ := Toolkit.exists_of_indexModule hm
  obtain ⟨path?, below, rfl, hpath, hbelow⟩ := hplaced.node
  -- the files of the entries stand side by side with what their builders have made
  have hbuilt : List.Forall₂ (IsBuilt fallback files build) entries below :=
    forall₂_placed (Toolkit.buildEach_eq_ok_iff.mp htrees) hbelow hfiles.below
  obtain ⟨members, houtlines, hmembers⟩ := exists_members (hbuilt.imp hbuild)
  obtain ⟨a, rfl, rfl, hindex, hsound⟩ :=
    exists_aggregate (fun hkind => by cases hkind) rfl rfl (hpath rfl) hfiles hmembers
  have hdeclared := hsound.isDeclared
  refine ⟨a, ?_, hsound, isMember_index rfl rfl hindex hdeclared.index hdeclared.exports,
    fun e he => ?_⟩
  · rw [Aggregate.outline, houtlines, Entries.keys, List.map_map]
    rfl
  · obtain ⟨placed, -, hplaced⟩ := exists_right_of_forall₂ hbuilt he
    exact ⟨placed, hplaced⟩

/-! ## Sections -/

/-- The index of a channel declares the aggregate type of its messages. -/
theorem exists_aggregate_of_channelModule {name : String} {channel : ChannelDefinition}
    {tree : OutputTree} (h : t.channelModule name channel = .ok tree)
    (hplaced : IsPlaced tree placed) (hfiles : HasFiles fallback files placed) :
    ∃ a : Aggregate, a.outline = ⟨typeName name, channel.messages.keys.map fun message =>
        ⟨message, typeName name ++ typeName message, .schema⟩⟩ ∧
      a.IsSound t.generator files ∧
      IsMember t.generator files placed ⟨⟨name, typeName name, .index⟩, a.index⟩ := by
  obtain ⟨raw, hraw, h⟩ := exists_of_bind_eq_ok h
  cases h
  obtain ⟨a, houtline, hsound, hmember, -⟩ := exists_aggregate_of_aggregateIndex
    (fun message => ⟨message, typeName name ++ typeName message, .schema⟩) hraw hplaced hfiles <| by
      rintro e placed ⟨tree, htree, hplaced, hfiles⟩
      exact exists_member_of_schemaModule htree hplaced hfiles
  exact ⟨a, houtline, hsound, hmember⟩

/-- The type through which a section is reached. -/
def SectionKind.typeName : SectionKind → String
  | .configuration => "Configuration"
  | .events => "Events"
  | .states => "States"
  | .actions => "Actions"
  | .channels => "Channels"
  | .secrets => "Secrets"

/-- The aggregate types of a section: for channels one that leads to the channels' own. -/
def Definition.aggregates (definition : Definition) : SectionKind → List AggregateOutline
  | .configuration | .secrets => []
  | .events =>
    [⟨"Events", definition.base.events.keys.map fun name => ⟨name, typeName name, .schema⟩⟩]
  | .states =>
    [⟨"States", definition.base.states.keys.map fun name => ⟨name, typeName name, .schema⟩⟩]
  | .actions =>
    match definition.interface? with
    | some i => [⟨"Actions", i.actions.keys.map fun name => ⟨name, typeName name, .pair⟩⟩]
    | none => []
  | .channels =>
    match definition.interface? with
    | some i =>
      ⟨"Channels", i.channels.keys.map fun name => ⟨name, typeName name, .index⟩⟩ ::
        i.channels.map fun (name, channel) =>
          ⟨typeName name, channel.messages.keys.map fun message =>
            ⟨message, typeName name ++ typeName message, .schema⟩⟩
    | none => []

/-- The index of the configuration exports the type that its file declares. -/
theorem exists_member_of_configurationTree {schema : SchemaObject} {tree : OutputTree}
    (h : t.configurationTree schema = .ok tree) (hplaced : IsPlaced (tree.moveUnder segments) placed)
    (hfiles : HasFiles fallback files placed) :
    ∃ source, IsMember t.generator files placed
      ⟨⟨"configuration", "Configuration", .index⟩, source⟩ := by
  obtain ⟨declarations, hsource, h⟩ := exists_of_bind_eq_ok h
  obtain ⟨m, hm, h⟩ := exists_of_bind_eq_ok h
  obtain ⟨content, hcontent, h⟩ := exists_of_bind_eq_ok h
  cases h
  obtain ⟨normal, rfl⟩ := Toolkit.exists_of_indexModule hm
  obtain ⟨path?, below, rfl, hpath, hbelow⟩ := hplaced.node
  obtain ⟨path, rfl⟩ := Option.isSome_iff_exists.mp (hpath rfl)
  obtain ⟨placedContent, _, hplacedContent, hnone, rfl⟩ := List.forall₂_cons_left_iff.mp hbelow
  cases hnone
  obtain ⟨source, -, -, hsourcePath, hamong, hexports⟩ := exists_file_of_schemaSource hsource hcontent
    hplacedContent (hfiles.below placedContent (List.mem_singleton_self _))
  obtain ⟨text, htext, hmem⟩ := hfiles.root rfl
  obtain ⟨view, hview, hpage⟩ := exists_indexView_of_fileText (fun hkind => by cases hkind) htext
  have hview := indexView_of_aggregate?_eq_none rfl hview
  have hpassed : exportedPathsAll [placedContent] = [source.file.path] := by
    obtain ⟨value, children⟩ := placedContent
    rw [exportedPathsAll, exportedPathsAll, List.append_nil, exportedPaths]
    rw [Tree.value] at hsourcePath
    rw [hsourcePath]
  have hconfiguration : Typescript.typeName "Configuration" = "Configuration" := by decide +kernel
  refine ⟨⟨⟨path, text⟩, .index view⟩, isMember_index rfl rfl rfl ⟨hmem, ?_, hpage⟩
    (.passedOn hamong ?_ (hexports.mpr hconfiguration))⟩
  · rw [hview]
  · rw [TypingsBody.passedOn, hview, hpassed]
    exact List.mem_singleton_self _

/-- The index of a section over members declares one aggregate type, through which it is reached. -/
theorem exists_section_of_aggregateIndex {α : Type} {exportName key : String} {doc : List String}
    {build : String → α → Except Failure OutputTree} {entries : Entries α} {tree : OutputTree}
    (outline : String → AggregateMember)
    (h : t.aggregateIndex exportName key doc build entries = .ok tree)
    (hplaced : IsPlaced (tree.moveUnder segments) placed)
    (hfiles : HasFiles fallback files placed)
    (hbuild : ∀ e placed, IsBuilt fallback files build e placed →
      ∃ m : ImportedMember, m.toAggregateMember = outline e.1 ∧
        IsMember t.generator files placed m) :
    (∀ o ∈ [(⟨exportName, entries.keys.map outline⟩ : AggregateOutline)],
      ∃ a : Aggregate, a.outline = o ∧ a.IsSound t.generator files) ∧
    ∃ source, IsMember t.generator files placed ⟨⟨key, exportName, .index⟩, source⟩ := by
  obtain ⟨a, houtline, hsound, hmember, -⟩ :=
    exists_aggregate_of_aggregateIndex outline h hplaced hfiles hbuild
  refine ⟨?_, a.index, hmember⟩
  rw [List.forall_mem_singleton]
  exact ⟨a, houtline, hsound⟩

/-- The tree of a section declares its aggregate types, and all but that of the secrets is reached
through a type. -/
theorem exists_aggregates_of_sectionTree {kind : SectionKind} {definition : Definition}
    {tree : OutputTree} (h : t.sectionTree kind definition = .ok tree)
    (hplaced : IsPlaced (tree.moveUnder segments) placed)
    (hfiles : HasFiles fallback files placed) :
    (∀ outline ∈ definition.aggregates kind, ∃ a : Aggregate, a.outline = outline ∧
      a.IsSound t.generator files) ∧
    (kind ≠ .secrets → ∃ source, IsMember t.generator files placed
      ⟨⟨kind.name, kind.typeName, .index⟩, source⟩) := by
  cases kind with
  | configuration =>
    refine ⟨?_, fun _ => exists_member_of_configurationTree h hplaced hfiles⟩
    intro outline houtline
    cases houtline
  | events =>
    obtain ⟨haggregates, hmember⟩ := exists_section_of_aggregateIndex
      (fun name => ⟨name, typeName name, .schema⟩) h hplaced hfiles <| by
        rintro e placed ⟨tree, htree, hplaced, hfiles⟩
        exact exists_member_of_schemaModule htree hplaced hfiles
    exact ⟨haggregates, fun _ => hmember⟩
  | states =>
    obtain ⟨haggregates, hmember⟩ := exists_section_of_aggregateIndex
      (fun name => ⟨name, typeName name, .schema⟩) h hplaced hfiles <| by
        rintro e placed ⟨tree, htree, hplaced, hfiles⟩
        exact exists_member_of_schemaModule htree hplaced hfiles
    exact ⟨haggregates, fun _ => hmember⟩
  | actions =>
    rw [Toolkit.sectionTree] at h
    split at h
    · next i hi =>
      obtain ⟨haggregates, hmember⟩ := exists_section_of_aggregateIndex
        (fun name => ⟨name, typeName name, .pair⟩) h hplaced hfiles <| by
          rintro e placed ⟨tree, htree, hplaced, hfiles⟩
          exact exists_member_of_actionModule htree hplaced hfiles
      simp only [Definition.aggregates, hi]
      exact ⟨haggregates, fun _ => hmember⟩
    · cases h
  | channels =>
    rw [Toolkit.sectionTree] at h
    split at h
    · next i hi =>
      obtain ⟨a, houtline, hsound, hmember, hbuilt⟩ := exists_aggregate_of_aggregateIndex
        (fun name => ⟨name, typeName name, .index⟩) h hplaced hfiles <| by
          rintro e placed ⟨tree, htree, hplaced, hfiles⟩
          obtain ⟨own, -, -, hown⟩ := exists_aggregate_of_channelModule htree hplaced hfiles
          exact ⟨_, rfl, hown⟩
      refine ⟨?_, fun _ => ⟨a.index, hmember⟩⟩
      simp only [Definition.aggregates, hi, List.forall_mem_cons, List.forall_mem_map]
      refine ⟨⟨a, houtline, hsound⟩, fun e he => ?_⟩
      -- A channel's own aggregate type is in the index that is built for it.
      obtain ⟨placed, tree, htree, hplaced, hfiles⟩ := hbuilt e he
      obtain ⟨own, hown, hownSound, -⟩ := exists_aggregate_of_channelModule htree hplaced hfiles
      exact ⟨own, hown, hownSound⟩
    · cases h
  | secrets =>
    refine ⟨?_, fun hne => absurd rfl hne⟩
    intro outline houtline
    cases houtline

end SchemaTypings
