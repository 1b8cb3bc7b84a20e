/-
  SchemaTypings.Proofs.Package.Closure

  The typings of a definition import only what is exported, but for names that sanitising changes.
  The aggregate types of all sections, of each channel and of an installed instance have the names of
  the entries as keys, in order; a type is exported by the file that it is imported from exactly if
  the names for its schemas are type names already.
-/
import SchemaTypings.Proofs.Package.Standard
import SchemaTypings.Proofs.Section.Aggregate

namespace SchemaTypings

open Typescript (typeName)

variable {t : Toolkit} {fallback : IndexRenderer} {files : List File} {definition : Definition}

/-! ## Sections of a definition -/

/-- The placed sections declare their aggregate types, and are members of what aggregates them. -/
theorem forall₂_of_isPlaced_sections {trees : List OutputTree} {below : List PlacedTree}
    (h : sectionTrees t .standard definition = .ok trees)
    (hplaced : List.Forall₂ IsPlaced trees below)
    (hfiles : ∀ placed ∈ below, HasFiles fallback files placed) :
    List.Forall₂ (fun kind placed =>
      (∀ outline ∈ definition.aggregates kind, ∃ a : Aggregate, a.outline = outline ∧
        a.IsSound t.generator files) ∧
      (kind ≠ .secrets → ∃ source, IsMember t.generator files placed
        ⟨⟨kind.name, kind.typeName, .index⟩, source⟩)) definition.sections below := by
  refine (forall₂_placed (sectionTrees_eq_ok_iff.mp h) hplaced hfiles).imp ?_
  rintro kind placed ⟨_, ⟨raw, hraw, rfl⟩, hplaced, hfiles⟩
  exact exists_aggregates_of_sectionTree hraw hplaced hfiles

/-! ## Definitions -/

/-- The files of the typings of a definition of any kind. -/
def Toolkit.generate (t : Toolkit) (definition : Definition) (path : String) :
    Except Failure (List File) :=
  match definition with
  | .instance installed => generateInstance t .standard installed path
  | _ => generateTypings t .standard definition path

/-- All aggregate types of the typings of a definition; those of an installed instance have one over
their sections. -/
def Definition.allAggregates (definition : Definition) : List AggregateOutline :=
  (match definition with
    | .instance installed => [⟨instanceTypeName installed.name,
        definition.sections.map fun kind => ⟨kind.name, kind.typeName, .index⟩⟩]
    | _ => []) ++
  definition.sections.flatMap definition.aggregates

/-- The aggregate types of the sections are declared wherever the sections have their files. -/
theorem exists_aggregate_of_sections {trees : List OutputTree} {below : List PlacedTree}
    (h : sectionTrees t .standard definition = .ok trees)
    (hplaced : List.Forall₂ IsPlaced trees below)
    (hfiles : ∀ placed ∈ below, HasFiles fallback files placed) :
    ∀ outline ∈ definition.sections.flatMap definition.aggregates, ∃ a : Aggregate,
      a.outline = outline ∧ a.IsSound t.generator files := by
  intro outline houtline
  obtain ⟨kind, hkind, houtline⟩ := List.mem_flatMap.mp houtline
  have hsections := forall₂_of_isPlaced_sections h hplaced hfiles
  obtain ⟨placed, -, haggregates, -⟩ := exists_right_of_forall₂ hsections hkind
  exact haggregates outline houtline

/-- A module over the sections of a definition, when it is flattened. -/
theorem exists_sections_of_rootTree {root : OutputModule.Description} {tree : OutputTree}
    {segments : List String} (h : rootTree t .standard definition root = .ok tree)
    (hfiles : (tree.moveUnder segments).flatten = .ok files) :
    ∃ m trees path? below, OutputModule.ofDescription root = .ok m ∧
      sectionTrees t .standard definition = .ok trees ∧ (m.ownPath?.isSome → path?.isSome) ∧
      List.Forall₂ IsPlaced trees below ∧
      HasFiles defaultRenderer files (.node ⟨m.moveUnder segments, path?⟩ below) := by
  rw [rootTree] at h
  split at h
  · cases h
  · next m hm =>
    obtain ⟨trees, htrees, rfl⟩ := exists_of_map_eq_ok h
    obtain ⟨placed, hplaced, hall⟩ := exists_placed_of_flatten hfiles
    obtain ⟨path?, below, rfl, hpath, hbelow⟩ := hplaced.node
    exact ⟨m, trees, path?, below, hm, htrees, hpath, hbelow, hall⟩

theorem exists_aggregate_of_generateTypings {path : String}
    (h : generateTypings t .standard definition path = .ok files) :
    ∀ outline ∈ definition.sections.flatMap definition.aggregates, ∃ a : Aggregate,
      a.outline = outline ∧ a.IsSound t.generator files := by
  rw [generateTypings] at h
  split at h
  · cases h
  · next tree htree =>
    unfold implementationTree at htree
    split at htree
    · cases htree
    · obtain ⟨m, trees, path?, below, -, htrees, -, hbelow, hall⟩ :=
        exists_sections_of_rootTree htree h
      exact exists_aggregate_of_sections htrees hbelow hall.below

theorem exists_aggregate_of_generateInstance {installed : InstalledIntegration} {path : String}
    (h : generateInstance t .standard installed path = .ok files) :
    ∀ outline ∈ (Definition.instance installed).allAggregates, ∃ a : Aggregate,
      a.outline = outline ∧ a.IsSound t.generator files := by
  obtain ⟨tree, htree, h⟩ := exists_of_bind_eq_ok h
  obtain ⟨own, hown, h⟩ := exists_of_bind_eq_ok h
  obtain ⟨recordPath, -, h⟩ := exists_of_bind_eq_ok h
  have hsub : own ⊆ files := by
    split at h
    · cases h
    · cases h
      exact List.subset_append_left _ _
  obtain ⟨m, trees, path?, below, hm, htrees, hpath, hbelow, hall⟩ :=
    exists_sections_of_rootTree htree hown
  have hall := hall.mono hsub
  rw [Definition.allAggregates, List.forall_mem_append, List.forall_mem_singleton]
  refine ⟨?_, exists_aggregate_of_sections htrees hbelow hall.below⟩
  -- The index of the instance lists all sections, none of which are secrets.
  have hlisted : ∀ kind ∈ [SectionKind.configuration, .events, .states, .actions, .channels],
      kind ≠ .secrets := by decide
  have hrow : List.Forall₂ (fun kind placed => ∃ m : ImportedMember,
      m.toAggregateMember = ⟨kind.name, kind.typeName, .index⟩ ∧
        IsMember t.generator files placed m) (Definition.instance installed).sections below := by
    have hsections := forall₂_of_isPlaced_sections htrees hbelow hall.below
    refine ((List.forall₂_and_left _ _).mpr ⟨hlisted, hsections⟩).imp ?_
    rintro kind placed ⟨hkind, -, hsource⟩
    obtain ⟨source, hsource⟩ := hsource hkind
    exact ⟨_, rfl, hsource⟩
  obtain ⟨members, houtlines, hmembers⟩ := exists_members hrow
  obtain ⟨source, hsource, rfl⟩ := exists_of_map_eq_ok hm
  obtain ⟨normal, -, rfl⟩ := exists_of_map_eq_ok hsource
  obtain ⟨a, hname, rfl, -, hsound⟩ :=
    exists_aggregate (fun hkind => by cases hkind) rfl rfl (hpath rfl) hall hmembers
  refine ⟨a, ?_, hsound⟩
  rw [Aggregate.outline, houtlines, hname]

/-- The typings of a definition have all its aggregate types, each with the names of its entries as
keys in order.  A member of one is closed exactly if it is well named: its key is read as the name
of the entry, and the file that its type is imported from exports the type, for an action with those
of the input and the output. -/
theorem exists_aggregate_of_generate {path : String}
    (h : t.generate definition path = .ok files) :
    ∀ outline ∈ definition.allAggregates, ∃ a : Aggregate, a.outline = outline ∧
      a.IsDeclared t.generator files ∧
      ∀ m ∈ a.members, m.IsClosed t.generator files ↔ m.IsWellNamed := by
  intro outline houtline
  have hsound : ∃ a : Aggregate, a.outline = outline ∧ a.IsSound t.generator files := by
    rcases definition with b | i | i
    · exact exists_aggregate_of_generateTypings h outline houtline
    · exact exists_aggregate_of_generateTypings h outline houtline
    · exact exists_aggregate_of_generateInstance h outline houtline
  obtain ⟨a, ha, hdeclared, hclosed⟩ := hsound
  exact ⟨a, ha, hdeclared, hclosed⟩

/-- A bot with an event of a plain name, and one whose type name would be sanitised once more. -/
def eventBot : Definition :=
  .bot { configuration := textSchema, events := [("ready", ⟨textSchema, {}⟩), ("x-y", ⟨textSchema, {}⟩)] }

theorem eventModule_ready : Toolkit.eventModule {} "ready" ⟨textSchema, {}⟩ =
    .ok (.leaf (textModule "Ready" "Ready" "ready.ts" (some "ready"))) :=
  Toolkit.eventModule_textSchema (by decide +kernel) (by decide +kernel) (by decide +kernel)

theorem eventModule_xy : Toolkit.eventModule {} "x-y" ⟨textSchema, {}⟩ =
    .ok (.leaf (textModule "XY" "Xy" "x-y.ts" (some "x-y"))) :=
  Toolkit.eventModule_textSchema (by decide +kernel) (by decide +kernel) (by decide +kernel)

/-- The trees of the sections of the bot. -/
def eventBotTrees : List OutputTree :=
  botSections [OutputTree.leaf (textModule "Ready" "Ready" "ready.ts" (some "ready")),
    OutputTree.leaf (textModule "XY" "Xy" "x-y.ts" (some "x-y"))] []

theorem sectionTrees_eventBot : sectionTrees {} .standard eventBot = .ok eventBotTrees :=
  sectionTrees_bot rfl
    (Toolkit.buildEach_eq_ok_iff.mpr (.cons eventModule_ready (.cons eventModule_xy .nil))) rfl

theorem exists_files_eventBot : ∃ files, Toolkit.generate {} eventBot "out" = .ok files := by
  refine exists_ok_of_isSome_toOption ?_
  change (generateTypings {} .standard eventBot "out").toOption.isSome = true
  simp only [generateTypings, implementationTree, rootTree, sectionTrees_eventBot,
    OutputTree.flatten_eq]
  decide +kernel

/-- Of the two events the second is imported under a name that its file does not export. -/
theorem exists_aggregate_of_generate_eventBot :
    ∃ files, Toolkit.generate {} eventBot "out" = .ok files ∧ ∃ a : Aggregate,
      a.outline = ⟨"Events", [⟨"ready", "Ready", .schema⟩, ⟨"x-y", "XY", .schema⟩]⟩ ∧
        a.IsDeclared .default files ∧
        ∀ m ∈ a.members, m.IsClosed .default files ↔ m.key = "ready" := by
  obtain ⟨files, hfiles⟩ := exists_files_eventBot
  have hevents : ⟨"Events", [⟨"ready", "Ready", .schema⟩, ⟨"x-y", "XY", .schema⟩]⟩ ∈
      eventBot.allAggregates := by decide +kernel
  obtain ⟨a, houtline, hdeclared, hclosed⟩ := exists_aggregate_of_generate hfiles _ hevents
  refine ⟨files, hfiles, a, houtline, hdeclared, fun m hm => ?_⟩
  have hmem : m.toAggregateMember ∈ a.outline.members := List.mem_map_of_mem hm
  rw [houtline, List.mem_cons, List.mem_singleton] at hmem
  have hready : typeName "Ready" = "Ready" := by decide +kernel
  have hxy : typeName "XY" ≠ "XY" := by decide +kernel
  obtain ⟨member, source⟩ := m
  rcases hmem with rfl | rfl
  · refine (hclosed _ hm).trans ⟨fun _ => rfl, fun _ => ⟨by simp [Typescript.IsFedIdentifier], ?_⟩⟩
    rw [AggregateMember.schemaNames, List.forall_mem_singleton]
    exact hready
  · have hkey : "x-y" ≠ "ready" := by decide
    refine (hclosed _ hm).trans ⟨fun hnamed => ?_, fun heq => absurd heq hkey⟩
    exact absurd (hnamed.types "XY" (List.mem_singleton_self _)) hxy

end SchemaTypings
