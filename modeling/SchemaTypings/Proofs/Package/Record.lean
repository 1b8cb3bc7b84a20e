/-
  SchemaTypings.Proofs.Package.Record

  The record of an instance's metadata.  It is the last file, has a path of its own and is read back
  as the metadata.  Its path is worked out on its own, from the joined directories; it lies beside the
  index of the instance if both ways cut the directories alike.
-/
import SchemaTypings.Proofs.Json.Record
import SchemaTypings.Proofs.Package.Pointing

namespace SchemaTypings

open SchemaTypings.Path (Component IsName place? written)
open OutputModule (cleanSegments)

/-! ## Paths that are collapsed -/

namespace Path

/-- What is written down is in normal form. -/
theorem normalize?_written {place : List Component} (h : ∀ c ∈ place, IsName c) :
    normalize? (written place) = some (written place) := by
  have hplain : withSlashes (written place) = written place :=
    withSlashes_eq_self (not_mem_backslash_written h)
  rw [normalize?_of_not_isRooted (by rw [hplain, isRooted_written h]), place?_written h,
    Option.map_some]

/-- A path behind a directory ends in its own components. -/
theorem exists_components_append (directory : List Char) {path : List Char}
    (hpath : isRooted path = false) :
    ∃ front, components (append directory path) = front ++ components path := by
  rw [append, hpath, if_neg Bool.false_ne_true]
  split
  · next hends =>
    rcases hends with rfl | hlast
    · exact ⟨[], rfl⟩
    · obtain ⟨front, rfl⟩ := List.getLast?_eq_some_iff.mp hlast
      refine ⟨components front, ?_⟩
      rw [List.append_assoc]
      exact Text.splitAt_append_cons front path
  · exact ⟨components directory, Text.splitAt_append_cons directory path⟩

/-- A walk goes down a name at the end. -/
theorem walk_append_isName (rooted : Bool) (front : List Component) {name : Component}
    (h : IsName name) : walk rooted (front ++ [name]) = walk rooted front ++ [name] := by
  have hstep : ∀ place, step rooted place name = name :: place := fun place =>
    (if_neg (not_or.mpr ⟨h.ne_nil, h.ne_here⟩)).trans (if_neg h.ne_above)
  rw [walk, walk, List.foldl_append, List.foldl_cons, List.foldl_nil, hstep, List.reverse_cons]

/-- Pieces that are joined alike are the same. -/
theorem joinWith_inj {cs ds : List Component} (hcs : ∀ c ∈ cs, IsPiece c)
    (hds : ∀ d ∈ ds, IsPiece d) (h : Text.joinWith ['/'] cs = Text.joinWith ['/'] ds) :
    cs = ds := by
  by_cases hempty : cs = [] ∨ ds = []
  · have hnil : cs = [] ∧ ds = [] := by
      rcases hempty with rfl | rfl
      · exact ⟨rfl, by_contra fun hne => joinWith_ne_nil hds hne h.symm⟩
      · exact ⟨by_contra fun hne => joinWith_ne_nil hcs hne h, rfl⟩
    rw [hnil.1, hnil.2]
  · rw [not_or] at hempty
    rw [← Text.splitAt_joinWith hempty.1 fun c hc => (hcs c hc).no_slash, h,
      Text.splitAt_joinWith hempty.2 fun d hd => (hds d hd).no_slash]

end Path

/-! ## The place of the record -/

/-- The name of the record under the default layout. -/
def recordName : Component := "integration.json".toList

theorem isName_recordName : IsName recordName :=
  ⟨⟨by decide, by decide, by decide, by decide⟩, by decide⟩

/-- The joined path of the record, not yet collapsed. -/
def joinedRecord (path directory : String) : List Char :=
  Path.join [path.toList, directory.toList] recordName

/-- Where the walk along the joined path leads. -/
def recordPlace (path directory : String) : List Component :=
  Path.walk (Path.isRooted (joinedRecord path directory))
    (Path.components (joinedRecord path directory))

/-- Whether a record lies beside an index: in the same directory, with a path in normal form that
does not leave the root. -/
structure IsBeside (index record : String) : Prop where
  directory : Path.directory record.toList = Path.directory index.toList
  normal : Path.normalizeString? record = some record
  inside : IsInside record

/-- The walk to the record ends in its name. -/
theorem exists_recordPlace (path directory : String) :
    ∃ front, recordPlace path directory = front ++ [recordName] ∧ ∀ c ∈ front, '/' ∉ c := by
  have hlast : Path.components recordName = [recordName] :=
    Text.splitAt_of_not_mem isName_recordName.no_slash
  obtain ⟨cs, hcs⟩ := Path.exists_components_append (Path.append path.toList directory.toList)
    (Path.isRooted_of_isSegment isName_recordName.toIsSegment)
  rw [hlast] at hcs
  have hjoined : Path.components (joinedRecord path directory) = cs ++ [recordName] := hcs
  refine ⟨Path.walk (Path.isRooted (joinedRecord path directory)) cs, ?_,
    Path.forall_mem_walk (by decide) fun c hc => ?_⟩
  · rw [recordPlace, hjoined, Path.walk_append_isName _ _ isName_recordName]
  · exact Text.not_mem_of_mem_splitAt '/' _ c
      (hjoined ▸ List.mem_append_left _ hc : c ∈ Path.components (joinedRecord path directory))

/-- The path of the record writes down where the walk leads. -/
theorem metadataPath_default (generator : Config) (external? : Option (Json → Except Fault Json))
    (path directory : String) : metadataPath { generator, external? } path directory =
      .ok (String.ofList (Text.joinWith ['/'] (recordPlace path directory))) := by
  have hfile : Config.default.instanceMetadataFile = .str "integration.json" := rfl
  obtain ⟨front, hplace, -⟩ := exists_recordPlace path directory
  have hcollapse : Path.collapse (joinedRecord path directory) =
      Text.joinWith ['/'] (recordPlace path directory) := by
    rw [Path.collapse, ← recordPlace, hplace]
    cases front <;> rfl
  rw [metadataPath, ← hcollapse]
  simp only [hfile]
  rfl

/-- The record lies beside the index exactly if the walk to it leads into the place of the index. -/
theorem isBeside_iff {place : List Component} (hnames : ∀ c ∈ place, IsName c)
    (path directory : String) :
    IsBeside (String.ofList (written (place ++ [indexName])))
        (String.ofList (Text.joinWith ['/'] (recordPlace path directory))) ↔
      recordPlace path directory = place ++ [recordName] := by
  have hall : ∀ {name}, IsName name → ∀ c ∈ place ++ [name], IsName c := fun hname c hc =>
    (List.mem_append.mp hc).elim (hnames c) fun hc => List.mem_singleton.mp hc ▸ hname
  have hdirectory : ∀ {name}, IsName name →
      Path.directory (written (place ++ [name])) = Text.joinWith ['/'] place := by
    intro name hname
    rw [Path.directory_written (Path.forall_isProper (hall hname)) (List.concat_ne_nil _ _),
      List.dropLast_concat]
  constructor
  · intro h
    obtain ⟨front, hplace, hfront⟩ := exists_recordPlace path directory
    rw [hplace] at h ⊢
    have hne : front ++ [recordName] ≠ [] := List.concat_ne_nil _ _
    have hcomponents : Path.components (Text.joinWith ['/'] (front ++ [recordName])) =
        front ++ [recordName] := by
      refine Text.splitAt_joinWith hne fun c hc => ?_
      exact (List.mem_append.mp hc).elim (hfront c) fun hc =>
        List.mem_singleton.mp hc ▸ isName_recordName.no_slash
    -- A path in normal form that ends in the record's name is a row of names.
    have hrow : ∀ c ∈ front ++ [recordName], IsName c := by
      have hnormal := h.normal
      rw [Path.normalizeString?, String.toList_ofList] at hnormal
      obtain ⟨normal, hsome, heq⟩ := Option.map_eq_some_iff.mp hnormal
      obtain rfl := String.ofList_inj.mp heq
      rcases Path.isNormal_of_normalize? hsome with hnil | ⟨q, hq, hwritten⟩
      · rw [hnil] at hcomponents
        exact absurd (congrArg List.getLast? hcomponents) (by rw [List.getLast?_concat]; decide)
      · have hsome : q ≠ [] := by
          rintro rfl
          rw [hwritten] at hcomponents
          exact absurd (congrArg List.getLast? hcomponents) (by rw [List.getLast?_concat]; decide)
        rw [hwritten, Path.components_written hq hsome] at hcomponents
        exact hcomponents ▸ hq
    have hjoined := h.directory
    rw [String.toList_ofList, String.toList_ofList, hdirectory isName_indexName,
      ← Path.written_of_ne_nil hne, Path.directory_written (Path.forall_isProper hrow) hne,
      List.dropLast_concat] at hjoined
    rw [List.forall_mem_append] at hrow
    rw [Path.joinWith_inj (fun c hc => (hrow.1 c hc).isPiece)
      (fun c hc => (hnames c hc).isPiece) hjoined]
  · intro h
    have hwritten : Text.joinWith ['/'] (recordPlace path directory) =
        written (place ++ [recordName]) := by
      rw [h, Path.written_of_ne_nil (List.concat_ne_nil _ _)]
    rw [hwritten]
    refine ⟨?_, ?_, isInside_written (hall isName_recordName)⟩
    · simp only [String.toList_ofList, hdirectory isName_recordName, hdirectory isName_indexName]
    · rw [Path.normalizeString?, String.toList_ofList,
        Path.normalize?_written (hall isName_recordName), Option.map_some]

/-! ## Instances -/

/-- Under the default layout, the files of an installed instance are the index, others and last the
record of its metadata: at a path that no other file has, and read back as the name, the version and
the identifier of the instance.  The record lies beside the index exactly if the walk along the joined
path, which does not take a backslash for a slash and starts anew at a directory that begins with a
slash, leads into the place of the index; so it does where the directories are cut alike. -/
theorem record_of_generateInstance (generator : Config)
    (external? : Option (Json → Except Fault Json)) (installed : InstalledIntegration)
    (path : String) (files : List File)
    (h : generateInstance { generator, external? } .standard installed path = .ok files) :
    ∃ index others record place, files = index :: (others ++ [record]) ∧
      (∀ f ∈ index :: others, f.path ≠ record.path) ∧
      Json.parse record.content = .ok (.obj [("name", .str installed.name),
        ("version", .str installed.version), ("id", .str installed.id)]) ∧
      place? ((cleanSegments [path, Naming.kebabCase installed.name]).map String.toList) =
        some place ∧
      index.path = String.ofList (written (place ++ [indexName])) ∧
      (IsBeside index.path record.path ↔
        recordPlace path (Naming.kebabCase installed.name) = place ++ [recordName]) ∧
      (IsCutAlike [path, Naming.kebabCase installed.name] → IsBeside index.path record.path) := by
  obtain ⟨tree, htree, h⟩ := exists_of_bind_eq_ok h
  obtain ⟨own, hown, h⟩ := exists_of_bind_eq_ok h
  obtain ⟨recordPath, hrecord, h⟩ := exists_of_bind_eq_ok h
  rw [metadataPath_default, Except.ok.injEq] at hrecord
  subst hrecord
  split at h
  · cases h
  · next hfree =>
    cases h
    -- the index is the file of the root, which is the first one
    obtain ⟨index, hindex, place, hplace, hpath⟩ := exists_root_of_rootTree rfl htree hown
    obtain ⟨others, rfl⟩ := List.head?_eq_some_iff.mp hindex
    have hnames : ∀ c ∈ place, IsName c := by
      refine Path.isName_of_place? ?_ hplace
      rw [List.forall_mem_map]
      exact fun d hd _ _ => OutputModule.isSegment_of_mem_cleanSegments hd
    have hbeside := isBeside_iff hnames path (Naming.kebabCase installed.name)
    rw [← hpath] at hbeside
    refine ⟨index, others, _, place, rfl, ?_, ?_, hplace, hpath, hbeside, fun hcut => ?_⟩
    · simpa using hfree
    · rw [Json.parse_recordText]
      rfl
    · exact hbeside.mpr (Path.walk_of_place? _ (place?_components_join hcut hplace isName_recordName))

/-- The instance of the detours, its directory spelled with a full stop and slashes. -/
theorem record_of_generateInstance_detours :
    ∃ files, generateInstance {} .standard dottedInstance "bots/../bot" = .ok files ∧
      ∃ index others record, files = index :: (others ++ [record]) ∧
        IsBeside index.path record.path ∧
        Json.parse record.content = .ok (.obj [("name", .str "up.low"), ("version", .str "1.0.0"),
          ("id", .str "i")]) := by
  obtain ⟨files, hfiles⟩ := exists_files_dottedInstance
  obtain ⟨index, others, record, place, hrow, -, hparse, -, -, -, hbeside⟩ :=
    record_of_generateInstance .default none dottedInstance "bots/../bot" files hfiles
  have hcut : IsCutAlike ["bots/../bot", Naming.kebabCase dottedInstance.name] :=
    ⟨List.cons_ne_nil _ _, by decide +kernel, by decide +kernel⟩
  exact ⟨files, hfiles, index, others, record, hrow, hbeside hcut, hparse⟩

/-- A backslash parts directories for the index but not for the record. -/
theorem not_isBeside_of_backslash :
    ∃ files index record, generateInstance {} .standard dottedInstance "bot\\installs" = .ok files ∧
      files.head? = some index ∧ files.getLast? = some record ∧
      ¬IsBeside index.path record.path := by
  have hpaths : (generateInstance {} .standard dottedInstance "bot\\installs").toOption.map
      (fun files => (files.head?.map File.path, files.getLast?.map File.path)) =
        some (some "bot/installs/up-low/index.ts", some "bot\\installs/up-low/integration.json") := by
    simp only [generateInstance, instanceTree, rootTree, sectionTrees_dottedInstance,
      Typescript.exportedNames_metadataSource, OutputTree.flatten_eq]
    decide +kernel
  obtain ⟨files, hfiles, hends⟩ := exists_ok_of_map_toOption hpaths
  obtain ⟨hfirst, hlast⟩ := Prod.mk.inj hends
  obtain ⟨index, hindex, hindexPath⟩ := Option.map_eq_some_iff.mp hfirst
  obtain ⟨record, hrecord, hrecordPath⟩ := Option.map_eq_some_iff.mp hlast
  refine ⟨files, index, record, hfiles, hindex, hrecord, fun h => ?_⟩
  have hdirectory := h.directory
  rw [hindexPath, hrecordPath] at hdirectory
  exact absurd hdirectory (by decide +kernel)

end SchemaTypings
