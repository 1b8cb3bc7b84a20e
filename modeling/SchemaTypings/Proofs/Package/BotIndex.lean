/-
  SchemaTypings.Proofs.Package.BotIndex

  The names under which the index of a bot imports installed instances.

  Identifiers are compared as they are handed out, so that no two are the same, and the first two
  instances that share one are reported.  Nothing else is checked, and names are not cleaned: an
  instance has the identifier, type name and directory that its name gives it.
-/
import SchemaTypings.Proofs.Package.Pointing
import SchemaTypings.Proofs.Naming.Spelled

namespace SchemaTypings

/-! ## Imports -/

/-- What the index imports for an instance. -/
def importOf (layout : Config) (installPath name : String) : Typescript.InstanceImport :=
  ⟨instanceIdentifier name,
    Path.specifierString layout.indexFile
      (Path.joinStrings [installPath, Naming.kebabCase name] layout.indexFile),
    instanceTypeName name⟩

/-- The first two names with one identifier: the second is the first to repeat one, and the first is
the one that it repeats. -/
def IsFirstClash (names : List String) (a b : String) : Prop :=
  ∃ front behind, names = front ++ b :: behind ∧ a ∈ front ∧
    instanceIdentifier a = instanceIdentifier b ∧ (front.map instanceIdentifier).Nodup

theorem Path.eq_nil_of_append_eq_nil {directory path : List Char}
    (h : Path.append directory path = []) : directory = [] ∧ path = [] := by
  rw [Path.append] at h
  split at h
  · next hrooted =>
    subst h
    cases hrooted
  · split at h
    · exact List.append_eq_nil_iff.mp h
    · exact absurd h (List.append_ne_nil_of_right_ne_nil _ (List.cons_ne_nil _ _))

theorem Path.eq_empty_of_joinStrings_eq_empty {directory inner file : String}
    (h : Path.joinStrings [directory, inner] file = "") : file = "" ∧ directory = "" := by
  have hnil : Path.append (Path.append directory.toList inner.toList) file.toList = [] := by
    have hchars := congrArg String.toList h
    rwa [Path.joinStrings, String.toList_ofList] at hchars
  obtain ⟨hdirectories, hfile⟩ := Path.eq_nil_of_append_eq_nil hnil
  exact ⟨String.toList_eq_nil_iff.mp hfile,
    String.toList_eq_nil_iff.mp (Path.eq_nil_of_append_eq_nil hdirectories).1⟩

/-- A specifier can be made unless nothing at all is given of the path. -/
theorem indexSpecifier_cases (layout : Config) (installPath name : String) :
    indexSpecifier layout [installPath, Naming.kebabCase name] =
        .ok (importOf layout installPath name).specifier ∨
      (layout.indexFile = "" ∧ installPath = "") ∧
        indexSpecifier layout [installPath, Naming.kebabCase name] =
          .error (.fault .emptyTarget) := by
  rw [indexSpecifier, Path.specifierString?]
  by_cases hempty : Path.joinStrings [installPath, Naming.kebabCase name] layout.indexFile = ""
  · rw [if_pos hempty]
    exact .inr ⟨Path.eq_empty_of_joinStrings_eq_empty hempty, rfl⟩
  · rw [if_neg hempty]
    exact .inl rfl

/-- The names that are kept are those of instances so far, under their identifiers. -/
def Remembers (seen : Entries String) (front : List String) : Prop :=
  ∀ identifier, seen.get? identifier = front.find? fun name => instanceIdentifier name = identifier

theorem Remembers.insert {seen : Entries String} {front : List String} {name : String}
    (h : Remembers seen front) (hnew : seen.get? (instanceIdentifier name) = none) :
    Remembers (seen.insert (instanceIdentifier name) name) (front ++ [name]) := by
  intro identifier
  rw [List.find?_append, ← h]
  by_cases heq : instanceIdentifier name = identifier
  · rw [← heq, Entries.get?_insert_self, hnew]
    simp
  · rw [Entries.get?_insert_of_ne _ _ heq]
    simp [heq]

/-- Instances are imported as long as their identifiers are new. -/
theorem instanceImports_cases (layout : Config) (installPath : String) {seen : Entries String}
    {front : List String} (hseen : Remembers seen front)
    (hfront : (front.map instanceIdentifier).Nodup) (names : List String) :
    ((front ++ names).map instanceIdentifier).Nodup ∧
        instanceImports layout installPath seen names =
          .ok (names.map (importOf layout installPath)) ∨
      (∃ a b, IsFirstClash (front ++ names) a b ∧
        instanceImports layout installPath seen names =
          .error (.generation (.nameCollision (instanceIdentifier a) [a, b]))) ∨
      (layout.indexFile = "" ∧ installPath = "") ∧
        instanceImports layout installPath seen names = .error (.fault .emptyTarget) := by
  -- `front` are the names before: exactly their identifiers are remembered, and these differ
  induction names generalizing seen front with
  | nil =>
    rw [List.append_nil]
    exact .inl ⟨hfront, rfl⟩
  | cons name rest ih =>
    rw [instanceImports]
    cases hknown : seen.get? (instanceIdentifier name) with
    | some other =>
      have hfind := (hseen _).symm.trans hknown
      have hother : instanceIdentifier other = instanceIdentifier name := by
        simpa using List.find?_some hfind
      refine .inr (.inl ⟨other, name, ⟨front, rest, rfl, List.mem_of_find?_eq_some hfind, hother,
        hfront⟩, ?_⟩)
      rw [hother]
    | none =>
      have hfresh : ((front ++ [name]).map instanceIdentifier).Nodup := by
        have hfind := (hseen _).symm.trans hknown
        rw [List.map_append, List.nodup_append]
        refine ⟨hfront, List.nodup_singleton _, ?_⟩
        rintro identifier hmem _ hsame rfl
        obtain ⟨other, hother, heq⟩ := List.mem_map.mp hmem
        rw [List.map_singleton, List.mem_singleton] at hsame
        simpa [heq, hsame] using List.find?_eq_none.mp hfind other hother
      have hrest := ih (hseen.insert hknown) hfresh
      rw [List.append_assoc, List.singleton_append] at hrest
      rcases indexSpecifier_cases layout installPath name with hspecifier | ⟨hempty, hspecifier⟩
      · rw [hspecifier]
        dsimp only
        rcases hrest with ⟨hnodup, heq⟩ | ⟨a, b, hclash, heq⟩ | ⟨hempty, heq⟩
        · exact .inl ⟨hnodup, by rw [heq]; rfl⟩
        · exact .inr (.inl ⟨a, b, hclash, by rw [heq]; rfl⟩)
        · exact .inr (.inr ⟨hempty, by rw [heq]; rfl⟩)
      · exact .inr (.inr ⟨hempty, by rw [hspecifier]⟩)

/-- A module that has its text and nothing below it is one file. -/
theorem exists_file_of_flatten_leaf {m : OutputModule} {own text : String} {files : List File}
    (hm : m.source = .content own text) (h : (OutputTree.leaf m).flatten = .ok files) :
    ∃ path, files = [⟨path, text⟩] := by
  rw [OutputTree.flatten] at h
  split at h
  · cases h
  · next placed hplaced =>
    obtain ⟨path, -, rfl⟩ := exists_of_placeTree_leaf hm hplaced
    rw [Tree.subtrees, Tree.subtreesAll, filesOf] at h
    simp only [fileText, hm, Entries.get?_nil, filesOf] at h
    cases h
    exact ⟨path, rfl⟩

/-- An index that is written on its own is one file, whatever its place is. -/
theorem exists_file_of_indexFiles {layout : Config} {exportName text : String} {files : List File}
    (h : indexFiles layout exportName text = .ok files) : ∃ path, files = [⟨path, text⟩] := by
  rw [indexFiles] at h
  split at h
  · cases h
  · next m hm =>
    obtain ⟨source, hsource, rfl⟩ := exists_of_map_eq_ok hm
    obtain ⟨path, -, rfl⟩ : ∃ path, OutputModule.normalPath layout.indexFile = .ok path ∧
        ModuleSource.content path text = source := exists_of_map_eq_ok hsource
    exact exists_file_of_flatten_leaf rfl h

/-! ## Names -/

/-- A name without words: separators and underscores. -/
def IsWordless (name : String) : Prop :=
  ∀ c ∈ name.toList, Naming.isSeparator c = true ∨ c = '_'

instance (name : String) : Decidable (IsWordless name) :=
  List.decidableBAll (fun c => Naming.isSeparator c = true ∨ c = '_') name.toList

/-- A name whose parts make an identifier: beside separators it has only what an identifier may
hold, and its words begin with what one may begin with; or it is underscores. -/
def IsIdentifiable (name : String) : Prop :=
  (Naming.leader? name.toList).map Naming.startsIdentifier = some true ∧
      Naming.HasIdentifierParts name.toList ∨
    name ≠ "" ∧ ∀ c ∈ name.toList, c = '_'

instance (name : String) : Decidable (IsIdentifiable name) :=
  -- All of a name is looked at, and not all characters.
  letI : Decidable (∀ c ∈ name.toList, c = '_') := List.decidableBAll (· = '_') name.toList
  inferInstanceAs (Decidable (_ ∧ _ ∨ _ ∧ ∀ c ∈ name.toList, c = '_'))

theorem isIdentifierName_instanceIdentifier_iff (name : String) :
    Naming.IsIdentifierName (instanceIdentifier name).toList ↔ IsIdentifiable name := by
  rw [instanceIdentifier, Naming.camelCase, String.toList_ofList,
    Naming.isIdentifierName_camel_iff, IsIdentifiable, Ne, Ne, String.toList_eq_nil_iff]

/-- A reserved word is the identifier of the names of which it is the one word. -/
theorem instanceIdentifier_mem_reservedWords_iff (name : String) :
    instanceIdentifier name ∈ Typescript.reservedWords ↔
      Naming.snakeCase name ∈ Typescript.reservedWords := by
  have hsmall : ∀ word ∈ Typescript.reservedWords,
      word.toList ≠ [] ∧ word.toList.all Char.isLower = true := by decide +kernel
  have hsame : ∀ word ∈ Typescript.reservedWords,
      instanceIdentifier name = word ↔ Naming.snakeCase name = word := by
    intro word hword
    obtain ⟨hne, hlower⟩ := hsmall word hword
    rw [instanceIdentifier, Naming.camelCase, Naming.snakeCase, ← String.toList_inj,
      ← String.toList_inj, String.toList_ofList, String.toList_ofList]
    exact Naming.camel_eq_iff_snake_eq hne (List.all_eq_true.mp hlower)
  constructor
  · intro hmem
    rwa [(hsame _ hmem).mp rfl]
  · intro hmem
    rwa [(hsame _ hmem).mpr rfl]

theorem isIdentifierName_instanceTypeName_iff (name : String) :
    Naming.IsIdentifierName (instanceTypeName name).toList ↔
      Naming.HasIdentifierParts name.toList := by
  have hfirst : Naming.startsIdentifier 'T' = true := by decide +kernel
  have hchars : (instanceTypeName name).toList = 'T' :: Naming.pascal name.toList := by
    rw [instanceTypeName, Naming.pascalCase, String.toList_append, String.toList_ofList,
      List.singleton_append, String.toList_ofList]
  rw [hchars, Naming.IsIdentifierName, and_iff_right hfirst, Naming.forall_mem_pascal_iff]

/-- Instances with different identifiers have different directories, unless both have no words. -/
theorem nodup_kebabCase_iff {names : List String} (h : (names.map instanceIdentifier).Nodup) :
    (names.map Naming.kebabCase).Nodup ↔
      names.Pairwise fun a b => ¬(IsWordless a ∧ IsWordless b) := by
  have hnil : ∀ name, IsWordless name ↔ Naming.words name.toList = [] := fun name =>
    (Naming.words_eq_nil_iff_forall name.toList).symm
  have hkebab : ∀ a b, Naming.kebabCase a = Naming.kebabCase b ↔
      Naming.kebab a.toList = Naming.kebab b.toList := fun a b => String.ofList_inj
  rw [List.Nodup, List.pairwise_map] at h ⊢
  constructor
  · refine List.Pairwise.imp ?_
    rintro a b hne ⟨ha, hb⟩
    rw [hnil, ← Naming.kebab_eq_nil_iff] at ha hb
    exact hne ((hkebab a b).mpr (ha.trans hb.symm))
  · intro hwords
    refine List.Pairwise.imp₂ ?_ h hwords
    intro a b hidentifier hwords heq
    rw [hkebab] at heq
    by_cases ha : Naming.words a.toList = []
    · have hb : Naming.words b.toList = [] := by
        rw [← Naming.kebab_eq_nil_iff, ← heq, Naming.kebab_eq_nil_iff]
        exact ha
      exact hwords ⟨(hnil a).mpr ha, (hnil b).mpr hb⟩
    · exact hidentifier (String.ofList_inj.mpr (Naming.camel_eq_of_kebab_eq ha heq))

/-! ## The index of a bot -/

/-- The index of a bot imports each installed instance, with the identifier, directory and type name
that its name gives.  No two identifiers are the same; the directories differ as well, but for those
of names without words.  An identifier is fit for use exactly if the parts of the name are, and the
name is no reserved word; the type name, exactly if the parts of the name are.  If two instances share
an identifier, the first two that do are reported. -/
theorem names_of_generateBotIndex (toolkit : Toolkit) (path installPath : String)
    (names : List String) :
    (∀ index, generateBotIndex toolkit path installPath names = .ok index →
      (∃ file implementation text, index = [⟨file, text⟩] ∧
        Typescript.botIndexPage toolkit.generator implementation
          (names.map (importOf toolkit.layout installPath)) = .ok text) ∧
      (names.map instanceIdentifier).Nodup ∧
      ((names.map Naming.kebabCase).Nodup ↔
        names.Pairwise fun a b => ¬(IsWordless a ∧ IsWordless b)) ∧
      ∀ name ∈ names,
        (Naming.IsIdentifierName (instanceIdentifier name).toList ↔ IsIdentifiable name) ∧
        (instanceIdentifier name ∈ Typescript.reservedWords ↔
          Naming.snakeCase name ∈ Typescript.reservedWords) ∧
        (Naming.IsIdentifierName (instanceTypeName name).toList ↔
          Naming.HasIdentifierParts name.toList)) ∧
    (¬(names.map instanceIdentifier).Nodup → toolkit.layout.indexFile ≠ "" ∨ installPath ≠ "" →
      ∃ a b, IsFirstClash names a b ∧ generateBotIndex toolkit path installPath names =
        .error (.generation (.nameCollision (instanceIdentifier a) [a, b]))) := by
  have hnone : Remembers [] [] := fun _ => rfl
  have hcases := instanceImports_cases toolkit.layout installPath hnone List.nodup_nil names
  rw [List.nil_append] at hcases
  constructor
  · intro index h
    obtain ⟨imports, himports, h⟩ := exists_of_bind_eq_ok h
    obtain ⟨implementation, -, h⟩ := exists_of_bind_eq_ok h
    obtain ⟨text, htext, hindex⟩ := exists_of_bind_eq_ok h
    rw [himports] at hcases
    obtain ⟨hnodup, heq⟩ | ⟨_, _, _, heq⟩ | ⟨_, heq⟩ := hcases
    · cases heq
      obtain ⟨file, rfl⟩ := exists_file_of_indexFiles hindex
      exact ⟨⟨file, implementation, text, rfl, eq_ok_of_mapError_eq_ok htext⟩, hnodup,
        nodup_kebabCase_iff hnodup, fun name _ => ⟨isIdentifierName_instanceIdentifier_iff name,
          instanceIdentifier_mem_reservedWords_iff name,
          isIdentifierName_instanceTypeName_iff name⟩⟩
    · cases heq
    · cases heq
  · intro hshared hplace
    obtain ⟨hnodup, -⟩ | ⟨a, b, hclash, heq⟩ | ⟨⟨hfile, hpath⟩, -⟩ := hcases
    · exact absurd hnodup hshared
    · refine ⟨a, b, hclash, ?_⟩
      rw [generateBotIndex, heq]
      rfl
    · exact absurd hpath (hplace.resolve_left (not_not.mpr hfile))

/-- Two instances that go well together, and two that share an identifier. -/
theorem names_of_generateBotIndex_slack :
    (∃ index, generateBotIndex {} "impl" "inst" ["slack-bot", "größe.1"] = .ok index ∧
      (["slack-bot", "größe.1"].map Naming.kebabCase).Nodup ∧
      ∀ name ∈ ["slack-bot", "größe.1"],
        Naming.IsIdentifierName (instanceIdentifier name).toList ∧
        instanceIdentifier name ∉ Typescript.reservedWords) ∧
    ∃ a b, IsFirstClash ["slack-bot", "github", "slack_bot"] a b ∧
      generateBotIndex {} "impl" "inst" ["slack-bot", "github", "slack_bot"] =
        .error (.generation (.nameCollision (instanceIdentifier a) [a, b])) := by
  constructor
  · obtain ⟨index, hindex⟩ : ∃ index,
        generateBotIndex {} "impl" "inst" ["slack-bot", "größe.1"] = .ok index :=
      exists_ok_of_isSome_toOption (by decide +kernel)
    obtain ⟨-, -, hdirectories, hnames⟩ :=
      (names_of_generateBotIndex {} "impl" "inst" ["slack-bot", "größe.1"]).1 index hindex
    have hfit : ∀ name ∈ ["slack-bot", "größe.1"],
        IsIdentifiable name ∧ Naming.snakeCase name ∉ Typescript.reservedWords := by
      decide +kernel
    refine ⟨index, hindex, hdirectories.mpr (by decide +kernel), fun name hname => ?_⟩
    obtain ⟨hidentifier, hreserved, -⟩ := hnames name hname
    rw [hidentifier, hreserved]
    exact hfit name hname
  · exact (names_of_generateBotIndex {} "impl" "inst" ["slack-bot", "github", "slack_bot"]).2
      (by decide +kernel) (.inl (by decide))

/-- A reserved word that is the name of an instance becomes its identifier. -/
theorem exists_reserved_identifier :
    ∃ index, generateBotIndex {} "impl" "inst" ["class"] = .ok index ∧
      instanceIdentifier "class" ∈ Typescript.reservedWords := by
  obtain ⟨index, hindex⟩ : ∃ index, generateBotIndex {} "impl" "inst" ["class"] = .ok index :=
    exists_ok_of_isSome_toOption (by decide +kernel)
  exact ⟨index, hindex, by decide +kernel⟩

end SchemaTypings
