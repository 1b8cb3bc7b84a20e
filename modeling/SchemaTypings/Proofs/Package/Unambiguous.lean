/-
  SchemaTypings.Proofs.Package.Unambiguous

  No name is exported twice among the files of a definition.  A file exports at its top level only
  names that its module declares; on the way up the tree all of these come to the index at the root,
  which passes its check only if they differ.

  An index quotes the paths of files as they are and writes the name of its aggregate type as it is.
  So no name of a file may end the string that it stands in, and the type of an installed instance has
  to be a word.
-/
import SchemaTypings.Proofs.Output.Reexport
import SchemaTypings.Proofs.Package.Confinement

namespace SchemaTypings

open SchemaTypings.Path (Component IsName written)
open Typescript (HasQuietHeader IsWholeWord StaysInside topLevelExports)

/-! ## Secrets -/

namespace Naming

/-- Names in upper-case groups have nothing in them that a source text could take for anything else. -/
theorem isPlain_of_mem_of_isScreaming {name : List Char} (h : isScreaming name = true) {c : Char}
    (hc : c ∈ name) : Typescript.isPlain c = true ∧ c ≠ '\\' ∧ c ≠ '\'' := by
  have hkinds : c = '\n' ∨ c = '_' ∨ isScreamingChar c = true := by
    have hcases : c = '\n' ∨ c ∈ dropFinalNewline name := by
      rw [dropFinalNewline]
      split
      · next hlast =>
        rw [← List.dropLast_append_getLast? _ hlast, List.mem_append, List.mem_singleton] at hc
        exact hc.symm
      · exact .inr hc
    rcases hcases with hnewline | hc
    · exact .inl hnewline
    rw [← Text.joinWith_splitAt '_' (dropFinalNewline name)] at hc
    rcases Text.mem_of_mem_joinWith hc with hsep | ⟨group, hgroup, hc⟩
    · exact .inr (.inl (List.mem_singleton.mp hsep))
    · simp only [isScreaming, Bool.and_eq_true, List.all_eq_true] at h
      exact .inr (.inr ((h.1 group hgroup).2 c hc))
  rcases hkinds with rfl | rfl | hscreaming
  · decide +kernel
  · decide +kernel
  · have halnum : c.isAlphanum = true := by
      rw [isScreamingChar, Bool.or_eq_true] at hscreaming
      exact isAlphanum_iff.mpr (hscreaming.imp_left .inl)
    have hlook := forall_ascii (p := fun c => !isScreamingChar c ||
      (Typescript.isPlain c && decide (c ≠ '\\' ∧ c ≠ '\''))) (by decide +kernel)
      (isAscii_of_isAlphanum halnum)
    rw [hscreaming, Bool.not_true, Bool.false_or, Bool.and_eq_true, decide_eq_true_eq] at hlook
    exact hlook

end Naming

/-- The variables of secrets, all of which have passed the check of their forms. -/
theorem Secrets.environment_eq_ok {namePrefix : String} {secrets : List String}
    {entries : Entries String} (h : environment namePrefix secrets = .ok entries) :
    entries = secrets.map (fun secret => (secret, variableName namePrefix secret)) ∧
      ∀ secret ∈ secrets, Naming.isScreamingSnakeCase secret = true := by
  obtain ⟨_, hvalid, rfl⟩ := exists_of_map_eq_ok h
  refine ⟨rfl, ?_⟩
  obtain ⟨_, hforms, -⟩ := exists_of_bind_eq_ok hvalid
  rw [checkForms] at hforms
  split at hforms
  · cases hforms
  · next hnone => simpa using List.find?_eq_none.mp hnone

/-! ## Announced exports -/

variable {config : Config}

/-- Whether the module declares all that its own text exports, and fits into index pages of a
configuration. -/
structure OutputModule.IsAnnounced (config : Config) (m : OutputModule) : Prop where
  exportName : IsWholeWord m.exportName
  content : ∀ path text, m.source = .content path text → (topLevelExports text).Sublist m.names
  own : m.kind ≠ .content →
    ∃ names, Typescript.Declares (m.text?.getD "").toList names ∧ names.Sublist m.names
  aggregate : ∀ name ∈ m.aggregate?, name ≠ "" ∧ IsWholeWord name
  renderer : m.kind ≠ .content → m.renderer? = some (Typescript.renderer config)

/-- An index is announced if it declares what its own text does. -/
theorem OutputModule.isAnnounced_of_index {m : OutputModule} (hkind : m.kind ≠ .content)
    (hname : IsWholeWord m.exportName) {names : List String}
    (hown : Typescript.Declares (m.text?.getD "").toList names) (hsublist : names.Sublist m.names)
    (haggregate : ∀ name ∈ m.aggregate?, name ≠ "" ∧ IsWholeWord name)
    (hrenderer : m.renderer? = some (Typescript.renderer config)) : m.IsAnnounced config where
  exportName := hname
  content path text hsource := by
    rw [kind, hsource] at hkind
    exact absurd rfl hkind
  own _ := ⟨names, hown, hsublist⟩
  aggregate := haggregate
  renderer _ := hrenderer

theorem OutputModule.IsAnnounced.moveUnder {m : OutputModule} (h : m.IsAnnounced config)
    (segments : List String) : (m.moveUnder segments).IsAnnounced config :=
  ⟨h.exportName, h.content, h.own, h.aggregate, h.renderer⟩

/-- Whether all modules of a tree declare what they export, and nothing is below content. -/
inductive OutputTree.IsAnnounced (config : Config) : OutputTree → Prop
  | node {m : OutputModule} {children : List OutputTree} : m.IsAnnounced config →
      (m.kind = .content → children = []) →
      (∀ child ∈ children, OutputTree.IsAnnounced config child) →
      OutputTree.IsAnnounced config (.node m children)

theorem OutputTree.IsAnnounced.module {t : OutputTree} (h : t.IsAnnounced config) :
    t.value.IsAnnounced config := by
  cases h with
  | node hm => exact hm

theorem OutputTree.IsAnnounced.moveUnder {t : OutputTree} (h : t.IsAnnounced config)
    (segments : List String) : (t.moveUnder segments).IsAnnounced config := by
  cases h with
  | node hm hcontent hchildren =>
    exact .node (hm.moveUnder segments) hcontent hchildren

section
variable {t : Toolkit}

theorem isAnnounced_secretsTree (hheader : HasQuietHeader t.generator)
    (henv : StaysInside t.layout.secretEnvPrefix.plain) {secrets : List String} {tree : OutputTree}
    (h : t.secretsTree secrets = .ok tree) : tree.IsAnnounced t.generator := by
  obtain ⟨entries, hentries, h⟩ := exists_of_bind_eq_ok h
  obtain ⟨text, htext, h⟩ := exists_of_bind_eq_ok h
  obtain ⟨m, hm, h⟩ := exists_of_bind_eq_ok h
  cases h
  obtain ⟨rfl, hforms⟩ := Secrets.environment_eq_ok (eq_ok_of_mapError_eq_ok hentries)
  have hentries : ∀ entry ∈ secrets.map fun secret =>
      (secret, Secrets.variableName t.layout.secretEnvPrefix.plain secret),
      (∀ c ∈ entry.1.toList, Typescript.isPlain c = true) ∧ StaysInside entry.2 := by
    rw [List.forall_mem_map]
    intro secret hsecret
    have hname := fun c hc => Naming.isPlain_of_mem_of_isScreaming (c := c) (hforms secret hsecret) hc
    refine ⟨fun c hc => (hname c hc).1, fun c hc => ?_⟩
    rw [Secrets.variableName, String.toList_append] at hc
    exact (List.mem_append.mp hc).elim (henv c) fun hc => (hname c hc).2
  obtain ⟨hexports, hlines⟩ := Typescript.topLevelExports_secretsPage hheader hentries
    (eq_ok_of_mapError_eq_ok htext)
  obtain ⟨source, hsource, rfl⟩ := exists_of_map_eq_ok (eq_ok_of_mapError_eq_ok hm)
  obtain ⟨normal, -, rfl⟩ := exists_of_map_eq_ok hsource
  have hname : IsWholeWord "Secrets" := by decide
  refine .node ⟨hname, ?_, fun h => absurd rfl h, ?_, fun h => absurd rfl h⟩ (fun _ => rfl) (by simp)
  · rintro _ _ ⟨rfl, rfl⟩
    rw [hexports]
    exact hlines
  · intro name hname
    cases hname

/-- The trees of sections declare what they export. -/
theorem isAnnounced_of_builds (hheader : HasQuietHeader t.generator)
    (henv : StaysInside t.layout.secretEnvPrefix.plain) {tree : OutputTree}
    (h : t.Builds tree) : tree.IsAnnounced t.generator := by
  induction h with
  | content hname hdeclaring htree =>
    obtain ⟨normal, text, -, htext, rfl⟩ := Toolkit.exists_of_contentModule htree
    obtain ⟨names, hnames⟩ := hdeclaring
    refine .node ⟨hname, ?_, fun h => absurd rfl h, ?_, fun h => absurd rfl h⟩ (fun _ => rfl)
      (by simp)
    · rintro _ _ ⟨rfl, rfl⟩
      rw [Typescript.topLevelExports_file hheader hnames htext, Typescript.exportedNames_eq_lineNames]
      exact hnames.sublist
    · intro name hname
      cases hname
  | secrets htree => exact isAnnounced_secretsTree hheader henv htree
  | index hname haggregate hm _ ih =>
    obtain ⟨path, rfl⟩ := Toolkit.exists_of_indexModule hm
    have hkind : ModuleKind.reexport ≠ .content := by decide
    refine .node (OutputModule.isAnnounced_of_index hkind hname Typescript.declares_nil
      (List.nil_sublist _) ?_ rfl) (fun hcontent => absurd hcontent hkind) ih
    intro name hmem
    obtain ⟨rfl, hne⟩ := haggregate name hmem
    exact ⟨hne, hname⟩
  | moved name _ ih => exact ih.moveUnder _

end

/-! ## Exports of files -/

variable {fallback : IndexRenderer}

/-- Whether no specifier between an index in a placed tree and a module below it ends the string that
it stands in. -/
def HasQuietSpecifiers (placed : PlacedTree) : Prop :=
  ∀ u ∈ placed.subtrees, ∀ w ∈ Tree.subtreesAll u.children, ∀ source, u.value.path? = some source →
    ∀ target, w.value.path? = some target → StaysInside (Path.specifierString source target)

theorem HasQuietSpecifiers.of_mem {placed u : PlacedTree} (h : HasQuietSpecifiers placed)
    (hu : u ∈ placed.subtrees) : HasQuietSpecifiers u := fun v hv =>
  h v (Tree.subtrees_trans placed u hu v hv)

section
variable {m : OutputModule} {path text : String} {children : List PlacedTree}

/-- The page of an index exports what its own text declares and its aggregate type. -/
theorem topLevelExports_fileText (hheader : HasQuietHeader config) (hm : m.IsAnnounced config)
    (hkind : m.kind ≠ .content) (hnames : ∀ t ∈ children, IsWholeWord t.value.module.exportName)
    (hspecifiers : ∀ w ∈ Tree.subtreesAll children, ∀ target, w.value.path? = some target →
      StaysInside (Path.specifierString path target))
    {names : List String} (hown : Typescript.Declares (m.text?.getD "").toList names)
    (h : fileText fallback m path children = .ok text) :
    topLevelExports text = names ++ m.aggregate?.toList := by
  obtain ⟨view, hview, hpage⟩ := (fileText_eq_ok_iff hkind).mp h
  rw [hm.renderer hkind] at hpage
  obtain ⟨-, members, hmembers, rfl⟩ := indexView_eq_ok_iff.mp hview
  have hlisted : ∀ member ∈ members, IsWholeWord member.2.1 ∧
      StaysInside (Path.specifierString path member.2.2) := by
    intro member hmember
    obtain ⟨t, ht, -, hname, htarget⟩ := exists_isListed_of_membersOf hmembers member hmember
    exact ⟨hname ▸ hnames t ht, hspecifiers t (Tree.mem_subtreesAll_of_mem ht) _ htarget⟩
  refine Typescript.topLevelExports_indexPage hheader ⟨?_, ?_, hm.aggregate, ?_⟩ hown hpage
  · exact List.forall_mem_map.mpr hlisted
  · refine List.forall_mem_map.mpr fun target htarget => ?_
    obtain ⟨w, hw, hwpath⟩ := mem_exportedPathsAll children target htarget
    exact hspecifiers w hw target hwpath
  · exact List.forall_mem_map.mpr fun member hmember => (hlisted member hmember).1

/-- A file exports only names that its module declares. -/
theorem sublist_declaredNames_of_fileText (hheader : HasQuietHeader config)
    (hm : m.IsAnnounced config) (hnames : ∀ t ∈ children, IsWholeWord t.value.module.exportName)
    (hspecifiers : ∀ w ∈ Tree.subtreesAll children, ∀ target, w.value.path? = some target →
      StaysInside (Path.specifierString path target))
    (h : fileText fallback m path children = .ok text) :
    (topLevelExports text).Sublist m.declaredNames := by
  by_cases hkind : m.kind = .content
  · rw [fileText] at h
    split at h
    · next own content hsource =>
      cases h
      exact (hm.content _ _ hsource).trans (List.sublist_append_left _ _)
    · next hsource =>
      -- No other source is content.
      rw [OutputModule.kind] at hkind
      split at hkind
      · next own content hcontent => exact absurd hcontent (hsource own content)
      · cases hkind
      · cases hkind
  · obtain ⟨names, hown, hsublist⟩ := hm.own hkind
    rw [topLevelExports_fileText hheader hm hkind hnames hspecifiers hown h]
    exact hsublist.append_right _

end

/-! ## Exports of trees -/

/-- All names that the files of a placed tree export come to the index above, in this order. -/
def ComesUp (fallback : IndexRenderer) (placed : PlacedTree) : Prop :=
  ∀ files, List.Forall₂ (IsFileOf fallback) (placed.subtrees.filter hasPath) files →
    (files.flatMap fun f => topLevelExports f.content).Sublist
      ((exportedNamesOf placed).map Prod.fst)

theorem sublist_exportedNamesAll {below : List PlacedTree}
    (h : ∀ placed ∈ below, ComesUp fallback placed) {files : List File}
    (hfiles : List.Forall₂ (IsFileOf fallback) ((Tree.subtreesAll below).filter hasPath) files) :
    (files.flatMap fun f => topLevelExports f.content).Sublist
      ((exportedNamesAll below).map Prod.fst) := by
  induction below generalizing files with
  | nil =>
    cases hfiles
    exact List.nil_sublist _
  | cons placed rest ih =>
    rw [List.forall_mem_cons] at h
    rw [Tree.subtreesAll, List.filter_append] at hfiles
    obtain ⟨first, more, hfirst, hmore, rfl⟩ := exists_of_forall₂_append hfiles
    rw [List.flatMap_append, exportedNamesAll, List.map_append]
    exact (h.1 first hfirst).append (ih h.2 hmore)

section
variable {children : List OutputTree} {below : List PlacedTree}

theorem isWholeWord_exportName_of_forall₂ (hplaced : List.Forall₂ IsPlaced children below)
    (h : ∀ child ∈ children, child.IsAnnounced config) :
    ∀ placed ∈ below, IsWholeWord placed.value.module.exportName := by
  intro placed hmem
  obtain ⟨child, hchild, hisPlaced⟩ := exists_left_of_forall₂ hplaced hmem
  rw [hisPlaced.module]
  exact (h child hchild).module.exportName

theorem comesUp_of_forall₂ {value : PlacedModule} (hplaced : List.Forall₂ IsPlaced children below)
    (hquiet : HasQuietSpecifiers (.node value below))
    (h : ∀ child ∈ children, ∀ placed, IsPlaced child placed → HasQuietSpecifiers placed →
      ComesUp fallback placed) : ∀ placed ∈ below, ComesUp fallback placed := by
  intro placed hmem
  obtain ⟨child, hchild, hisPlaced⟩ := exists_left_of_forall₂ hplaced hmem
  refine h child hchild placed hisPlaced (hquiet.of_mem ?_)
  exact Tree.mem_subtrees_node.mpr (.inr (Tree.mem_subtreesAll_of_mem hmem))

/-- The files of a tree export only names that come to the index above it. -/
theorem OutputTree.IsAnnounced.comesUp (hheader : HasQuietHeader config) {t : OutputTree}
    (h : t.IsAnnounced config) : ∀ placed, IsPlaced t placed → HasQuietSpecifiers placed →
      ComesUp fallback placed := by
  induction h with
  | @node m children hm hcontent hchildren ih =>
    intro placed hplaced hquiet files hfiles
    obtain ⟨path?, below, rfl, -, hbelow⟩ := hplaced.node
    have hup := comesUp_of_forall₂ hbelow hquiet ih
    rw [Tree.subtrees, ← List.singleton_append, List.filter_append] at hfiles
    obtain ⟨own, more, hown, hmore, rfl⟩ := exists_of_forall₂_append hfiles
    rw [List.flatMap_append, exportedNamesOf, List.map_append]
    refine List.Sublist.append ?_ ?_
    · cases path? with
      | none =>
        cases hown
        exact List.nil_sublist _
      | some path =>
        obtain ⟨f, _, hfile, hnil, rfl⟩ := List.forall₂_cons_left_iff.mp hown
        cases hnil
        have hpath : path = f.path := Option.some.inj hfile.path
        subst hpath
        have hspecifiers := fun w hw target =>
          hquiet _ (Tree.self_mem_subtrees _) w hw f.path rfl target
        have hsublist := sublist_declaredNames_of_fileText hheader hm
          (isWholeWord_exportName_of_forall₂ hbelow hchildren) hspecifiers hfile.text
        simpa [List.map_map, Function.comp_def] using hsublist
    · dsimp only
      split
      · next hkind =>
        -- Nothing is below content.
        obtain rfl := hcontent hkind
        cases hbelow
        cases hmore
        exact List.nil_sublist _
      · exact sublist_exportedNamesAll hup hmore

end

/-! ## Quotes -/

/-- Whether the paths of files have, behind a directory that all share, no quotes. -/
def AreUnquoted (files : List File) : Prop :=
  ∃ front : List Component, ∀ f ∈ files, ∃ rest, rest ≠ [] ∧
    Path.components f.path.toList = front ++ rest ∧ ∀ c ∈ rest, '\'' ∉ c

/-- A quote ends the string of a specifier, and the rest of the line is read as code. -/
example : ((Typescript.settled 0 []).read
    (Typescript.exportLine "./x';export/**/type/**/e='")).endLine.names = ["e"] := by
  decide +kernel

/-- What a written place has behind some components in front. -/
theorem exists_rest_of_components_written {front rest p : List Component} (hp : ∀ c ∈ p, IsName c)
    (hne : rest ≠ []) (h : Path.components (written p) = front ++ rest) :
    front <+: p.dropLast ∧ ∃ own, p = front ++ own ∧ own ⊆ rest := by
  by_cases hnil : p = []
  · -- The empty place is written as a full stop, which is one component.
    subst hnil
    have hone : front ++ rest = [Path.here] := h.symm
    have hfront : front = [] := by
      rcases List.append_eq_singleton_iff.mp hone with ⟨hfront, -⟩ | ⟨-, hrest⟩
      · exact hfront
      · exact absurd hrest hne
    subst hfront
    exact ⟨List.nil_prefix, [], rfl, List.nil_subset _⟩
  · rw [Path.components_written hp hnil] at h
    subst h
    rw [List.dropLast_append_of_ne_nil hne]
    exact ⟨List.prefix_append _ _, rest, rfl, List.Subset.refl _⟩

/-- Specifiers between files have characters of what the files do not share with a directory. -/
theorem IsFlattened.forall_mem_specifier {placed : PlacedTree} {files : List File}
    (h : IsFlattened placed files) {p : Char → Prop} (hdot : p '.') (hslash : p '/')
    {front : List Component} (hfront : ∀ f ∈ files, ∃ rest, rest ≠ [] ∧
      Path.components f.path.toList = front ++ rest ∧ ∀ c ∈ rest, ∀ d ∈ c, d ≠ '\\' → p d) :
    ∀ u ∈ placed.subtrees, ∀ w ∈ Tree.subtreesAll u.children, ∀ source,
      u.value.path? = some source → ∀ target, w.value.path? = some target →
        ∀ c ∈ (Path.specifierString source target).toList, p c := by
  -- all files are below one front, so that a specifier only spells what is behind it
  have hplace : ∀ u ∈ placed.subtrees, ∀ path, u.value.path? = some path → ∃ q, (∀ c ∈ q, IsName c) ∧
      path = String.ofList (written q) ∧ front <+: q.dropLast ∧
        ∃ own, q = front ++ own ∧ ∀ c ∈ own, ∀ d ∈ c, d ≠ '\\' → p d := by
    intro u hu path hpath
    obtain ⟨q, hq, rfl⟩ := h.place u hu path hpath
    obtain ⟨f, hf, hfile⟩ := h.file u hu _ hpath
    obtain ⟨rest, hne, hcomponents, hrest⟩ := hfront f hf
    rw [hfile, String.toList_ofList] at hcomponents
    obtain ⟨hstart, own, hown, hsub⟩ := exists_rest_of_components_written hq hne hcomponents
    exact ⟨q, hq, rfl, hstart, own, hown, fun c hc => hrest c (hsub hc)⟩
  intro u hu w hw source hsource target htarget c hc
  have hwAll : w ∈ placed.subtrees :=
    Tree.subtrees_trans placed u hu w (Tree.mem_subtrees_iff.mpr (.inr hw))
  obtain ⟨q, hq, rfl, hstart, -⟩ := hplace u hu source hsource
  obtain ⟨r, hr, rfl, -, own, rfl, hown⟩ := hplace w hwAll target htarget
  rw [Path.specifierString, String.toList_ofList, String.toList_ofList, String.toList_ofList] at hc
  rcases Path.mem_of_mem_specifier_written hstart (Path.forall_isProper hq)
    (Path.forall_isProper hr) hc with rfl | rfl | ⟨piece, hpiece, hc⟩
  · exact hdot
  · exact hslash
  · have hname := hr piece (List.mem_append_right _ hpiece)
    exact hown piece hpiece c hc fun heq => hname.no_backslash (heq ▸ hc)

/-- Where no path has quotes behind a shared directory no specifier has any. -/
theorem IsFlattened.hasQuietSpecifiers {placed : PlacedTree} {files : List File}
    (h : IsFlattened placed files) (hunquoted : AreUnquoted files) : HasQuietSpecifiers placed := by
  obtain ⟨front, hfront⟩ := hunquoted
  have hchars : ∀ f ∈ files, ∃ rest, rest ≠ [] ∧ Path.components f.path.toList = front ++ rest ∧
      ∀ c ∈ rest, ∀ d ∈ c, d ≠ '\\' → d ≠ '\\' ∧ d ≠ '\'' := by
    intro f hf
    obtain ⟨rest, hne, hcomponents, hrest⟩ := hfront f hf
    exact ⟨rest, hne, hcomponents, fun c hc d hd hbackslash =>
      ⟨hbackslash, fun heq => hrest c hc (heq ▸ hd)⟩⟩
  exact h.forall_mem_specifier (by decide) (by decide) hchars

/-! ## Typings -/

section
variable {t : Toolkit} {definition : Definition} {path : String} {files : List File}

/-- Under an index whose own names differ no name is exported twice. -/
theorem nodup_topLevelExports_of_flatten (hheader : HasQuietHeader config) {m : OutputModule}
    {trees : List OutputTree} (h : OutputTree.flatten (.node m trees) = .ok files)
    (hunquoted : AreUnquoted files) (hbuilt : ∀ n ∈ (Tree.node m trees).toList, n.IsBuilt)
    (htrees : ∀ tree ∈ trees, tree.IsAnnounced config) (hm : m.IsAnnounced config)
    (hkind : m.kind ≠ .content) (hpath : m.ownPath?.isSome) {names : List String}
    (hown : Typescript.Declares (m.text?.getD "").toList names) (hsublist : names.Sublist m.names)
    (hnodup : (names ++ m.aggregate?.toList).Nodup) :
    (files.flatMap fun f => topLevelExports f.content).Nodup := by
  obtain ⟨placed, hplaced, hfiles, -⟩ := flatten_eq_ok_iff.mp h
  have hquiet := (isFlattened_of_flatten hbuilt h hplaced).hasQuietSpecifiers hunquoted
  obtain ⟨path?, below, rfl, hsome, hbelow⟩ := IsPlaced.node ⟨[""], hplaced⟩
  obtain ⟨path, rfl⟩ := Option.isSome_iff_exists.mp (hsome hpath)
  rw [Tree.subtrees, List.filter_cons_of_pos rfl, List.forall₂_cons_left_iff] at hfiles
  obtain ⟨f, more, hfile, hmore, rfl⟩ := hfiles
  have hsame : path = f.path := Option.some.inj hfile.path
  subst hsame
  have hup : ∀ placed ∈ below, ComesUp defaultRenderer placed :=
    comesUp_of_forall₂ hbelow hquiet fun child hchild => (htrees child hchild).comesUp hheader
  have hexports := topLevelExports_fileText hheader hm hkind
    (isWholeWord_exportName_of_forall₂ hbelow htrees)
    (fun w hw target => hquiet _ (Tree.self_mem_subtrees _) w hw f.path rfl target) hown hfile.text
  have hbelow := sublist_exportedNamesAll hup hmore
  -- What comes up has passed the check of the index.
  obtain ⟨view, hview, -⟩ := (fileText_eq_ok_iff hkind).mp hfile.text
  obtain ⟨hchecked, hdisjoint⟩ := checkNames_eq_ok_iff.mp (indexView_eq_ok_iff.mp hview).1
  rw [List.flatMap_cons, hexports, List.nodup_append']
  refine ⟨hnodup, hchecked.sublist hbelow, fun name hname hmem => ?_⟩
  refine hdisjoint name (hbelow.subset hmem) ?_
  exact (hsublist.append_right m.aggregate?.toList).subset hname

/-- The trees of the sections declare what they export, and are built. -/
theorem isAnnounced_of_sectionTrees (hheader : HasQuietHeader t.generator)
    (henv : StaysInside t.layout.secretEnvPrefix.plain) {trees : List OutputTree}
    (h : sectionTrees t .standard definition = .ok trees) :
    (∀ tree ∈ trees, tree.IsAnnounced t.generator) ∧
      ∀ n ∈ Tree.toListAll trees, n.IsBuilt := by
  have hbuilds := builds_of_sectionTrees h
  refine ⟨fun tree htree => isAnnounced_of_builds hheader henv (hbuilds tree htree), ?_⟩
  exact Tree.forall_mem_toListAll.mpr fun tree htree => Toolkit.isBuilt_of_builds (hbuilds tree htree)

theorem nodup_topLevelExports_of_generateTypings (hheader : HasQuietHeader t.generator)
    (henv : StaysInside t.layout.secretEnvPrefix.plain)
    (h : generateTypings t .standard definition path = .ok files) (hunquoted : AreUnquoted files) :
    (files.flatMap fun f => topLevelExports f.content).Nodup := by
  rw [generateTypings] at h
  split at h
  · cases h
  · next tree htree =>
    unfold implementationTree at htree
    split at htree
    · cases htree
    · obtain ⟨m, trees, hm, htrees, rfl⟩ := exists_of_rootTree htree
      obtain ⟨hannounced, hbuilt⟩ := isAnnounced_of_sectionTrees hheader henv htrees
      have hroot := (OutputModule.isBuilt_of_ofDescription hm).moveUnder [path]
      obtain ⟨source, hsource, rfl⟩ := exists_of_map_eq_ok hm
      obtain ⟨normal, -, rfl⟩ := exists_of_map_eq_ok hsource
      have hname : IsWholeWord "Implementation" := by decide
      have hkind : ModuleKind.reexport ≠ .content := by decide
      have hown : Typescript.Declares "".toList [] := Typescript.declares_nil
      refine nodup_topLevelExports_of_flatten hheader h hunquoted
        (List.forall_mem_cons.mpr ⟨hroot, hbuilt⟩) hannounced (.moveUnder ?_ _) hkind rfl hown
        (List.nil_sublist _) List.nodup_nil
      refine OutputModule.isAnnounced_of_index hkind hname hown (List.nil_sublist _) ?_ rfl
      intro name hname
      cases hname

/-- The constants and the type that the index of an instance declares have different names. -/
theorem nodup_metadataNames (name : String) :
    (["name", "version", "id"] ++ [instanceTypeName name]).Nodup := by
  have hhead : (instanceTypeName name).toList.head? = some 'T' := by
    rw [instanceTypeName, String.toList_append]
    rfl
  rw [List.nodup_append']
  have hother : ∀ word ∈ ["name", "version", "id"], word.toList.head? ≠ some 'T' := by decide +kernel
  refine ⟨by decide, List.nodup_singleton _, fun word hword hmem => hother word hword ?_⟩
  rwa [List.mem_singleton.mp hmem]

theorem nodup_topLevelExports_of_instanceTree (hheader : HasQuietHeader t.generator)
    (henv : StaysInside t.layout.secretEnvPrefix.plain) {installed : InstalledIntegration}
    (hinstance : IsWholeWord (instanceTypeName installed.name)) {tree : OutputTree}
    (htree : instanceTree t .standard installed = .ok tree) {segments : List String}
    (h : (tree.moveUnder segments).flatten = .ok files) (hunquoted : AreUnquoted files) :
    (files.flatMap fun f => topLevelExports f.content).Nodup := by
  have hdeclares := Typescript.declares_metadataSource installed.name installed.version installed.id
  have hnodup := nodup_metadataNames installed.name
  have hne : instanceTypeName installed.name ≠ "" := by
    intro hempty
    have hlength := congrArg (fun s => s.toList.length) hempty
    simp [instanceTypeName] at hlength
  rw [instanceTree] at htree
  -- Only what the constants declare counts, not how they are written.
  generalize Typescript.metadataSource installed.name installed.version installed.id = text
    at htree hdeclares
  generalize instanceTypeName installed.name = type at htree hinstance hnodup hne
  obtain ⟨m, trees, hm, htrees, rfl⟩ := exists_of_rootTree htree
  obtain ⟨hannounced, hbuilt⟩ := isAnnounced_of_sectionTrees hheader henv htrees
  have hroot := (OutputModule.isBuilt_of_ofDescription hm).moveUnder segments
  obtain ⟨source, hsource, rfl⟩ := exists_of_map_eq_ok hm
  obtain ⟨normal, -, rfl⟩ := exists_of_map_eq_ok hsource
  have hsublist := hdeclares.sublist
  rw [← Typescript.exportedNames_eq_lineNames] at hsublist
  have hkind : ModuleKind.mixed ≠ .content := by decide
  refine nodup_topLevelExports_of_flatten hheader h hunquoted
    (List.forall_mem_cons.mpr ⟨hroot, hbuilt⟩) hannounced (.moveUnder ?_ _) hkind rfl hdeclares
    hsublist hnodup
  refine OutputModule.isAnnounced_of_index hkind hinstance hdeclares hsublist ?_ rfl
  rintro _ ⟨rfl⟩
  exact ⟨hne, hinstance⟩

/-- Whatever a definition has in it, no name is exported twice by its files or by one of them, as long
as no file has a quote in its path behind the directory of the typings and the type of an installed
instance is a word. -/
theorem nodup_topLevelExports_of_generate (hheader : HasQuietHeader t.generator)
    (henv : StaysInside t.layout.secretEnvPrefix.plain)
    (hinstance : ∀ installed, definition = .instance installed →
      IsWholeWord (instanceTypeName installed.name))
    (hunquoted : ∀ own, t.treeFiles definition path = .ok own → AreUnquoted own)
    (h : t.generate definition path = .ok files) :
    (files.flatMap fun f => topLevelExports f.content).Nodup := by
  rcases definition with b | i | installed
  · exact nodup_topLevelExports_of_generateTypings hheader henv h (hunquoted files h)
  · exact nodup_topLevelExports_of_generateTypings hheader henv h (hunquoted files h)
  · obtain ⟨tree, htree, h⟩ := exists_of_bind_eq_ok h
    obtain ⟨own, hown, h⟩ := exists_of_bind_eq_ok h
    obtain ⟨recordPath, -, h⟩ := exists_of_bind_eq_ok h
    have hfiles : t.treeFiles (.instance installed) path = .ok own := by
      rw [Toolkit.treeFiles, htree]
      exact hown
    have hnodup := nodup_topLevelExports_of_instanceTree hheader henv (hinstance installed rfl)
      htree hown (hunquoted own hfiles)
    split at h
    · cases h
    · -- The record of the metadata exports nothing.
      cases h
      rw [List.flatMap_append, List.flatMap_singleton, Typescript.topLevelExports_recordText,
        List.append_nil]
      exact hnodup

end

/-- An installed instance with an event and a channel, whose message has the name of the event. -/
def slackInstance : InstalledIntegration :=
  { name := "slack", version := "1.0.0", id := "i", configuration := textSchema
    events := [("ready", ⟨textSchema, {}⟩)]
    channels := [("chat", { messages := [("ready", ⟨textSchema, {}⟩)] })] }

/-- The places of the files of the instance. -/
def slackPaths : List String :=
  ["index.ts", "configuration/index.ts", "configuration/configuration.ts", "events/index.ts",
    "events/ready.ts", "states/index.ts", "actions/index.ts", "channels/index.ts",
    "channels/chat/index.ts", "channels/chat/ready.ts", "integration.json"].map
      ("it's/bots/slack/" ++ ·)

/-- The trees of the sections of the instance. -/
def slackTrees : List OutputTree :=
  instanceSections [OutputTree.leaf (textModule "Ready" "Ready" "ready.ts" (some "ready"))] [] []
    [Toolkit.sectionOf "Chat" "chat"
      [OutputTree.leaf (textModule "ChatReady" "ChatReady" "ready.ts" (some "ready"))] ["chat"]]

theorem sectionTrees_slackInstance :
    sectionTrees {} .standard (.instance slackInstance) = .ok slackTrees := by
  have hmessage : Toolkit.messageModule {} "Chat" "ready" ⟨textSchema, {}⟩ =
      .ok (.leaf (textModule "ChatReady" "ChatReady" "ready.ts" (some "ready"))) :=
    Toolkit.messageModule_textSchema (by decide +kernel) (by decide +kernel) (by decide +kernel)
  have hchannel : Toolkit.channelModule {} "chat" { messages := [("ready", ⟨textSchema, {}⟩)] } =
      .ok (Toolkit.sectionOf "Chat" "chat"
        [OutputTree.leaf (textModule "ChatReady" "ChatReady" "ready.ts" (some "ready"))] ["chat"]) :=
    Toolkit.channelModule_default (by decide +kernel) (by decide +kernel)
      (Toolkit.buildEach_eq_ok_iff.mpr (.cons hmessage .nil))
  exact sectionTrees_instance rfl (Toolkit.buildEach_eq_ok_iff.mpr (.cons eventModule_ready .nil)) rfl
    rfl (Toolkit.buildEach_eq_ok_iff.mpr (.cons hchannel .nil))

/-- In a directory with a quote in its name an instance exports each name once. -/
theorem nodup_topLevelExports_of_generate_slack :
    ∃ files, Toolkit.generate {} (.instance slackInstance) "it's/bots" = .ok files ∧
      files.map File.path = slackPaths ∧
      (files.flatMap fun f => topLevelExports f.content).Nodup := by
  have hpaths : (Toolkit.generate {} (.instance slackInstance) "it's/bots").toOption.map
      (·.map File.path) = some slackPaths := by
    simp only [Toolkit.generate, generateInstance, instanceTree, rootTree, sectionTrees_slackInstance,
      Typescript.exportedNames_metadataSource, OutputTree.flatten_eq]
    decide +kernel
  obtain ⟨files, hfiles, hsame⟩ := exists_ok_of_map_toOption hpaths
  have hheader : HasQuietHeader .default := by
    unfold HasQuietHeader
    decide +kernel
  have henv : StaysInside Config.default.secretEnvPrefix.plain := by decide +kernel
  refine ⟨files, hfiles, hsame,
    nodup_topLevelExports_of_generate (t := {}) hheader henv ?_ (fun other hother => ?_) hfiles⟩
  · rintro _ ⟨rfl⟩
    decide +kernel
  · obtain ⟨own, record?, hown, hall, -⟩ := exists_treeFiles_of_generate hfiles
    obtain rfl : own = other := Except.ok.inj (hown.symm.trans hother)
    have hplaces : ∀ path ∈ slackPaths, (Path.components path.toList).take 3 =
        ["it's".toList, "bots".toList, "slack".toList] ∧
        (Path.components path.toList).drop 3 ≠ [] ∧
        ∀ c ∈ (Path.components path.toList).drop 3, '\'' ∉ c := by decide +kernel
    refine ⟨["it's".toList, "bots".toList, "slack".toList], fun f hf => ?_⟩
    have hmem : f ∈ files := hall ▸ List.mem_append_left _ hf
    obtain ⟨hfront, hne, hrest⟩ := hplaces f.path (hsame ▸ List.mem_map.mpr ⟨f, hmem, rfl⟩)
    exact ⟨_, hne, by rw [← hfront, List.take_append_drop], hrest⟩

end SchemaTypings
