/-
  SchemaTypings.Proofs.Path.Return

  Specifiers lead back.  Between two relative paths of names, whatever else is in the names, the
  specifier begins with a full stop or two and a slash, and joined to the directory of its file it
  collapses to the target without its extension; so of the targets with one extension each has a
  specifier of its own.
-/
import SchemaTypings.Proofs.Path.Directory

namespace SchemaTypings.Path

/-! ## Paths of names -/

instance : DecidablePred IsProper := fun c =>
  decidable_of_iff ((c ≠ [] ∧ '/' ∉ c) ∧ c ≠ here ∧ c ≠ above)
    ⟨fun h => ⟨⟨h.1.1, h.1.2⟩, h.2.1, h.2.2⟩, fun h => ⟨⟨h.ne_nil, h.no_slash⟩, h.ne_here, h.ne_above⟩⟩

/-- Whether a path is relative and made of names: no component is empty, a full stop or two. -/
def IsPlain (path : String) : Prop := ∀ c ∈ components path.toList, IsProper c

/-- Whether the target is the directory of the source or one above it. -/
def IsAbove (target source : String) : Prop :=
  components target.toList <+: (components source.toList).dropLast

instance (path : String) : Decidable (IsPlain path) :=
  inferInstanceAs (Decidable (∀ c ∈ components path.toList, IsProper c))

instance (target source : String) : Decidable (IsAbove target source) :=
  inferInstanceAs (Decidable (components target.toList <+: (components source.toList).dropLast))

/-- A path is its components, written down. -/
theorem written_components (path : List Char) : written (components path) = path := by
  have hne : components path ≠ [] := Text.splitAt_ne_nil '/' path
  rw [written_of_ne_nil hne, components, Text.joinWith_splitAt]

/-- Without backslashes a path of names is one for both slashes. -/
theorem IsPlain.isName {path : String} (h : IsPlain path) (hback : '\\' ∉ path.toList) :
    ∀ c ∈ components path.toList, IsName c := by
  intro c hc
  have hproper := h c hc
  exact ⟨⟨hproper.ne_nil, hproper.ne_here, hproper.no_slash,
    fun hmem => hback (Text.mem_of_mem_splitAt hc hmem)⟩, hproper.ne_above⟩

/-! ## Extensions -/

/-- What a path without its extension lacks. -/
def extension (path : List Char) : List Char := path.drop (withoutExtension path).length

theorem isSuffix_fileName (path : List Char) : fileName path <:+ path := by
  rw [← List.reverse_prefix, fileName, List.reverse_reverse]
  exact List.takeWhile_prefix _

theorem isPrefix_stem (name : Component) : stem name <+: name := by
  rcases stem_cases name with heq | ⟨hstart, -⟩
  · exact heq.symm ▸ List.prefix_rfl
  · exact hstart

theorem isPrefix_withoutExtension (path : List Char) : withoutExtension path <+: path := by
  have hsplit : withoutExtension path =
      path.take (path.length - (fileName path).length) ++ stem (fileName path) := rfl
  obtain ⟨front, hfront⟩ := isSuffix_fileName path
  rw [hsplit]
  generalize fileName path = name at hfront
  subst hfront
  rw [List.length_append, Nat.add_sub_cancel, List.take_left, List.prefix_append_right_inj]
  exact isPrefix_stem name

/-- A path is cut in two at its extension. -/
theorem withoutExtension_append_extension (path : List Char) :
    withoutExtension path ++ extension path = path :=
  List.prefix_iff_eq_append.mp (isPrefix_withoutExtension path)

/-! ## The way back -/

/-- A specifier says that it is relative. -/
theorem isExplicit_specifier (source target : List Char) :
    ['.', '/'] <+: specifier source target ∨ ['.', '.', '/'] <+: specifier source target := by
  unfold specifier
  generalize withoutExtension (relative target (directory source)) = way
  dsimp only
  split
  · next hexplicit =>
    rw [isExplicit, Bool.or_eq_true, List.isPrefixOf_iff_prefix, List.isPrefixOf_iff_prefix] at hexplicit
    exact hexplicit
  · exact .inl ⟨way, rfl⟩

/-- Joined to the directory of its file a specifier collapses to the target without its extension. -/
theorem collapse_append_specifier {source target : String} (hsource : IsPlain source)
    (htarget : IsPlain target) (hnot : ¬IsAbove target source) :
    collapse (append (directory source.toList) (specifier source.toList target.toList)) =
      withoutExtension target.toList := by
  have hne : components source.toList ≠ [] := Text.splitAt_ne_nil '/' _
  obtain ⟨steps, hsome, hpieces, hspecifier, place, hplace, hpne, hleads, hstem⟩ :=
    exists_place?_of_specifier hsource htarget hne hnot
  have hdirectory := directory_written hsource hne
  rw [written_components] at hdirectory hspecifier hstem
  rw [written_components] at hspecifier
  have hfront : ∀ c ∈ (components source.toList).dropLast, IsPiece c := fun c hc =>
    (hsource c (List.dropLast_subset _ hc)).toIsPiece
  have hall : ∀ c ∈ (components source.toList).dropLast ++ steps, IsPiece c :=
    List.forall_mem_append.mpr ⟨hfront, hpieces⟩
  have hsteps : (components source.toList).dropLast ++ steps ≠ [] :=
    List.append_ne_nil_of_right_ne_nil _ hsome
  rw [hdirectory, hspecifier, append_joinWith hfront (isRooted_joinWith hpieces),
    Text.joinWith_append_joinWith _ hsome, collapse, isRooted_joinWith hall,
    components_joinWith hsteps hall, walk_of_place? false hleads, hstem]
  obtain ⟨c, rest, rfl⟩ := List.exists_cons_of_ne_nil hpne
  rfl

/-- Between paths of names, the target neither the directory of the source nor above it, there is a
specifier; it says that it is relative, leads from the directory of the source to the target without
its extension, also where both slashes part paths, and is that of no other target with the
extension. -/
theorem specifierString?_leads {source target : String} (hsource : IsPlain source)
    (htarget : IsPlain target) (hnot : ¬IsAbove target source) :
    ∃ s, specifierString? source target = some s ∧
      (['.', '/'] <+: s.toList ∨ ['.', '.', '/'] <+: s.toList) ∧
      collapse (append (directory source.toList) s.toList) = withoutExtension target.toList ∧
      ('\\' ∉ source.toList → '\\' ∉ target.toList →
        resolveString? source s = some (withoutExtensionString target)) ∧
      ∀ other, IsPlain other → ¬IsAbove other source →
        extension other.toList = extension target.toList →
          specifierString? source other = some s → other = target := by
  have hsome : ∀ {path : String}, IsPlain path →
      specifierString? source path = some (specifierString source path) := by
    intro path hpath
    refine if_neg ?_
    rintro rfl
    exact (hpath [] (by simp [components])).ne_nil rfl
  have htext : ∀ path, (specifierString source path).toList =
      specifier source.toList path.toList := fun path => String.toList_ofList
  refine ⟨_, hsome htarget, ?_, ?_, ?_, ?_⟩
  · rw [htext]
    exact isExplicit_specifier _ _
  · rw [htext]
    exact collapse_append_specifier hsource htarget hnot
  · intro hsback htback
    have hne : components source.toList ≠ [] := Text.splitAt_ne_nil '/' _
    have hresolve := resolve?_specifier (hsource.isName hsback) (htarget.isName htback) hne hnot
    rw [written_components, written_components] at hresolve
    rw [resolveString?, htext, hresolve]
    rfl
  · intro other hother habove hextension hsame
    rw [hsome hother] at hsame
    have hchars := congrArg String.toList (Option.some.inj hsame)
    rw [htext, htext] at hchars
    have hstem : withoutExtension other.toList = withoutExtension target.toList := by
      rw [← collapse_append_specifier hsource hother habove, hchars,
        collapse_append_specifier hsource htarget hnot]
    rw [← String.toList_inj, ← withoutExtension_append_extension other.toList, hstem, hextension,
      withoutExtension_append_extension]

/-- Names that begin with full stops, a directory whose name begins like another, and a name that is
no extension. -/
theorem specifierString?_leads_dotted :
    ∃ s, specifierString? "a/..b/x\\y.ts" "a/..bc/...d.e/.ts" = some s ∧
      (['.', '/'] <+: s.toList ∨ ['.', '.', '/'] <+: s.toList) ∧
      collapse (append (directory "a/..b/x\\y.ts".toList) s.toList) = "a/..bc/...d.e/.ts".toList := by
  have hsource : IsPlain "a/..b/x\\y.ts" := by decide +kernel
  have htarget : IsPlain "a/..bc/...d.e/.ts" := by decide +kernel
  have hnot : ¬IsAbove "a/..bc/...d.e/.ts" "a/..b/x\\y.ts" := by decide +kernel
  obtain ⟨s, hs, hexplicit, hleads, -⟩ := specifierString?_leads hsource htarget hnot
  have hstem : withoutExtension "a/..bc/...d.e/.ts".toList = "a/..bc/...d.e/.ts".toList := by
    decide +kernel
  exact ⟨s, hs, hexplicit, hleads.trans hstem⟩

end SchemaTypings.Path
