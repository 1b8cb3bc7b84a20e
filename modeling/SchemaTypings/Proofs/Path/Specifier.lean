/-
  SchemaTypings.Proofs.Path.Specifier

  Module specifiers between places.  A specifier depends on the two places only by what lies behind
  their common beginning, so moving both files does not change it; and read from the directory of its
  file it leads to the target without its extension.
-/
import SchemaTypings.Proofs.Path.Place
import Mathlib.Data.List.TakeWhile

namespace SchemaTypings.Path

/-! ## Written places from the root -/

theorem walk_of_isProper {cs : List Component} (h : ∀ c ∈ cs, IsProper c) : walk true cs = cs :=
  walk_of_place? true (place?_of_isProper h)

theorem fromRoot_joinWith {cs : List Component} (h : ∀ c ∈ cs, IsProper c) :
    fromRoot (Text.joinWith ['/'] cs) = cs := by
  cases hcs : cs with
  | nil => rfl
  | cons c rest =>
    rw [hcs] at h
    rw [fromRoot, components, Text.splitAt_joinWith (List.cons_ne_nil _ _) fun d hd => (h d hd).no_slash,
      walk_of_isProper h]

theorem fromRoot_written {place : List Component} (h : ∀ c ∈ place, IsProper c) :
    fromRoot (written place) = place := by
  cases hplace : place with
  | nil => rfl
  | cons c rest =>
    rw [hplace] at h
    rw [written_of_ne_nil (List.cons_ne_nil _ _), fromRoot_joinWith h]

/-! ## The last name -/

section
variable {front : List Component} {name : Component}

/-- Without its last name a path is its directory with a slash at the end. -/
theorem joinWith_concat_cases (front : List Component) (name : Component) :
    front = [] ∧ Text.joinWith ['/'] (front ++ [name]) = name ∨
      front ≠ [] ∧ Text.joinWith ['/'] (front ++ [name]) =
        Text.joinWith ['/'] front ++ ['/'] ++ name := by
  by_cases h : front = []
  · subst h
    exact .inl ⟨rfl, rfl⟩
  · exact .inr ⟨h, Text.joinWith_concat name h⟩

theorem fileName_joinWith (h : '/' ∉ name) :
    fileName (Text.joinWith ['/'] (front ++ [name])) = name := by
  have hall : ∀ c ∈ name.reverse, decide (c ≠ '/') = true := by
    intro c hc
    rw [decide_eq_true_iff]
    rintro rfl
    exact h (List.mem_reverse.mp hc)
  rcases joinWith_concat_cases front name with ⟨-, heq⟩ | ⟨-, heq⟩
  · rw [heq, fileName, List.takeWhile_eq_self_iff.mpr hall, List.reverse_reverse]
  · rw [heq, fileName, List.reverse_append, List.takeWhile_append_of_pos hall]
    simp

theorem withoutExtension_joinWith (h : '/' ∉ name) :
    withoutExtension (Text.joinWith ['/'] (front ++ [name])) =
      Text.joinWith ['/'] (front ++ [stem name]) := by
  rw [withoutExtension, fileName_joinWith h]
  rcases joinWith_concat_cases front name with ⟨rfl, heq⟩ | ⟨hne, heq⟩
  · rw [heq, Nat.sub_self, List.take_zero]
    rfl
  · rw [heq, List.length_append, Nat.add_sub_cancel, List.take_left, Text.joinWith_concat _ hne]

theorem directory_joinWith (hfront : ∀ c ∈ front, IsPiece c) (h : '/' ∉ name) :
    directory (Text.joinWith ['/'] (front ++ [name])) = Text.joinWith ['/'] front := by
  rw [directory, fileName_joinWith h]
  rcases joinWith_concat_cases front name with ⟨rfl, heq⟩ | ⟨hne, heq⟩
  · rw [heq, Nat.sub_self, List.take_zero]
    rfl
  · rw [heq, List.length_append, Nat.add_sub_cancel, List.take_left]
    have hlast := getLast?_joinWith hfront
    have hsome : Text.joinWith ['/'] front ≠ [] := joinWith_ne_nil hfront hne
    have hnot : ((Text.joinWith ['/'] front ++ ['/']).all fun c => c = '/') = false := by
      rw [List.all_eq_false]
      refine ⟨_, List.mem_append_left _ (List.getLast_mem hsome), ?_⟩
      rw [decide_eq_true_iff]
      intro hslash
      exact hlast (by rw [List.getLast?_eq_some_getLast hsome, hslash])
    rw [hnot, if_neg Bool.false_ne_true]
    rw [Text.dropEndWhile_append _ (by simp)]
    apply Text.dropEndWhile_eq_self
    intro d hd
    rw [decide_eq_false_iff_not]
    rintro rfl
    exact hlast hd

end

theorem directory_written {place : List Component} (h : ∀ c ∈ place, IsProper c) (hne : place ≠ []) :
    directory (written place) = Text.joinWith ['/'] place.dropLast := by
  have hsplit := List.dropLast_concat_getLast hne
  have hfront : ∀ c ∈ place.dropLast, IsPiece c := fun c hc =>
    (h c (List.dropLast_subset _ hc)).toIsPiece
  have hlast := (h _ (List.getLast_mem hne)).no_slash
  rw [written_of_ne_nil hne, ← hsplit, directory_joinWith hfront hlast, hsplit]

theorem withoutExtension_written {place : List Component} (h : ∀ c ∈ place, IsProper c)
    (hne : place ≠ []) : withoutExtension (written place) =
      written (place.dropLast ++ [stem (place.getLast hne)]) := by
  have hsplit := List.dropLast_concat_getLast hne
  have hlast := (h _ (List.getLast_mem hne)).no_slash
  conv_lhs => rw [written_of_ne_nil hne, ← hsplit]
  rw [withoutExtension_joinWith hlast, written_of_ne_nil (List.concat_ne_nil _ _)]

/-! ## Stems -/

/-- What stands in front of the last full stop. -/
theorem exists_append_of_dot_mem {cs : List Char} (h : '.' ∈ cs) :
    ∃ behind, cs = ((cs.reverse.dropWhile (· ≠ '.')).drop 1).reverse ++ '.' :: behind := by
  have hsplit := List.takeWhile_append_dropWhile (p := (· ≠ '.')) (l := cs.reverse)
  have hne : cs.reverse.dropWhile (· ≠ '.') ≠ [] := by
    intro hnil
    rw [hnil, List.append_nil] at hsplit
    have hdot : '.' ∈ cs.reverse.takeWhile (· ≠ '.') := by
      rw [hsplit]
      exact List.mem_reverse.mpr h
    simpa using List.mem_takeWhile_imp hdot
  have hhead := List.head_dropWhile_not (fun c => decide (c ≠ '.')) hne
  obtain ⟨c, rest, hdrop⟩ := List.exists_cons_of_ne_nil hne
  simp only [hdrop, List.head_cons, decide_eq_false_iff_not, not_not] at hhead
  subst hhead
  refine ⟨(cs.reverse.takeWhile (· ≠ '.')).reverse, ?_⟩
  rw [hdrop] at hsplit
  have hreverse := congrArg List.reverse hsplit
  rw [List.reverse_append, List.reverse_reverse, List.reverse_cons, List.append_assoc] at hreverse
  rw [hdrop]
  exact hreverse.symm

/-- The stem of a name is the name, or a beginning of it that is not of full stops only. -/
theorem stem_cases (name : Component) :
    stem name = name ∨ stem name <+: name ∧ ∃ c ∈ stem name, c ≠ '.' := by
  by_cases hdot : '.' ∈ name.dropWhile (· = '.')
  · right
    obtain ⟨front, behind, hrest, hstem⟩ : ∃ front behind,
        name.dropWhile (· = '.') = front ++ '.' :: behind ∧
          stem name = name.takeWhile (· = '.') ++ front := by
      obtain ⟨behind, hrest⟩ := exists_append_of_dot_mem hdot
      exact ⟨_, behind, hrest, if_pos hdot⟩
    have hname := List.takeWhile_append_dropWhile (p := (· = '.')) (l := name)
    have hhead := List.head_dropWhile_not (fun c => decide (c = '.')) (List.ne_nil_of_mem hdot)
    rw [decide_eq_false_iff_not] at hhead
    rw [hstem]
    refine ⟨⟨'.' :: behind, ?_⟩, ?_⟩
    · rw [List.append_assoc, ← hrest, hname]
    · -- The first character behind the full stops is none, so it stands before the last of them.
      cases front with
      | nil => simp [hrest] at hhead
      | cons first more =>
        simp only [hrest, List.cons_append, List.head_cons] at hhead
        exact ⟨first, List.mem_append_right _ List.mem_cons_self, hhead⟩
  · exact .inl (if_neg hdot)

theorem mem_of_mem_stem {name : Component} {c : Char} (h : c ∈ stem name) : c ∈ name := by
  rcases stem_cases name with heq | ⟨hstart, -⟩
  · rwa [heq] at h
  · exact hstart.subset h

theorem isProper_stem {name : Component} (h : IsProper name) : IsProper (stem name) := by
  rcases stem_cases name with heq | ⟨hstart, c, hc, hdot⟩
  · rwa [heq]
  · refine ⟨⟨?_, fun hmem => h.no_slash (hstart.subset hmem)⟩, ?_, ?_⟩
    · exact List.ne_nil_of_mem hc
    · intro heq
      rw [heq, here, List.mem_singleton] at hc
      exact hdot hc
    · intro heq
      rw [heq] at hc
      simp only [above, List.mem_cons, List.not_mem_nil, or_false, or_self] at hc
      exact hdot hc

/-! ## Relative specifiers -/

/-- What is left of two places behind their common beginning. -/
theorem exists_common_of_dropCommon (as bs : List Component) :
    ∃ common, as = common ++ (dropCommon as bs).1 ∧ bs = common ++ (dropCommon as bs).2 := by
  fun_induction dropCommon as bs with
  | case1 as c bs ih =>
    obtain ⟨common, has, hbs⟩ := ih
    exact ⟨c :: common, by rw [List.cons_append, ← has], by rw [List.cons_append, ← hbs]⟩
  | case2 => exact ⟨[], rfl, rfl⟩
  | case3 => exact ⟨[], rfl, rfl⟩

/-- A common beginning makes no difference to what is left. -/
theorem dropCommon_append (front as bs : List Component) :
    dropCommon (front ++ as) (front ++ bs) = dropCommon as bs := by
  induction front with
  | nil => rfl
  | cons c rest ih => rw [List.cons_append, List.cons_append, dropCommon, if_pos rfl, ih]

/-- The steps to a path, by the components that it does not share with the directory. -/
theorem relative_eq (target start : List Char) :
    relative target start =
      match List.replicate (dropCommon (fromRoot start) (fromRoot target)).1.length above ++
          (dropCommon (fromRoot start) (fromRoot target)).2 with
      | [] => here
      | steps => Text.joinWith ['/'] steps :=
  rfl

/-- The steps from the directory of one place to another. -/
theorem relative_written {source target : List Component} (hsource : ∀ c ∈ source, IsProper c)
    (htarget : ∀ c ∈ target, IsProper c) (hne : source ≠ []) :
    relative (written target) (directory (written source)) =
      match List.replicate (dropCommon source.dropLast target).1.length above ++
          (dropCommon source.dropLast target).2 with
      | [] => here
      | steps => Text.joinWith ['/'] steps := by
  have hdirectory : ∀ c ∈ source.dropLast, IsProper c := fun c hc =>
    hsource c (List.dropLast_subset _ hc)
  have hfrom : fromRoot (directory (written source)) = source.dropLast := by
    rw [directory_written hsource hne, fromRoot_joinWith hdirectory]
  rw [relative_eq, fromRoot_written htarget, hfrom]

/-- Moving two files into one directory does not change the specifier between them. -/
theorem specifier_written_append {front source target : List Component}
    (hfront : ∀ c ∈ front, IsProper c) (hsource : ∀ c ∈ source, IsProper c)
    (htarget : ∀ c ∈ target, IsProper c) (hne : source ≠ []) :
    specifier (written (front ++ source)) (written (front ++ target)) =
      specifier (written source) (written target) := by
  have hboth : ∀ cs : List Component, (∀ c ∈ cs, IsProper c) → ∀ c ∈ front ++ cs, IsProper c := by
    intro cs hcs c hc
    exact (List.mem_append.mp hc).elim (hfront c) (hcs c)
  have hrelative : relative (written (front ++ target)) (directory (written (front ++ source))) =
      relative (written target) (directory (written source)) := by
    rw [relative_written (hboth _ hsource) (hboth _ htarget) (List.append_ne_nil_of_right_ne_nil _ hne),
      relative_written hsource htarget hne, List.dropLast_append_of_ne_nil hne, dropCommon_append]
  rw [specifier, specifier, hrelative]

/-! ## Characters of specifiers -/

theorem fromRoot_directory_written {place : List Component} (h : ∀ c ∈ place, IsProper c) :
    fromRoot (directory (written place)) = place.dropLast := by
  by_cases hne : place = []
  · subst hne
    rfl
  · rw [directory_written h hne, fromRoot_joinWith fun c hc => h c (List.dropLast_subset _ hc)]

theorem mem_of_mem_withoutExtension {path : List Char} {c : Char} (h : c ∈ withoutExtension path) :
    c ∈ path := by
  rcases List.mem_append.mp h with h | h
  · exact List.mem_of_mem_take h
  · have hname : c ∈ fileName path := mem_of_mem_stem h
    exact List.mem_reverse.mp ((List.takeWhile_sublist _).subset (List.mem_reverse.mp hname))

/-- Besides full stops and slashes a specifier has characters of what the target does not share with
the directory of the source. -/
theorem mem_of_mem_specifier {source target : List Char} {c : Char}
    (h : c ∈ specifier source target) : c = '.' ∨ c = '/' ∨
      ∃ piece ∈ (dropCommon (fromRoot (directory source)) (fromRoot target)).2, c ∈ piece := by
  have hstem : c ∈ relative target (directory source) ∨ c = '.' ∨ c = '/' := by
    rw [specifier] at h
    split at h
    · exact .inl (mem_of_mem_withoutExtension h)
    · rw [here, List.singleton_append, List.mem_cons, List.mem_cons] at h
      rcases h with h | h | h
      · exact .inr (.inl h)
      · exact .inr (.inr h)
      · exact .inl (mem_of_mem_withoutExtension h)
  rcases hstem with h | h | h
  · rw [relative_eq] at h
    split at h
    · exact .inl (List.mem_singleton.mp h)
    · next steps hsteps =>
      rcases Text.mem_of_mem_joinWith h with hsep | ⟨piece, hpiece, hc⟩
      · exact .inr (.inl (List.mem_singleton.mp hsep))
      · rcases List.mem_append.mp hpiece with hup | hdown
        · rw [List.eq_of_mem_replicate hup] at hc
          simp only [above, List.mem_cons, List.not_mem_nil, or_false, or_self] at hc
          exact .inl hc
        · exact .inr (.inr ⟨piece, hdown, hc⟩)
  · exact .inl h
  · exact .inr (.inl h)

/-- Between two files in one directory a specifier has no characters of that directory. -/
theorem mem_of_mem_specifier_written {front source target : List Component}
    (hfront : front <+: source.dropLast) (hsource : ∀ c ∈ source, IsProper c)
    (htarget : ∀ c ∈ front ++ target, IsProper c) {c : Char}
    (h : c ∈ specifier (written source) (written (front ++ target))) :
    c = '.' ∨ c = '/' ∨ ∃ piece ∈ target, c ∈ piece := by
  obtain ⟨own, hown⟩ := hfront
  rcases mem_of_mem_specifier h with h | h | ⟨piece, hpiece, hc⟩
  · exact .inl h
  · exact .inr (.inl h)
  · rw [fromRoot_directory_written hsource, fromRoot_written htarget, ← hown, dropCommon_append]
      at hpiece
    obtain ⟨common, -, hrest⟩ := exists_common_of_dropCommon own target
    exact .inr (.inr ⟨piece, hrest ▸ List.mem_append_right _ hpiece, hc⟩)

/-! ## Where specifiers lead -/

/-- The path that a specifier stands for in the file `source`. -/
def resolve? (source specifier : List Char) : Option (List Char) :=
  normalize? (append (directory source) specifier)

/-- The string path that a specifier stands for in the file `source`. -/
def resolveString? (source specifier : String) : Option String :=
  (resolve? source.toList specifier.toList).map String.ofList

/-- A string path without the extension of its file name. -/
def withoutExtensionString (path : String) : String :=
  String.ofList (withoutExtension path.toList)

theorem components_joinWith {cs : List Component} (hne : cs ≠ []) (h : ∀ c ∈ cs, IsPiece c) :
    components (Text.joinWith ['/'] cs) = cs :=
  Text.splitAt_joinWith hne fun c hc => (h c hc).no_slash

theorem isRooted_joinWith {cs : List Component} (h : ∀ c ∈ cs, IsPiece c) :
    isRooted (Text.joinWith ['/'] cs) = false := by
  cases hcs : cs with
  | nil => rfl
  | cons c rest =>
    rw [hcs] at h
    exact isRooted_eq_false_of_components (components_joinWith (List.cons_ne_nil _ _) h)
      (h c List.mem_cons_self).ne_nil

/-- A row of components behind a directory leads where both rows lead. -/
theorem normalize?_append_joinWith {ds cs : List Component} (hds : ∀ d ∈ ds, IsSegment d)
    (hne : cs ≠ []) (hcs : ∀ c ∈ cs, IsPiece c) (hback : '\\' ∉ Text.joinWith ['/'] cs) :
    normalize? (append (Text.joinWith ['/'] ds) (Text.joinWith ['/'] cs)) =
      (place? (ds ++ cs)).map written := by
  have hcomponents := components_joinWith hne hcs
  have hrooted := isRooted_joinWith hcs
  rw [append_joinWith (fun d hd => (hds d hd).isPiece) hrooted, ← join_segments hds hrooted, normalize?_join hds hrooted hback,
    hcomponents]

/-- Going up as often as it went down a strict walk is back. -/
theorem reach_replicate_above (down below : List Component) :
    reach (down ++ below) (List.replicate down.length above) = some below := by
  induction down with
  | nil => rfl
  | cons c rest ih => exact ih

theorem place?_append_here (cs ds : List Component) :
    place? (cs ++ ([here] ++ ds)) = place? (cs ++ ds) := by
  rw [place?, place?, reach_append, reach_append]
  rfl

/-- From a directory up to the common one and down again a strict walk leads to what is below it. -/
theorem place?_up_down {common up down : List Component} (hup : ∀ c ∈ common ++ up, IsProper c)
    (hdown : ∀ c ∈ down, IsProper c) :
    place? (common ++ up ++ (List.replicate up.length above ++ down)) = some (common ++ down) := by
  have hback := reach_replicate_above up.reverse common.reverse
  rw [List.length_reverse] at hback
  rw [place?, reach_append, reach_of_isProper hup, List.append_nil, Option.bind_some,
    List.reverse_append, reach_append, hback, Option.bind_some, reach_of_isProper hdown,
    Option.map_some, List.reverse_append, List.reverse_reverse, List.reverse_reverse]

/-- A specifier is the way from one directory to the other and to the target's stem, with a full stop
in front where the way does not begin with one. -/
theorem exists_steps_of_specifier {source target : List Component}
    (hsource : ∀ c ∈ source, IsProper c) (htarget : ∀ c ∈ target, IsProper c) (hne : source ≠ [])
    (hnot : ¬target <+: source.dropLast) :
    ∃ pre common up front name, (pre = [] ∨ pre = [here]) ∧ source.dropLast = common ++ up ∧
      target = common ++ (front ++ [name]) ∧
      specifier (written source) (written target) =
        Text.joinWith ['/'] (pre ++ (List.replicate up.length above ++ (front ++ [stem name]))) := by
  obtain ⟨common, hup, hdown⟩ := exists_common_of_dropCommon source.dropLast target
  have hrelative := relative_written hsource htarget hne
  generalize (dropCommon source.dropLast target).1 = up at hup hrelative
  generalize (dropCommon source.dropLast target).2 = down at hdown hrelative
  -- The target does not lie on the way to the source, so some of it is left.
  have hsome : down ≠ [] := by
    rintro rfl
    rw [List.append_nil] at hdown
    exact hnot (hdown ▸ hup ▸ List.prefix_append _ _)
  obtain ⟨front, name, rfl⟩ : ∃ front name, down = front ++ [name] :=
    ⟨_, _, (List.dropLast_concat_getLast hsome).symm⟩
  have hname : '/' ∉ name := (htarget name (by simp [hdown])).no_slash
  have hway : relative (written target) (directory (written source)) =
      Text.joinWith ['/'] (List.replicate up.length above ++ front ++ [name]) := by
    rw [hrelative, List.append_assoc]
    split
    · next hnil => simp at hnil
    · rfl
  have hstem : specifier (written source) (written target) =
      if isExplicit (Text.joinWith ['/'] (List.replicate up.length above ++ front ++ [stem name])) then
        Text.joinWith ['/'] (List.replicate up.length above ++ front ++ [stem name])
      else here ++ '/' :: Text.joinWith ['/'] (List.replicate up.length above ++ front ++ [stem name]) := by
    rw [specifier, hway, withoutExtension_joinWith hname]
  rw [List.append_assoc] at hstem
  rw [hstem]
  split
  · exact ⟨[], common, up, front, name, .inl rfl, hup, hdown, rfl⟩
  · refine ⟨[here], common, up, front, name, .inr rfl, hup, hdown, ?_⟩
    have hsteps : List.replicate up.length above ++ (front ++ [stem name]) ≠ [] := by simp
    rw [List.singleton_append, Text.joinWith_cons here hsteps, List.append_assoc]
    rfl

/-- The steps of a specifier lead from the directory of the source to the target's stem, unless the
target lies on the way to that directory. -/
theorem exists_place?_of_specifier {source target : List Component}
    (hsource : ∀ c ∈ source, IsProper c) (htarget : ∀ c ∈ target, IsProper c) (hne : source ≠ [])
    (hnot : ¬target <+: source.dropLast) :
    ∃ steps, steps ≠ [] ∧ (∀ c ∈ steps, IsPiece c) ∧
      specifier (written source) (written target) = Text.joinWith ['/'] steps ∧
      ∃ place, (∀ c ∈ place, IsProper c) ∧ place ≠ [] ∧
        place? (source.dropLast ++ steps) = some place ∧
        withoutExtension (written target) = Text.joinWith ['/'] place := by
  obtain ⟨pre, common, up, front, name, hpre, hup, rfl, hspecifier⟩ :=
    exists_steps_of_specifier hsource htarget hne hnot
  have hdirectory : ∀ c ∈ common ++ up, IsProper c := fun c hc =>
    hsource c (List.dropLast_subset _ (hup ▸ hc))
  have hdown : ∀ c ∈ front ++ [stem name], IsProper c := by
    intro c hc
    rcases List.mem_append.mp hc with hc | hc
    · exact htarget c (by simp [hc])
    · rw [List.mem_singleton.mp hc]
      exact isProper_stem (htarget name (by simp))
  -- up to the common directory, down to the target, and off with the extension of the last step
  refine ⟨_, by simp, ?_, hspecifier, common ++ (front ++ [stem name]), ?_, by simp, ?_, ?_⟩
  · intro c hc
    rw [List.mem_append, List.mem_append, List.mem_replicate] at hc
    rcases hc with hc | ⟨-, rfl⟩ | hc
    · rcases hpre with rfl | rfl
      · cases hc
      · rw [List.mem_singleton.mp hc]
        exact ⟨by decide, by decide⟩
    · exact ⟨by decide, by decide⟩
    · exact (hdown c hc).toIsPiece
  · rw [List.forall_mem_append]
    exact ⟨fun c hc => hdirectory c (List.mem_append_left _ hc), hdown⟩
  · rw [hup, ← place?_up_down hdirectory hdown]
    rcases hpre with rfl | rfl
    · rfl
    · exact place?_append_here _ _
  · rw [withoutExtension_written htarget (by simp), written_of_ne_nil (by simp)]
    simp [List.dropLast_append_of_ne_nil]

/-- A specifier leads to the target without its extension, unless the target lies on the way to the
directory of the source. -/
theorem resolve?_specifier {source target : List Component} (hsource : ∀ c ∈ source, IsName c)
    (htarget : ∀ c ∈ target, IsName c) (hne : source ≠ []) (hnot : ¬target <+: source.dropLast) :
    resolve? (written source) (specifier (written source) (written target)) =
      some (withoutExtension (written target)) := by
  have hsteps := forall_isProper hsource
  have hplaces := forall_isProper htarget
  obtain ⟨steps, hsome, hpieces, hspecifier, place, -, hplace, hleads, hstem⟩ :=
    exists_place?_of_specifier hsteps hplaces hne hnot
  have hback : '\\' ∉ Text.joinWith ['/'] steps := by
    intro hmem
    rw [← hspecifier] at hmem
    rcases mem_of_mem_specifier_written (List.nil_prefix) hsteps hplaces hmem with
      hdot | hslash | ⟨piece, hpiece, hmem⟩
    · exact absurd hdot (by decide)
    · exact absurd hslash (by decide)
    · exact (htarget piece hpiece).no_backslash hmem
  have hsegments : ∀ c ∈ source.dropLast, IsSegment c := fun c hc =>
    (hsource c (List.dropLast_subset _ hc)).toIsSegment
  rw [resolve?, directory_written hsteps hne, hspecifier,
    normalize?_append_joinWith hsegments hsome hpieces hback, hleads, Option.map_some, hstem,
    written_of_ne_nil hplace]

/-- Whether the file at one path would be a directory on the way to another. -/
def IsDirectoryOf (directory path : String) : Prop :=
  ∃ p below, below ≠ [] ∧ place? (components directory.toList) = some p ∧
    place? (components path.toList) = some (p ++ below)

theorem isDirectoryOf_written {p below : List Component} (h : ∀ c ∈ p ++ below, IsName c)
    (hne : below ≠ []) :
    IsDirectoryOf (String.ofList (written p)) (String.ofList (written (p ++ below))) := by
  have hp : ∀ c ∈ p, IsName c := fun c hc => h c (List.mem_append_left _ hc)
  have hplace : ∀ q, (∀ c ∈ q, IsName c) →
      place? (components (String.ofList (written q)).toList) = some q := by
    intro q hq
    have hwritten := place?_written hq
    rwa [withSlashes_eq_self (not_mem_backslash_written hq), ← String.toList_ofList (l := written q)]
      at hwritten
  exact ⟨p, below, hne, hplace p hp, hplace _ h⟩

/-- A specifier leads to the target without its extension, unless one of the two files would be a
directory on the way to the other. -/
theorem resolveString?_specifierString {p q : List Component} (hp : ∀ c ∈ p, IsName c)
    (hq : ∀ c ∈ q, IsName c) (hne : p ≠ q)
    (hdown : ¬IsDirectoryOf (String.ofList (written p)) (String.ofList (written q)))
    (hup : ¬IsDirectoryOf (String.ofList (written q)) (String.ofList (written p))) :
    resolveString? (String.ofList (written p))
        (specifierString (String.ofList (written p)) (String.ofList (written q))) =
      some (withoutExtensionString (String.ofList (written q))) := by
  have hsource : p ≠ [] := by
    rintro rfl
    exact hdown (isDirectoryOf_written (p := []) hq (Ne.symm hne))
  have hnot : ¬q <+: p.dropLast := by
    rintro ⟨rest, hrest⟩
    have hsplit := List.dropLast_concat_getLast hsource
    rw [← hrest, List.append_assoc] at hsplit
    apply hup
    rw [← hsplit] at hp ⊢
    exact isDirectoryOf_written hp (List.concat_ne_nil _ _)
  rw [resolveString?, specifierString, withoutExtensionString]
  simp only [String.toList_ofList]
  rw [resolve?_specifier hp hq hsource hnot, Option.map_some]

end SchemaTypings.Path
