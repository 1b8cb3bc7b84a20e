/-
  SchemaTypings.Proofs.Path.Place

  Places below the output root.  A place is a row of names; a strict walk from the root finds it or
  fails where a path climbs out.  The normal form of a path writes down the place that the strict
  walk finds, so two paths have one normal form exactly if they lead to one place.
-/
import SchemaTypings.Path
import SchemaTypings.Proofs.Text.Pieces
import Mathlib.Data.List.Basic

namespace SchemaTypings.Path

/-! ## Segments and names -/

/-- What stands between two slashes. -/
structure IsPiece (c : Component) : Prop where
  ne_nil : c ≠ []
  no_slash : '/' ∉ c

/-- A component that names something in its directory. -/
structure IsProper (c : Component) : Prop extends IsPiece c where
  ne_here : c ≠ here
  ne_above : c ≠ above

/-- A component that is left of a path when both slashes part it and what leads nowhere is gone. -/
structure IsSegment (c : Component) : Prop where
  ne_nil : c ≠ []
  ne_here : c ≠ here
  no_slash : '/' ∉ c
  no_backslash : '\\' ∉ c

/-- A segment that leads down. -/
structure IsName (c : Component) : Prop extends IsSegment c where
  ne_above : c ≠ above

theorem IsSegment.isPiece {c : Component} (h : IsSegment c) : IsPiece c := ⟨h.ne_nil, h.no_slash⟩

theorem IsName.isProper {c : Component} (h : IsName c) : IsProper c :=
  ⟨h.toIsSegment.isPiece, h.ne_here, h.ne_above⟩

theorem forall_isProper {cs : List Component} (h : ∀ c ∈ cs, IsName c) : ∀ c ∈ cs, IsProper c :=
  fun c hc => (h c hc).isProper

theorem not_mem_withSlashes (path : List Char) : '\\' ∉ withSlashes path := by
  intro h
  obtain ⟨c, -, hc⟩ := List.mem_map.mp h
  split at hc
  · cases hc
  · next hne => exact hne hc

theorem withSlashes_eq_self {path : List Char} (h : '\\' ∉ path) : withSlashes path = path := by
  have hsame : ∀ c ∈ path, (if c = '\\' then '/' else c) = c := by
    intro c hc
    apply if_neg
    rintro rfl
    exact h hc
  rw [withSlashes, List.map_congr_left hsame, List.map_id']

theorem IsSegment.components_withSlashes {c : Component} (h : IsSegment c) :
    components (withSlashes c) = [c] := by
  rw [withSlashes_eq_self h.no_backslash]
  exact Text.splitAt_of_not_mem h.no_slash

/-- What a path holds, both slashes parting it, leads nowhere or is a segment. -/
theorem isSegment_of_mem_components {path : List Char} {c : Component}
    (h : c ∈ components (withSlashes path)) (hne : c ≠ []) (hhere : c ≠ here) : IsSegment c where
  ne_nil := hne
  ne_here := hhere
  no_slash := Text.not_mem_of_mem_splitAt '/' _ c h
  no_backslash := fun hmem => not_mem_withSlashes path (Text.mem_of_mem_splitAt h hmem)

/-! ## The strict walk -/

/-- One step of a walk that must not leave its start; the place reached is a stack with the innermost
directory on top.  Empty and `.` components stay, `..` goes up where something lies above. -/
def enter (place : List Component) (c : Component) : Option (List Component) :=
  if c = [] ∨ c = here then some place
  else if c = above then
    match place with
    | [] => none
    | _ :: rest => some rest
  else some (c :: place)

/-- Where the strict walk along components comes from a place, both as stacks. -/
def reach (place : List Component) (cs : List Component) : Option (List Component) :=
  cs.foldlM enter place

/-- The place that components lead to from the root, outermost name first; none if they leave it. -/
def place? (cs : List Component) : Option (List Component) := (reach [] cs).map List.reverse

@[simp] theorem reach_nil (place : List Component) : reach place [] = some place := rfl

theorem reach_cons (place : List Component) (c : Component) (cs : List Component) :
    reach place (c :: cs) = (enter place c).bind fun next => reach next cs := by
  rw [reach, List.foldlM_cons]
  rfl

theorem reach_append (place cs ds : List Component) :
    reach place (cs ++ ds) = (reach place cs).bind fun next => reach next ds := by
  rw [reach, List.foldlM_append]
  rfl

@[simp] theorem enter_nil (place : List Component) : enter place [] = some place := rfl

@[simp] theorem enter_here (place : List Component) : enter place here = some place := rfl

theorem enter_of_isProper {c : Component} (h : IsProper c) (place : List Component) :
    enter place c = some (c :: place) := by
  unfold enter
  rw [if_neg (not_or.mpr ⟨h.ne_nil, h.ne_here⟩), if_neg h.ne_above]

/-- A step stays, goes up from where something lies above, or goes down. -/
theorem enter_cases {place next : List Component} {c : Component} (h : enter place c = some next) :
    (c = [] ∨ c = here) ∧ next = place ∨ c = above ∧ (∃ top, place = top :: next) ∨
      (c ≠ [] ∧ c ≠ here ∧ c ≠ above) ∧ next = c :: place := by
  unfold enter at h
  split at h
  · next hstay =>
    cases h
    exact .inl ⟨hstay, rfl⟩
  · next hmove =>
    split at h
    · next hup =>
      cases place with
      | nil => cases h
      | cons top rest =>
        cases h
        exact .inr (.inl ⟨hup, top, rfl⟩)
    · next hdown =>
      cases h
      rw [not_or] at hmove
      exact .inr (.inr ⟨⟨hmove.1, hmove.2, hdown⟩, rfl⟩)

/-- What is below the start of a strict walk does not matter to it. -/
theorem enter_append {place next : List Component} {c : Component} (h : enter place c = some next)
    (below : List Component) : enter (place ++ below) c = some (next ++ below) := by
  rcases enter_cases h with ⟨hstay, rfl⟩ | ⟨rfl, top, rfl⟩ | ⟨⟨hnil, hhere, habove⟩, rfl⟩
  · exact if_pos hstay
  · rfl
  · unfold enter
    rw [if_neg (not_or.mpr ⟨hnil, hhere⟩), if_neg habove, List.cons_append]

/-- A strict walk goes the same way in a deeper directory. -/
theorem reach_append_below {place next cs : List Component} (h : reach place cs = some next)
    (below : List Component) : reach (place ++ below) cs = some (next ++ below) := by
  induction cs generalizing place with
  | nil =>
    cases h
    rfl
  | cons c rest ih =>
    rw [reach_cons] at h
    obtain ⟨step, hstep, hrest⟩ := Option.bind_eq_some_iff.mp h
    rw [reach_cons, enter_append hstep below, Option.bind_some, ih hrest]

/-- A strict walk along names goes down all of them. -/
theorem reach_of_isProper {cs : List Component} (h : ∀ c ∈ cs, IsProper c) (place : List Component) :
    reach place cs = some (cs.reverse ++ place) := by
  induction cs generalizing place with
  | nil => rfl
  | cons c rest ih =>
    rw [List.forall_mem_cons] at h
    rw [reach_cons, enter_of_isProper h.1, Option.bind_some, ih h.2, List.reverse_cons, List.append_assoc,
      List.singleton_append]

theorem place?_of_isProper {cs : List Component} (h : ∀ c ∈ cs, IsProper c) : place? cs = some cs := by
  rw [place?, reach_of_isProper h, List.append_nil, Option.map_some, List.reverse_reverse]

/-- Names behind components lead further down. -/
theorem place?_append_isName (cs : List Component) {names : List Component}
    (h : ∀ c ∈ names, IsName c) : place? (cs ++ names) = (place? cs).map (· ++ names) := by
  rw [place?, place?, reach_append]
  cases reach [] cs with
  | none => rfl
  | some stack =>
    rw [Option.bind_some, reach_of_isProper (forall_isProper h), Option.map_some,
      Option.map_some, Option.map_some, List.reverse_append, List.reverse_reverse]

/-- In a deeper directory a strict walk leads to the same place in there. -/
theorem place?_append {front cs place : List Component} (hfront : ∀ c ∈ front, IsName c)
    (h : place? cs = some place) : place? (front ++ cs) = some (front ++ place) := by
  obtain ⟨stack, hstack, rfl⟩ := Option.map_eq_some_iff.mp h
  have hbelow := reach_append_below hstack front.reverse
  rw [place?, reach_append, reach_of_isProper (forall_isProper hfront), List.append_nil,
    Option.bind_some, ← List.nil_append front.reverse, hbelow, Option.map_some, List.reverse_append, List.reverse_reverse]

theorem isName_of_enter {place next : List Component} {c : Component}
    (hplace : ∀ d ∈ place, IsName d) (hc : c ≠ [] → c ≠ here → IsSegment c)
    (h : enter place c = some next) : ∀ d ∈ next, IsName d := by
  rcases enter_cases h with ⟨-, rfl⟩ | ⟨-, top, rfl⟩ | ⟨⟨hnil, hhere, habove⟩, rfl⟩
  · exact hplace
  · exact (List.forall_mem_cons.mp hplace).2
  · exact List.forall_mem_cons.mpr ⟨⟨hc hnil hhere, habove⟩, hplace⟩

/-- What a strict walk passes and does not leave is a row of names. -/
theorem isName_of_reach {place next cs : List Component} (hplace : ∀ c ∈ place, IsName c)
    (hcs : ∀ c ∈ cs, c ≠ [] → c ≠ here → IsSegment c) (h : reach place cs = some next) :
    ∀ c ∈ next, IsName c := by
  induction cs generalizing place with
  | nil =>
    cases h
    exact hplace
  | cons c rest ih =>
    rw [List.forall_mem_cons] at hcs
    rw [reach_cons] at h
    obtain ⟨middle, henter, hrest⟩ := Option.bind_eq_some_iff.mp h
    exact ih (isName_of_enter hplace hcs.1 henter) hcs.2 hrest

theorem isName_of_place? {cs place : List Component}
    (hcs : ∀ c ∈ cs, c ≠ [] → c ≠ here → IsSegment c) (h : place? cs = some place) :
    ∀ c ∈ place, IsName c := by
  obtain ⟨stack, hstack, rfl⟩ := Option.map_eq_some_iff.mp h
  have hnames := isName_of_reach (by simp) hcs hstack
  intro c hc
  exact hnames c (List.mem_reverse.mp hc)

/-! ## Places written down -/

/-- A place as a path; the root is a full stop. -/
def written : List Component → List Char
  | [] => here
  | cs => Text.joinWith ['/'] cs

theorem written_of_ne_nil {place : List Component} (h : place ≠ []) :
    written place = Text.joinWith ['/'] place := by
  obtain ⟨c, rest, rfl⟩ := List.exists_cons_of_ne_nil h
  rfl

theorem not_mem_backslash_written {place : List Component} (h : ∀ c ∈ place, IsName c) :
    '\\' ∉ written place := by
  intro hmem
  cases place with
  | nil => exact absurd hmem (by decide)
  | cons c rest =>
    rcases Text.mem_of_mem_joinWith hmem with hsep | ⟨d, hd, hmem⟩
    · exact absurd hsep (by decide)
    · exact (h d hd).no_backslash hmem

/-- The components of a place that is written down are its names. -/
theorem components_written {place : List Component} (h : ∀ c ∈ place, IsName c)
    (hne : place ≠ []) : components (written place) = place := by
  rw [written_of_ne_nil hne]
  exact Text.splitAt_joinWith hne fun c hc => (h c hc).no_slash

/-- What is written down leads to the place. -/
theorem place?_written {place : List Component} (h : ∀ c ∈ place, IsName c) :
    place? (components (withSlashes (written place))) = some place := by
  rw [withSlashes_eq_self (not_mem_backslash_written h)]
  cases place with
  | nil => rfl
  | cons c rest => rw [components_written h (List.cons_ne_nil _ _), place?_of_isProper (forall_isProper h)]

/-- Two places that are written down alike are one. -/
theorem written_inj {p q : List Component} (hp : ∀ c ∈ p, IsName c) (hq : ∀ c ∈ q, IsName c)
    (h : written p = written q) : p = q := by
  have hplace := place?_written hp
  rw [h, place?_written hq] at hplace
  exact (Option.some.inj hplace).symm

/-- A path is rooted if its first component is empty and another follows. -/
theorem isRooted_eq_false_of_components {path : List Char} {c : Component} {rest : List Component}
    (h : components path = c :: rest) (hne : c ≠ []) : isRooted path = false := by
  cases path with
  | nil => rfl
  | cons d more =>
    by_cases hd : d = '/'
    · subst hd
      rw [components, Text.splitAt_sep_cons] at h
      cases h
      exact absurd rfl hne
    · simpa [isRooted] using hd

theorem isRooted_written {place : List Component} (h : ∀ c ∈ place, IsName c) :
    isRooted (written place) = false := by
  cases hplace : place with
  | nil => rfl
  | cons c rest =>
    rw [hplace] at h
    exact isRooted_eq_false_of_components (components_written h (List.cons_ne_nil _ _))
      (h c List.mem_cons_self).ne_nil

/-! ## Normal forms -/

/-- One step of a walk is one of the strict walk; where that leaves its start, the walk stays at the
root or climbs out. -/
theorem step_eq_enter (rooted : Bool) {place : List Component} (hplace : ∀ c ∈ place, c ≠ above)
    (c : Component) :
    step rooted place c = (enter place c).getD (if rooted then [] else [above]) := by
  unfold step enter
  split
  · rfl
  · split
    · cases place with
      | nil => rfl
      | cons top rest => exact if_neg (hplace top List.mem_cons_self)
    · rfl

theorem forall_ne_above_of_enter {place next : List Component} {c : Component}
    (hplace : ∀ d ∈ place, d ≠ above) (h : enter place c = some next) :
    ∀ d ∈ next, d ≠ above := by
  rcases enter_cases h with ⟨-, rfl⟩ | ⟨-, top, rfl⟩ | ⟨⟨-, -, hdown⟩, rfl⟩
  · exact hplace
  · exact (List.forall_mem_cons.mp hplace).2
  · exact List.forall_mem_cons.mpr ⟨hdown, hplace⟩

/-- A walk goes with the strict one as long as that one goes on. -/
theorem foldl_step_of_reach_eq_some (rooted : Bool) {place next cs : List Component}
    (hplace : ∀ c ∈ place, c ≠ above) (h : reach place cs = some next) :
    cs.foldl (step rooted) place = next := by
  induction cs generalizing place with
  | nil =>
    cases h
    rfl
  | cons c rest ih =>
    rw [reach_cons] at h
    obtain ⟨middle, henter, hrest⟩ := Option.bind_eq_some_iff.mp h
    rw [List.foldl_cons, step_eq_enter rooted hplace, henter, Option.getD_some]
    exact ih (forall_ne_above_of_enter hplace henter) hrest

theorem walk_of_place? (rooted : Bool) {cs place : List Component} (h : place? cs = some place) :
    walk rooted cs = place := by
  obtain ⟨stack, hstack, rfl⟩ := Option.map_eq_some_iff.mp h
  rw [walk, foldl_step_of_reach_eq_some rooted (by simp) hstack]

/-- A lenient walk that has climbed out stays outside. -/
theorem getLast?_foldl_step {place : List Component} (h : place.getLast? = some above)
    (cs : List Component) : (cs.foldl (step false) place).getLast? = some above := by
  -- at the bottom stands a move up, which no later component takes away
  induction cs generalizing place with
  | nil => exact h
  | cons c rest ih =>
    apply ih
    have hne : place ≠ [] := by
      rintro rfl
      cases h
    obtain ⟨top, below, rfl⟩ := List.exists_cons_of_ne_nil hne
    unfold step
    split
    · exact h
    · split
      · dsimp only
        split
        · rw [List.getLast?_cons_cons]
          exact h
        · next htop =>
          cases below with
          | nil =>
            cases h
            exact absurd rfl htop
          | cons next more =>
            rwa [List.getLast?_cons_cons] at h
      · rw [List.getLast?_cons_cons]
        exact h

/-- The lenient walk goes with the strict one, or ends outside. -/
theorem foldl_step_of_reach {place : List Component} (hplace : ∀ c ∈ place, c ≠ above)
    (cs : List Component) :
    (∃ next, reach place cs = some next ∧ cs.foldl (step false) place = next ∧
      ∀ c ∈ next, c ≠ above) ∨
      reach place cs = none ∧ (cs.foldl (step false) place).getLast? = some above := by
  induction cs generalizing place with
  | nil => exact .inl ⟨place, rfl, rfl, hplace⟩
  | cons c rest ih =>
    rw [reach_cons, List.foldl_cons, step_eq_enter false hplace]
    cases henter : enter place c with
    | none => exact .inr ⟨rfl, getLast?_foldl_step rfl rest⟩
    | some next => exact ih (forall_ne_above_of_enter hplace henter)

/-- The normal form of a path that is not rooted is the place that it leads to, written down. -/
theorem normalize?_of_not_isRooted {path : List Char} (h : isRooted (withSlashes path) = false) :
    normalize? path = (place? (components (withSlashes path))).map written := by
  rw [normalize?, h, place?]
  unfold walk
  have hstart : ∀ c ∈ ([] : List Component), c ≠ above := by simp
  rcases foldl_step_of_reach hstart (components (withSlashes path)) with
    ⟨next, hreach, hwalk, hinside⟩ | ⟨hreach, hout⟩
  · rw [hreach, hwalk]
    cases hplace : next.reverse with
    | nil => simp [hplace, written]
    | cons c rest =>
      have hc : c ≠ above := hinside c (List.mem_reverse.mp (hplace ▸ List.mem_cons_self))
      simp [hplace, hc, written]
  · rw [hreach]
    rw [← List.head?_reverse] at hout
    obtain ⟨rest, hrest⟩ := List.head?_eq_some_iff.mp hout
    simp [hrest]

/-- A walk from the root passes names only. -/
theorem isName_of_foldl_step {place cs : List Component} (hplace : ∀ c ∈ place, IsName c)
    (hcs : ∀ c ∈ cs, c ≠ [] → c ≠ here → IsSegment c) :
    ∀ c ∈ cs.foldl (step true) place, IsName c := by
  induction cs generalizing place with
  | nil => exact hplace
  | cons c rest ih =>
    rw [List.forall_mem_cons] at hcs
    refine ih ?_ hcs.2
    rw [step_eq_enter true fun d hd => (hplace d hd).ne_above]
    cases henter : enter place c with
    | none => exact List.forall_mem_nil _
    | some next => exact isName_of_enter hplace hcs.1 henter

/-- A path in normal form: a place that is written down, or nothing where the path is the root
itself. -/
def IsNormal (path : List Char) : Prop :=
  path = [] ∨ ∃ place, (∀ c ∈ place, IsName c) ∧ path = written place

theorem isNormal_of_normalize? {path normal : List Char} (h : normalize? path = some normal) :
    IsNormal normal := by
  cases hrooted : isRooted (withSlashes path) with
  | false =>
    rw [normalize?_of_not_isRooted hrooted] at h
    obtain ⟨place, hplace, rfl⟩ := Option.map_eq_some_iff.mp h
    exact .inr ⟨place, isName_of_place? (fun c hc => isSegment_of_mem_components hc) hplace, rfl⟩
  | true =>
    have hnames : ∀ c ∈ walk true (components (withSlashes path)), IsName c := by
      intro c hc
      exact isName_of_foldl_step (by simp) (fun c hc => isSegment_of_mem_components hc) c
        (List.mem_reverse.mp hc)
    rw [normalize?, hrooted] at h
    cases hwalk : walk true (components (withSlashes path)) with
    | nil =>
      simp only [hwalk, if_pos, Option.some.injEq] at h
      exact .inl h.symm
    | cons c rest =>
      rw [hwalk] at hnames
      have hc : c ≠ above := (hnames c List.mem_cons_self).ne_above
      simp only [hwalk, if_neg hc, Option.some.injEq] at h
      exact .inr ⟨c :: rest, hnames, h.symm⟩

theorem IsNormal.not_mem_backslash {path : List Char} (h : IsNormal path) : '\\' ∉ path := by
  rcases h with rfl | ⟨place, hnames, rfl⟩
  · simp
  · exact not_mem_backslash_written hnames

theorem IsNormal.isRooted {path : List Char} (h : IsNormal path) : isRooted path = false := by
  rcases h with rfl | ⟨place, hnames, rfl⟩
  · rfl
  · exact isRooted_written hnames

/-! ## Joining -/

theorem joinWith_ne_nil {cs : List Component} (h : ∀ c ∈ cs, IsPiece c) (hne : cs ≠ []) :
    Text.joinWith ['/'] cs ≠ [] := by
  obtain ⟨c, rest, rfl⟩ := List.exists_cons_of_ne_nil hne
  have hc := (h c List.mem_cons_self).ne_nil
  cases rest with
  | nil => exact hc
  | cons next more =>
    rw [Text.joinWith_cons c (List.cons_ne_nil _ _), List.append_assoc]
    exact List.append_ne_nil_of_left_ne_nil hc _

theorem getLast?_joinWith {cs : List Component} (h : ∀ c ∈ cs, IsPiece c) :
    (Text.joinWith ['/'] cs).getLast? ≠ some '/' := by
  induction cs with
  | nil => simp [Text.joinWith]
  | cons c rest ih =>
    rw [List.forall_mem_cons] at h
    cases rest with
    | nil =>
      intro hlast
      exact h.1.no_slash (List.mem_of_getLast? hlast)
    | cons next more =>
      have hne := joinWith_ne_nil h.2 (List.cons_ne_nil next more)
      rw [Text.joinWith_cons c (List.cons_ne_nil _ _), List.getLast?_append_of_ne_nil _ hne]
      exact ih h.2

theorem append_joinWith {cs : List Component} (h : ∀ c ∈ cs, IsPiece c) {path : List Char}
    (hrooted : isRooted path = false) :
    append (Text.joinWith ['/'] cs) path = Text.joinWith ['/'] (cs ++ [path]) := by
  rw [append, hrooted, if_neg Bool.false_ne_true]
  by_cases hcs : cs = []
  · subst hcs
    rfl
  · have hne := joinWith_ne_nil h hcs
    rw [if_neg (not_or.mpr ⟨hne, getLast?_joinWith h⟩), Text.joinWith_concat _ hcs,
      List.append_assoc, List.singleton_append]

theorem isRooted_of_isSegment {c : Component} (h : IsSegment c) : isRooted c = false :=
  isRooted_eq_false_of_components (Text.splitAt_of_not_mem h.no_slash) h.ne_nil

theorem foldl_append_joinWith {front ds : List Component} (hfront : ∀ c ∈ front, IsSegment c)
    (hds : ∀ d ∈ ds, IsSegment d) :
    ds.foldl append (Text.joinWith ['/'] front) = Text.joinWith ['/'] (front ++ ds) := by
  induction ds generalizing front with
  | nil => rw [List.foldl_nil, List.append_nil]
  | cons d rest ih =>
    rw [List.forall_mem_cons] at hds
    have hlonger : ∀ c ∈ front ++ [d], IsSegment c := by
      intro c hc
      rcases List.mem_append.mp hc with hc | hc
      · exact hfront c hc
      · exact List.mem_singleton.mp hc ▸ hds.1
    rw [List.foldl_cons, append_joinWith (fun c hc => (hfront c hc).isPiece)
      (isRooted_of_isSegment hds.1), ih hlonger hds.2, List.append_assoc, List.singleton_append]

/-- A path behind segments that are taken from the root. -/
theorem join_segments {ds : List Component} (hds : ∀ d ∈ ds, IsSegment d) {path : List Char}
    (hrooted : isRooted path = false) : join ([] :: ds) path = Text.joinWith ['/'] (ds ++ [path]) := by
  have hstart : ∀ c ∈ ([] : List Component), IsSegment c := by simp
  have hdirectory : ds.foldl append [] = Text.joinWith ['/'] ds := foldl_append_joinWith hstart hds
  rw [join, hdirectory, append_joinWith (fun d hd => (hds d hd).isPiece) hrooted]

/-- The normal form of a path behind segments is the place that both lead to. -/
theorem normalize?_join {ds : List Component} (hds : ∀ d ∈ ds, IsSegment d) {path : List Char}
    (hrooted : isRooted path = false) (hback : '\\' ∉ path) :
    normalize? (join ([] :: ds) path) = (place? (ds ++ components path)).map written := by
  rw [join_segments hds hrooted]
  have hcomponents : components (Text.joinWith ['/'] (ds ++ [path])) = ds ++ components path :=
    Text.splitAt_joinWith_concat (fun d hd => (hds d hd).no_slash) path
  have hsame : withSlashes (Text.joinWith ['/'] (ds ++ [path])) = Text.joinWith ['/'] (ds ++ [path]) := by
    apply withSlashes_eq_self
    intro hmem
    rcases Text.mem_of_mem_joinWith hmem with hsep | ⟨piece, hpiece, hmem⟩
    · exact absurd hsep (by decide)
    · rcases List.mem_append.mp hpiece with hd | hlast
      · exact (hds piece hd).no_backslash hmem
      · exact hback (List.mem_singleton.mp hlast ▸ hmem)
  have hjoined : isRooted (Text.joinWith ['/'] (ds ++ [path])) = false := by
    cases ds with
    | nil => exact hrooted
    | cons d rest => exact isRooted_eq_false_of_components hcomponents (hds d List.mem_cons_self).ne_nil
  rw [normalize?_of_not_isRooted (by rwa [hsame]), hsame, hcomponents]

end SchemaTypings.Path
