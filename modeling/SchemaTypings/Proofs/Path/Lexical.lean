/-
  SchemaTypings.Proofs.Path.Lexical

  Normal forms as ends of walks.  A walk goes through the components of a path with a stack; the normal
  form of the path is the stack that is left, written down, and there is none exactly if the walk
  escapes.  What is left is a row of names, so a normal form is its own normal form, and two paths that
  do not come back to where they started have one normal form exactly if their walks leave one stack.
-/
import SchemaTypings.Output.Module
import SchemaTypings.Proofs.Path.Directory

namespace SchemaTypings

namespace Path

/-! ## The walk -/

/-- One step of the walk along a path; the stack has the innermost directory on top.  It is a step of
the strict walk, but with nothing on the stack `..` leads nowhere in a rooted path. -/
def pace (rooted : Bool) (stack : List Component) (c : Component) : Option (List Component) :=
  if rooted = true ∧ stack = [] ∧ c = above then some [] else enter stack c

/-- What the walk along a path, both slashes parting it, leaves on the stack, outermost directory first;
none if the walk escapes. -/
def finalStack? (path : List Char) : Option (List Component) :=
  ((components (withSlashes path)).foldlM (pace (isRooted (withSlashes path))) []).map List.reverse

theorem pace_false : pace false = enter := by
  funext stack c
  exact if_neg fun h => Bool.false_ne_true h.1

/-- From the root every step leads somewhere. -/
theorem pace_true {stack : List Component} (h : ∀ c ∈ stack, c ≠ above) (c : Component) :
    pace true stack c = some (step true stack c) := by
  unfold pace step enter
  by_cases hstay : c = [] ∨ c = here
  · have hdown : c ≠ above := by
      rintro rfl
      revert hstay
      decide
    rw [if_neg fun hup => hdown hup.2.2, if_pos hstay, if_pos hstay]
  · rw [if_neg hstay, if_neg hstay]
    by_cases hup : c = above
    · cases stack with
      | nil => rw [if_pos ⟨rfl, rfl, hup⟩, if_pos hup, if_pos rfl]
      | cons top below =>
        rw [if_neg fun hroot => List.cons_ne_nil _ _ hroot.2.1, if_pos hup, if_pos hup]
        dsimp only
        rw [if_neg (h top List.mem_cons_self)]
    · rw [if_neg fun hroot => hup hroot.2.2, if_neg hup, if_neg hup]

/-- The walk from the root goes with the lenient one. -/
theorem foldlM_pace_true {stack cs : List Component} (hstack : ∀ c ∈ stack, IsName c)
    (hcs : ∀ c ∈ cs, c ≠ [] → c ≠ here → IsSegment c) :
    cs.foldlM (pace true) stack = some (cs.foldl (step true) stack) := by
  induction cs generalizing stack with
  | nil => rfl
  | cons c rest ih =>
    rw [List.forall_mem_cons] at hcs
    have hfirst : ∀ d ∈ [c], d ≠ [] → d ≠ here → IsSegment d := by simpa using hcs.1
    have hnext : ∀ d ∈ step true stack c, IsName d := isName_of_foldl_step hstack hfirst
    rw [List.foldlM_cons, pace_true fun d hd => (hstack d hd).ne_above]
    exact ih hnext hcs.2

theorem finalStack?_of_not_isRooted {path : List Char} (h : isRooted (withSlashes path) = false) :
    finalStack? path = place? (components (withSlashes path)) := by
  rw [finalStack?, h, pace_false]
  rfl

theorem finalStack?_of_isRooted {path : List Char} (h : isRooted (withSlashes path) = true) :
    finalStack? path = some (walk true (components (withSlashes path))) := by
  rw [finalStack?, h, foldlM_pace_true (List.forall_mem_nil _) fun c hc => isSegment_of_mem_components hc]
  rfl

/-- What is left on the stack is a row of names. -/
theorem isName_of_finalStack? {path : List Char} {stack : List Component}
    (h : finalStack? path = some stack) : ∀ c ∈ stack, IsName c := by
  have hsegments : ∀ c ∈ components (withSlashes path), c ≠ [] → c ≠ here → IsSegment c :=
    fun c hc => isSegment_of_mem_components hc
  cases hrooted : isRooted (withSlashes path) with
  | false => exact isName_of_place? hsegments (finalStack?_of_not_isRooted hrooted ▸ h)
  | true =>
    rw [finalStack?_of_isRooted hrooted] at h
    cases h
    exact fun c hc => isName_of_foldl_step (List.forall_mem_nil _) hsegments c (List.mem_reverse.mp hc)

/-- The walk along a row of names leaves all of them. -/
theorem finalStack?_written {place : List Component} (h : ∀ c ∈ place, IsName c) :
    finalStack? (written place) = some place := by
  have hrooted : isRooted (withSlashes (written place)) = false := by
    rw [withSlashes_eq_self (not_mem_backslash_written h)]
    exact isRooted_written h
  rw [finalStack?_of_not_isRooted hrooted, place?_written h]

/-! ## Normal forms -/

/-- The normal form of a path writes down what the walk along it leaves. -/
theorem normalize?_eq_map_finalStack? (path : List Char) :
    normalize? path = (finalStack? path).map fun stack =>
      if stack = [] ∧ isRooted (withSlashes path) = true then [] else written stack := by
  cases hrooted : isRooted (withSlashes path) with
  | false =>
    rw [normalize?_of_not_isRooted hrooted, finalStack?_of_not_isRooted hrooted]
    simp
  | true =>
    have hnames := isName_of_finalStack? (finalStack?_of_isRooted hrooted)
    rw [normalize?, hrooted, finalStack?_of_isRooted hrooted, Option.map_some]
    cases hwalk : walk true (components (withSlashes path)) with
    | nil => rfl
    | cons c rest =>
      rw [hwalk] at hnames
      dsimp only
      rw [if_neg (hnames c List.mem_cons_self).ne_above,
        if_neg fun h => List.cons_ne_nil _ _ h.1]
      rfl

/-- A normal form of which something is left on the stack is that of the paths with the same stack
only. -/
theorem normalize?_eq_some_written_iff {path : List Char} {stack : List Component}
    (hne : stack ≠ []) (hnames : ∀ c ∈ stack, IsName c) :
    normalize? path = some (written stack) ↔ finalStack? path = some stack := by
  rw [normalize?_eq_map_finalStack?, Option.map_eq_some_iff]
  constructor
  · rintro ⟨other, hother, heq⟩
    split at heq
    · exact absurd heq.symm (by
        rw [written_of_ne_nil hne]
        exact joinWith_ne_nil (fun c hc => (hnames c hc).isPiece) hne)
    · rw [← written_inj (isName_of_finalStack? hother) hnames heq, hother]
  · intro h
    exact ⟨stack, h, if_neg fun hroot => hne hroot.1⟩

end Path

namespace OutputModule

open SchemaTypings.Path (finalStack? isRooted withSlashes)

theorem normalPath_eq_ok_iff {path normal : String} :
    normalPath path = .ok normal ↔ Path.normalize? path.toList = some normal.toList := by
  rw [normalPath, Path.normalizeString?]
  cases Path.normalize? path.toList with
  | none => simp
  | some cs =>
    simp only [Option.map_some, Except.ok.injEq, Option.some.injEq]
    exact ⟨fun h => by rw [← h, String.toList_ofList], fun h => by rw [h, String.ofList_toList]⟩

/-- The normal form of a path is the stack that is left at the end of the walk along it, with slashes
between, and there is none exactly if the walk escapes; where something is left the normal form is
normal, and it is that of the paths that leave the same. -/
theorem normalPath_walk (path : String) :
    normalPath path =
        (match finalStack? path.toList with
        | none => .error (.moduleMisuse (.pathEscapes path))
        | some [] => .ok (if isRooted (withSlashes path.toList) then "" else ".")
        | some stack => .ok (String.ofList (Text.joinWith ['/'] stack))) ∧
      ∀ stack, finalStack? path.toList = some stack → stack ≠ [] → ∀ normal,
        normalPath path = .ok normal → normalPath normal = .ok normal ∧
          ∀ other, normalPath other = .ok normal ↔ finalStack? other.toList = some stack := by
  have hnormal := Path.normalize?_eq_map_finalStack? path.toList
  constructor
  · rw [normalPath, Path.normalizeString?, hnormal]
    cases hstack : finalStack? path.toList with
    | none => rfl
    | some stack =>
      cases stack with
      | nil =>
        rw [Option.map_some]
        cases isRooted (withSlashes path.toList) with
        | false => rfl
        | true => rfl
      | cons c rest =>
        rw [Option.map_some, if_neg fun h => List.cons_ne_nil _ _ h.1]
        rfl
  · intro stack hstack hne normal hsome
    have hnames := Path.isName_of_finalStack? hstack
    have hwritten : normal.toList = Path.written stack := by
      have hleft := (Path.normalize?_eq_some_written_iff hne hnames).mpr hstack
      rw [normalPath_eq_ok_iff.mp hsome] at hleft
      exact Option.some.inj hleft
    -- a written place is read back, so that paths agree exactly if their places do
    have hsame : ∀ other : String, normalPath other = .ok normal ↔
        finalStack? other.toList = some stack := by
      intro other
      rw [normalPath_eq_ok_iff, hwritten, Path.normalize?_eq_some_written_iff hne hnames]
    exact ⟨(hsame normal).mpr (by rw [hwritten, Path.finalStack?_written hnames]), hsame⟩

/-- A rooted path that goes up at the root, with both slashes and a name that begins with full stops. -/
theorem normalPath_walk_dotted :
    finalStack? "/../..a//b\\..\\./c/".toList = some ["..a".toList, "c".toList] ∧
      normalPath "/../..a//b\\..\\./c/" = .ok "..a/c" ∧ normalPath "..a/c" = .ok "..a/c" ∧
        ∀ other, normalPath other = .ok "..a/c" ↔
          finalStack? other.toList = some ["..a".toList, "c".toList] := by
  have hstack : finalStack? "/../..a//b\\..\\./c/".toList = some ["..a".toList, "c".toList] := by
    decide +kernel
  have hnormal : normalPath "/../..a//b\\..\\./c/" = .ok "..a/c" := by
    rw [(normalPath_walk _).1, hstack]
    rfl
  exact ⟨hstack, hnormal, (normalPath_walk _).2 _ hstack (List.cons_ne_nil _ _) _ hnormal⟩

end OutputModule
end SchemaTypings
