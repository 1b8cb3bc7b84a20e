/-
  SchemaTypings.Proofs.Path.Directory

  Directories that paths name.  Where the strict walk along a path succeeds, every walk leads to the
  same place, so the normal form of the path names it; and the normal form of a path that ends in a
  file name does not lose that name.
-/
import SchemaTypings.Proofs.Path.Specifier

namespace SchemaTypings.Path

/-! ## Walks that do not climb out -/

/-- What a walk does not leave again comes from the path or climbs. -/
theorem forall_mem_walk {p : Component → Prop} (habove : p above) {rooted : Bool}
    {cs : List Component} (hcs : ∀ c ∈ cs, p c) : ∀ c ∈ walk rooted cs, p c := by
  -- a step puts a component on the place, takes one off, or adds the move up
  have hfold : ∀ (cs place : List Component), (∀ c ∈ place, p c) → (∀ c ∈ cs, p c) →
      ∀ c ∈ cs.foldl (step rooted) place, p c := by
    intro cs
    induction cs with
    | nil => exact fun _ hplace _ => hplace
    | cons c rest ih =>
      intro place hplace hcs
      rw [List.forall_mem_cons] at hcs
      refine ih _ ?_ hcs.2
      unfold step
      split
      · exact hplace
      · split
        · cases place with
          | nil =>
            dsimp only
            split
            · exact List.forall_mem_nil _
            · exact List.forall_mem_singleton.mpr habove
          | cons top below =>
            dsimp only
            rw [List.forall_mem_cons] at hplace
            split
            · exact List.forall_mem_cons.mpr ⟨habove, List.forall_mem_cons.mpr hplace⟩
            · exact hplace.2
        · exact List.forall_mem_cons.mpr ⟨hcs.1, hplace⟩
  intro c hc
  exact hfold cs [] (List.forall_mem_nil _) hcs c (List.mem_reverse.mp hc)

/-- Components that lead nowhere may be left out. -/
theorem place?_filter (cs more : List Component) :
    place? (cs.filter (fun c => c ≠ [] ∧ c ≠ here) ++ more) = place? (cs ++ more) := by
  have hreach : ∀ place, reach place (cs.filter fun c => c ≠ [] ∧ c ≠ here) = reach place cs := by
    induction cs with
    | nil => exact fun _ => rfl
    | cons c rest ih =>
      intro place
      by_cases hc : c ≠ [] ∧ c ≠ here
      · rw [List.filter_cons_of_pos (by simpa using hc), reach_cons, reach_cons]
        exact congrArg _ (funext ih)
      · have hstay : enter place c = some place := if_pos (by tauto)
        rw [List.filter_cons_of_neg (by simpa using hc), reach_cons, hstay, Option.bind_some, ih]
  rw [place?, place?, reach_append, reach_append, hreach]

/-! ## Normal forms -/

theorem place?_components_written {place : List Component} (h : ∀ c ∈ place, IsName c) :
    place? (components (written place)) = some place := by
  have hwritten := place?_written h
  rwa [withSlashes_eq_self (not_mem_backslash_written h)] at hwritten

/-- If the strict walk along a path succeeds, the normal form of the path leads to the same place. -/
theorem exists_normalize?_of_place? {path : List Char} {place : List Component}
    (h : place? (components (withSlashes path)) = some place) :
    ∃ normal, normalize? path = some normal ∧ place? (components normal) = some place := by
  have hnames := isName_of_place? (fun c hc => isSegment_of_mem_components hc) h
  rw [normalize?, walk_of_place? _ h]
  cases place with
  | nil =>
    refine ⟨_, rfl, ?_⟩
    split
    · rfl
    · rfl
  | cons c rest =>
    exact ⟨_, if_neg (hnames c List.mem_cons_self).ne_above, place?_components_written hnames⟩

/-- Besides full stops and slashes the normal form of a path has characters of the path only. -/
theorem forall_mem_normalize? {p : Char → Prop} (hdot : p '.') (hslash : p '/')
    {path normal : List Char} (hpath : ∀ c ∈ path, p c) (h : normalize? path = some normal) :
    ∀ c ∈ normal, p c := by
  have hwalk : ∀ piece ∈ walk (isRooted (withSlashes path)) (components (withSlashes path)),
      ∀ c ∈ piece, p c := by
    refine forall_mem_walk (by simpa [above] using hdot) fun piece hpiece c hc => ?_
    obtain ⟨d, hd, heq⟩ := List.mem_map.mp (Text.mem_of_mem_splitAt hpiece hc)
    split at heq
    · exact heq ▸ hslash
    · exact heq ▸ hpath d hd
  rw [normalize?] at h
  split at h
  · cases h
    split
    · exact List.forall_mem_nil _
    · exact List.forall_mem_singleton.mpr hdot
  · next first rest heq =>
    split at h
    · cases h
    · cases h
      intro c hc
      rcases Text.mem_of_mem_joinWith hc with hsep | ⟨piece, hpiece, hc⟩
      · rw [List.mem_singleton.mp hsep]
        exact hslash
      · exact hwalk piece (heq ▸ hpiece) c hc

/-- Whether the last component of a path, both slashes parting it, is a name. -/
def EndsInName (path : List Char) : Prop :=
  ∃ front name, components (withSlashes path) = front ++ [name] ∧ IsName name

/-- A name at the end of a path is kept in its normal form. -/
theorem EndsInName.exists_place {path normal : List Char} (h : EndsInName path)
    (hnormal : normalize? path = some normal) :
    ∃ place, (∀ c ∈ place, IsName c) ∧ place ≠ [] ∧ normal = written place := by
  obtain ⟨front, name, hcomponents, hname⟩ := h
  have hsegments : ∀ c ∈ components (withSlashes path), c ≠ [] → c ≠ here → IsSegment c :=
    fun c hc => isSegment_of_mem_components hc
  cases hrooted : isRooted (withSlashes path) with
  | false =>
    rw [normalize?_of_not_isRooted hrooted] at hnormal
    obtain ⟨place, hplace, rfl⟩ := Option.map_eq_some_iff.mp hnormal
    refine ⟨place, isName_of_place? hsegments hplace, ?_, rfl⟩
    rw [hcomponents, place?_append_isName _ (by simpa using hname)] at hplace
    obtain ⟨above, -, rfl⟩ := Option.map_eq_some_iff.mp hplace
    exact List.concat_ne_nil _ _
  | true =>
    have hnames : ∀ c ∈ walk true (components (withSlashes path)), IsName c := fun c hc =>
      isName_of_foldl_step (by simp) hsegments c (List.mem_reverse.mp hc)
    have hstep : ∀ place, step true place name = name :: place := fun place =>
      (if_neg (not_or.mpr ⟨hname.ne_nil, hname.ne_here⟩)).trans (if_neg hname.ne_above)
    have hne : walk true (components (withSlashes path)) ≠ [] := by
      rw [walk, hcomponents, List.foldl_append, List.foldl_cons, hstep, List.foldl_nil,
        List.reverse_cons]
      exact List.concat_ne_nil _ _
    rw [normalize?, hrooted] at hnormal
    obtain ⟨c, rest, hwalk⟩ := List.exists_cons_of_ne_nil hne
    rw [hwalk] at hnames
    simp only [hwalk, if_neg (hnames c List.mem_cons_self).ne_above, Option.some.injEq] at hnormal
    exact ⟨c :: rest, hnames, List.cons_ne_nil _ _, hnormal.symm⟩

/-- A piece of text that is long enough at the end of a path makes its last component a name. -/
theorem endsInName_append (path : List Char) {ending : List Char} (hlength : 2 < ending.length)
    (hslash : '/' ∉ ending) (hback : '\\' ∉ ending) : EndsInName (path ++ ending) := by
  -- the ending is part of the last piece, which it makes too long to be a move
  obtain ⟨front, last, hpieces⟩ : ∃ front last, components (withSlashes path) = front ++ [last] :=
    ⟨_, _, (List.dropLast_concat_getLast (Text.splitAt_ne_nil '/' _)).symm⟩
  have hmem : ∀ piece ∈ front ++ [last], '/' ∉ piece ∧ '\\' ∉ piece := by
    rw [← hpieces]
    exact fun piece hpiece => ⟨Text.not_mem_of_mem_splitAt '/' _ piece hpiece,
      fun hc => not_mem_withSlashes path (Text.mem_of_mem_splitAt hpiece hc)⟩
  rw [List.forall_mem_append, List.forall_mem_singleton] at hmem
  have hlast : '/' ∉ last ++ ending ∧ '\\' ∉ last ++ ending :=
    ⟨fun hc => (List.mem_append.mp hc).elim hmem.2.1 hslash,
      fun hc => (List.mem_append.mp hc).elim hmem.2.2 hback⟩
  have hlong : 2 < (last ++ ending).length := by
    rw [List.length_append]
    omega
  refine ⟨front, last ++ ending, ?_, ⟨⟨?_, ?_, hlast.1, hlast.2⟩, ?_⟩⟩
  · have htext : withSlashes (path ++ ending) = Text.joinWith ['/'] (front ++ [last ++ ending]) := by
      have hjoined := Text.joinWith_splitAt '/' (withSlashes path)
      rw [← components, hpieces] at hjoined
      have hends : withSlashes (path ++ ending) = withSlashes path ++ ending := by
        rw [withSlashes, List.map_append, ← withSlashes, ← withSlashes, withSlashes_eq_self hback]
      rw [hends, ← hjoined]
      rcases joinWith_concat_cases front last with ⟨rfl, heq⟩ | ⟨hne, heq⟩
      · rw [heq]
        rfl
      · rw [heq, Text.joinWith_concat _ hne, List.append_assoc]
    rw [htext, components, Text.splitAt_joinWith_concat fun piece hp => (hmem.1 piece hp).1,
      Text.splitAt_of_not_mem hlast.1]
  · rintro heq
    simp [heq] at hlong
  · rintro heq
    simp [heq, here] at hlong
  · rintro heq
    simp [heq, above] at hlong

end SchemaTypings.Path
