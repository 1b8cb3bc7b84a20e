/-
  SchemaTypings.Proofs.Schema.Grouping

  Intersections in intersections and unions in unions.  To merge fields is associative, and a union
  without a description gives its members to the union around it; so schemas that are grouped by
  one more intersection or union come to the same node as without the group.  The schemas of the
  group are elsewhere in the document then, so the references must lead to the same schemas.
-/
import SchemaTypings.Proofs.Schema.Alike
import SchemaTypings.Proofs.Schema.WellFormed
import Mathlib.Tactic

namespace SchemaTypings.Schema

open SchemaNode

/-! ## Merged fields -/

/-- A field that keeps an earlier place may be merged before or after a field of another name. -/
theorem mergeField_comm {fields : List (Member SchemaNode)} {field other : Member SchemaNode}
    (hne : other.name ≠ field.name) (hmem : field.name ∈ fields.map Member.name) :
    mergeField (mergeField fields other) field = mergeField (mergeField fields field) other := by
  induction fields with
  | nil => cases hmem
  | cons previous rest ih =>
    by_cases hfield : previous.name = field.name
    · simp [mergeField, hfield, hne.symm]
    · have hrest : field.name ∈ rest.map Member.name := by
        rw [List.map_cons, List.mem_cons] at hmem
        exact hmem.resolve_left (Ne.symm hfield)
      by_cases hother : previous.name = other.name
      · simp [mergeField, hother, hne]
      · simp [mergeField, hfield, hother, ih hrest]

/-- Of two fields of one name the second is taken, which is optional only if both are. -/
theorem mergeField_mergeField (fields : List (Member SchemaNode)) {first second : Member SchemaNode}
    (hname : first.name = second.name) :
    mergeField (mergeField fields first) second =
      mergeField fields { second with optional := second.optional && first.optional } := by
  induction fields with
  | nil => simp [mergeField, hname]
  | cons previous rest ih =>
    by_cases hprevious : previous.name = second.name
    · simp [mergeField, hname, hprevious, Bool.and_assoc]
    · simp [mergeField, hname, hprevious, ih]

theorem mem_names_mergeField (fields : List (Member SchemaNode)) (field : Member SchemaNode) :
    field.name ∈ (mergeField fields field).map Member.name := by
  rw [names_mergeField]
  split
  · next hmem => exact hmem
  · exact List.mem_append_right _ (List.mem_singleton_self _)

theorem mergeField_foldl_comm {fields more : List (Member SchemaNode)} {field : Member SchemaNode}
    (hmem : field.name ∈ fields.map Member.name) (hnot : field.name ∉ more.map Member.name) :
    mergeField (more.foldl mergeField fields) field =
      more.foldl mergeField (mergeField fields field) := by
  induction more generalizing fields with
  | nil => rfl
  | cons other rest ih =>
    rw [List.map_cons, List.mem_cons, not_or] at hnot
    have hnext : field.name ∈ (mergeField fields other).map Member.name := by
      rw [names_mergeField]
      split
      · exact hmem
      · exact List.mem_append_left _ hmem
    rw [List.foldl_cons, List.foldl_cons, ih hnext hnot.2, mergeField_comm (Ne.symm hnot.1) hmem]

/-- To merge a field into others first makes no difference to what these are merged into. -/
theorem foldl_mergeField_mergeField {more : List (Member SchemaNode)}
    (hnodup : (more.map Member.name).Nodup) (fields : List (Member SchemaNode))
    (field : Member SchemaNode) :
    (mergeField more field).foldl mergeField fields =
      mergeField (more.foldl mergeField fields) field := by
  induction more generalizing fields with
  | nil => rfl
  | cons first rest ih =>
    rw [List.map_cons, List.nodup_cons] at hnodup
    by_cases hname : first.name = field.name
    · -- The place of the name is settled by then, so the rest may come before or after the field.
      have hmem : field.name ∈ (mergeField fields first).map Member.name :=
        hname ▸ mem_names_mergeField fields first
      rw [mergeField, if_pos hname, List.foldl_cons, List.foldl_cons,
        mergeField_foldl_comm hmem (hname ▸ hnodup.1), mergeField_mergeField fields hname]
    · rw [mergeField, if_neg hname, List.foldl_cons, List.foldl_cons, ih hnodup.2]

theorem nodup_names_mergeField {fields : List (Member SchemaNode)}
    (hnodup : (fields.map Member.name).Nodup) (field : Member SchemaNode) :
    ((mergeField fields field).map Member.name).Nodup := by
  rw [names_mergeField]
  split
  · exact hnodup
  · next hnot =>
    rw [List.nodup_append']
    exact ⟨hnodup, List.nodup_singleton _, List.disjoint_singleton.mpr hnot⟩

/-- To merge fields is associative. -/
theorem foldl_mergeField_assoc {more : List (Member SchemaNode)}
    (hnodup : (more.map Member.name).Nodup) (fields last : List (Member SchemaNode)) :
    (last.foldl mergeField more).foldl mergeField fields =
      last.foldl mergeField (more.foldl mergeField fields) := by
  induction last generalizing more with
  | nil => rfl
  | cons field rest ih =>
    rw [List.foldl_cons, List.foldl_cons, ih (nodup_names_mergeField hnodup field),
      foldl_mergeField_mergeField hnodup]

/-! ## Objects taken together -/

/-- Fields and openness together with those of one more object. -/
def mergeNode (merged : List (Member SchemaNode) × Bool) (node : SchemaNode) :
    Option (List (Member SchemaNode) × Bool) :=
  match node with
  | .object more moreOpen _ => some (more.foldl mergeField merged.1, merged.2 || moreOpen)
  | _ => none

theorem mergeObjects_eq_ok_iff {location : Location} {index : Nat}
    {fields : List (Member SchemaNode)} {isOpen : Bool} {nodes : List SchemaNode}
    {merged : List (Member SchemaNode) × Bool} :
    mergeObjects location index fields isOpen nodes = .ok merged ↔
      nodes.foldlM mergeNode (fields, isOpen) = some merged := by
  induction nodes generalizing index fields isOpen with
  | nil =>
    show Except.ok _ = Except.ok merged ↔ some _ = some merged
    rw [Except.ok.injEq, Option.some.injEq]
  | cons node rest ih =>
    rw [mergeObjects.eq_def, List.foldlM_cons]
    cases node with
    | object more moreOpen note => exact ih
    | _ => simp [mergeNode, refuse]

/-- Objects are taken together with what is before them as their own merging is. -/
theorem foldlM_mergeNode_foldl (nodes : List SchemaNode) {more : List (Member SchemaNode)}
    (hnodup : (more.map Member.name).Nodup) (fields : List (Member SchemaNode))
    (isOpen moreOpen : Bool) :
    nodes.foldlM mergeNode (more.foldl mergeField fields, isOpen || moreOpen) =
      (nodes.foldlM mergeNode (more, moreOpen)).map fun merged =>
        (merged.1.foldl mergeField fields, isOpen || merged.2) := by
  induction nodes generalizing more moreOpen with
  | nil => rfl
  | cons node rest ih =>
    rw [List.foldlM_cons, List.foldlM_cons]
    cases node with
    | object last lastOpen note =>
      have hlast : ((last.foldl mergeField more).map Member.name).Nodup := by
        clear ih
        induction last generalizing more with
        | nil => exact hnodup
        | cons field rest ih => exact ih (nodup_names_mergeField hnodup field)
      show rest.foldlM mergeNode
        (last.foldl mergeField (more.foldl mergeField fields), (isOpen || moreOpen) || lastOpen) = _
      rw [← foldl_mergeField_assoc hnodup, Bool.or_assoc, ih hlast]
      rfl
    | _ => rfl

/-! ## Combinations of nodes -/

/-- The intersection of nodes without a description, where there is one. -/
def intersection? (nodes : List SchemaNode) : Option SchemaNode :=
  match nodes with
  | [only] => some only
  | _ => (nodes.foldlM mergeNode ([], false)).map fun merged => .object merged.1 merged.2 {}

theorem intersection?_of_ne_singleton {nodes : List SchemaNode} (h : ∀ only, nodes ≠ [only]) :
    intersection? nodes =
      (nodes.foldlM mergeNode ([], false)).map fun merged => .object merged.1 merged.2 {} := by
  unfold intersection?
  split
  · next only => exact absurd rfl (h only)
  · rfl

theorem intersectionOf_eq_ok_iff {nodes : List SchemaNode} {location : Location}
    {node : SchemaNode} :
    intersectionOf nodes location .null = .ok node ↔ intersection? nodes = some node := by
  unfold intersectionOf
  split
  · rw [describedBy, intersection?, Except.ok.injEq, Option.some.injEq]
  · next hmany =>
    rw [intersection?_of_ne_singleton hmany, Option.map_eq_some_iff]
    constructor
    · intro h
      obtain ⟨merged, hmerged, rfl⟩ := exists_of_map_eq_ok h
      exact ⟨merged, mergeObjects_eq_ok_iff.mp hmerged, rfl⟩
    · rintro ⟨merged, hmerged, rfl⟩
      rw [mergeObjects_eq_ok_iff.mpr hmerged]
      rfl

/-- A group that is merged first gives what its nodes give, one after another. -/
theorem bind_foldlM_mergeNode (nodes : List SchemaNode)
    (merged : List (Member SchemaNode) × Bool) :
    ((nodes.foldlM mergeNode ([], false)).bind fun group =>
        mergeNode merged (.object group.1 group.2 {})) = nodes.foldlM mergeNode merged := by
  have h := foldlM_mergeNode_foldl nodes (by simp : ([].map Member.name).Nodup) merged.1 merged.2
    false
  rw [List.foldl_nil, Bool.or_false] at h
  rw [h]
  cases nodes.foldlM mergeNode ([], false) <;> rfl

/-- An intersection stands for the nodes that it is of. -/
theorem intersection?_append (before after : List SchemaNode) {nodes : List SchemaNode}
    (hnonempty : nodes ≠ []) :
    intersection? (before ++ nodes ++ after) =
      (intersection? nodes).bind fun node => intersection? (before ++ node :: after) := by
  -- Of one node an intersection is that node; two or more are merged, even if they are a group.
  rcases nodes with _ | ⟨first, _ | ⟨second, rest⟩⟩
  · exact absurd rfl hnonempty
  · show _ = intersection? (before ++ first :: after)
    rw [List.append_assoc, List.singleton_append]
  · have hgroup : ∀ only, first :: second :: rest ≠ [only] := by simp
    have hall : ∀ only, before ++ first :: second :: rest ++ after ≠ [only] := by
      intro only h
      have hlength := congrArg List.length h
      simp at hlength
      omega
    rw [intersection?_of_ne_singleton hgroup, intersection?_of_ne_singleton hall]
    generalize first :: second :: rest = nodes
    by_cases hsole : before = [] ∧ after = []
    · -- The group is all there is.
      obtain ⟨rfl, rfl⟩ := hsole
      rw [List.nil_append, List.append_nil]
      cases nodes.foldlM mergeNode ([], false) <;> rfl
    · -- The merged group is merged with its neighbours.
      have hmany : ∀ node only, before ++ node :: after ≠ [only] := by
        intro node only h
        rw [List.append_eq_singleton_iff] at h
        simp only [List.cons.injEq, reduceCtorEq, and_false, or_false] at h
        exact hsole ⟨h.1, h.2.2⟩
      rw [Option.bind_map]
      simp only [intersection?_of_ne_singleton (hmany _), Function.comp_def, List.foldlM_append,
        List.foldlM_cons]
      cases before.foldlM mergeNode ([], false) with
      | none => cases nodes.foldlM mergeNode ([], false) <;> rfl
      | some merged =>
        show ((nodes.foldlM mergeNode merged).bind _).map _ = _
        rw [← bind_foldlM_mergeNode nodes merged]
        cases nodes.foldlM mergeNode ([], false) <;> rfl

/-- A node that has one alternative is that alternative, as a union has several. -/
theorem spliceUnion_of_sole {node only : SchemaNode} (h : node.Everywhere (IsWellFormed False))
    (hsole : spliceUnion node = [only]) : spliceUnion only = [only] := by
  unfold spliceUnion at hsole
  split at hsole
  · next members _ =>
    subst hsole
    have hmany : 2 ≤ 1 := (everywhere_union.mp h).1
    omega
  · next hnot =>
    cases hsole
    unfold spliceUnion
    split
    · next members _ => exact absurd rfl (hnot members _)
    · rfl

/-- A union without a description gives its members to the union around it. -/
theorem spliceUnion_unionOf {nodes : List SchemaNode} (hnonempty : nodes ≠ [])
    (hnodes : ∀ node ∈ nodes, node.Everywhere (IsWellFormed False)) :
    spliceUnion (unionOf nodes .null) = nodes.flatMap spliceUnion := by
  unfold unionOf
  split
  · next only honly =>
    rw [describedBy, honly]
    obtain ⟨first, rest, rfl⟩ := List.exists_cons_of_ne_nil hnonempty
    have hfirst := hnodes first List.mem_cons_self
    rw [List.flatMap_cons, List.append_eq_singleton_iff] at honly
    rcases honly with ⟨hnil, -⟩ | ⟨hsole, -⟩
    · exact absurd hnil (wellFormed_spliceUnion hfirst).1
    · exact spliceUnion_of_sole hfirst hsole
  · rfl

/-- A union of alternatives stands for them. -/
theorem unionOf_append (before after : List SchemaNode) {nodes : List SchemaNode}
    (hnonempty : nodes ≠ []) (hnodes : ∀ node ∈ nodes, node.Everywhere (IsWellFormed False)) :
    unionOf (before ++ nodes ++ after) .null =
      unionOf (before ++ unionOf nodes .null :: after) .null := by
  have hsplice : (before ++ unionOf nodes .null :: after).flatMap spliceUnion =
      (before ++ nodes ++ after).flatMap spliceUnion := by
    rw [List.flatMap_append, List.flatMap_cons, spliceUnion_unionOf hnonempty hnodes,
      List.flatMap_append, List.flatMap_append, List.append_assoc]
  unfold unionOf at hsplice ⊢
  rw [hsplice]

/-- The node that a keyword makes of those of the schemas in its list. -/
def combine? (keyword : String) (nodes : List SchemaNode) : Option SchemaNode :=
  if keyword = "allOf" then intersection? nodes else some (unionOf nodes .null)

/-- Whether keywords put schemas together in the same way: all to intersections or all to unions. -/
def ComposeAlike (keywords : List String) : Prop :=
  (∀ keyword ∈ keywords, keyword = "allOf") ∨
    ∀ keyword ∈ keywords, keyword = "anyOf" ∨ keyword = "oneOf"

/-- A combination stands for the nodes that it is of. -/
theorem combine?_append {outer inner flat : String} (h : ComposeAlike [outer, inner, flat])
    (before after : List SchemaNode) {nodes : List SchemaNode} (hnonempty : nodes ≠ [])
    (hnodes : ∀ node ∈ nodes, node.Everywhere (IsWellFormed False)) :
    combine? flat (before ++ nodes ++ after) =
      (combine? inner nodes).bind fun node => combine? outer (before ++ node :: after) := by
  rcases h with h | h
  · simp only [List.forall_mem_cons] at h
    obtain ⟨rfl, rfl, rfl, -⟩ := h
    exact intersection?_append before after hnonempty
  · have hunion : ∀ keyword ∈ [outer, inner, flat], ∀ nodes,
        combine? keyword nodes = some (unionOf nodes .null) := by
      intro keyword hkeyword nodes
      rcases h keyword hkeyword with rfl | rfl <;> rfl
    rw [hunion flat (by simp), hunion inner (by simp), Option.bind_some, hunion outer (by simp),
      unionOf_append before after hnonempty hnodes]

/-! ## Schemas in a list -/

/-- The schema that puts those in a list together by a keyword. -/
def composition (keyword : String) (schemas : List Json) : Json := .obj [(keyword, .arr schemas)]

section
variable {sources sources' : Sources} {stop stop' : Json → Location → ConversionError}
  {budget : Nat} {location location' : Location}

/-- A list of schemas is put together if all of them have nodes that can be combined. -/
theorem convert_composition_eq_ok_iff {keyword : String}
    (hkeyword : keyword = "allOf" ∨ keyword = "anyOf" ∨ keyword = "oneOf") {schemas : List Json}
    (hnonempty : schemas ≠ []) {node : SchemaNode} :
    convert sources stop budget (composition keyword schemas) location = .ok node ↔
      ∃ nodes, List.Forall₂ (fun schema n => convert sources stop budget schema location = .ok n)
        schemas nodes ∧ combine? keyword nodes = some node := by
  obtain ⟨first, rest, rfl⟩ := List.exists_cons_of_ne_nil hnonempty
  have hplan : planOf (composition keyword (first :: rest)) =
      .parts (listed keyword 0 (first :: rest)) fun l nodes =>
        if keyword = "allOf" then intersectionOf nodes l .null else .ok (unionOf nodes .null) := by
    rcases hkeyword with rfl | rfl | rfl
    · refine congrArg (Plan.parts _) (funext fun l => funext fun nodes => ?_)
      show (intersectionOf nodes l .null).map (withNullable _) = _
      cases h : intersectionOf nodes l .null <;> rfl
    · rfl
    · rfl
  rw [convert_eq_ok_iff_of_parts hplan, map_fst_listed]
  refine exists_congr fun nodes => and_congr_right fun _ => ?_
  rw [combine?]
  split
  · exact intersectionOf_eq_ok_iff
  · rw [Except.ok.injEq, Option.some.injEq]

theorem wellFormed_of_forall₂ {schemas : List Json} {nodes : List SchemaNode}
    (h : List.Forall₂ (fun schema n => convert sources stop budget schema location = .ok n)
      schemas nodes) : ∀ node ∈ nodes, node.Everywhere (IsWellFormed False) := by
  intro node hnode
  obtain ⟨schema, -, hconvert⟩ := exists_left_of_forall₂ h hnode
  exact wellFormed_of_convert False.elim False.elim hconvert

theorem ne_nil_of_forall₂ {schemas : List Json} {nodes : List SchemaNode}
    {r : Json → SchemaNode → Prop} (h : List.Forall₂ r schemas nodes) (hnonempty : schemas ≠ []) :
    nodes ≠ [] := by
  rintro rfl
  cases h
  exact hnonempty rfl

/-- Schemas whose references lead alike have the same nodes from either sources. -/
theorem forall₂_convert_iff {schemas : List Json}
    (hsame : ∀ schema ∈ schemas, SameTargets sources sources' schema)
    (stop stop' : Json → Location → ConversionError) (location location' : Location)
    {nodes : List SchemaNode} :
    List.Forall₂ (fun schema n => convert sources stop budget schema location = .ok n) schemas
        nodes ↔
      List.Forall₂ (fun schema n => convert sources' stop' budget schema location' = .ok n) schemas
        nodes := by
  constructor
  · intro h
    exact ((List.forall₂_and_left schemas nodes).mpr ⟨hsame, h⟩).imp fun schema n hn =>
      (hn.1.convert_eq_ok_iff stop stop' location location').mp hn.2
  · intro h
    exact ((List.forall₂_and_left schemas nodes).mpr ⟨hsame, h⟩).imp fun schema n hn =>
      (hn.1.convert_eq_ok_iff stop stop' location location').mpr hn.2

/-- Grouping does not matter: schemas that one keyword puts together come to the same node where
some of them, next to each other, are put together on their own first; and if one of the two has
no node, neither has the other.  The references that the schemas come to have to lead to the same
schemas in both documents. -/
theorem convert_regrouped {outer inner flat : String} (hkeywords : ComposeAlike [outer, inner, flat])
    {before group after : List Json} (hgroup : group ≠ [])
    (hsame : ∀ schema ∈ before ++ group ++ after, SameTargets sources sources' schema)
    (node : SchemaNode) :
    convert sources stop budget (composition outer (before ++ composition inner group :: after))
        location = .ok node ↔
      convert sources' stop' budget (composition flat (before ++ group ++ after)) location' =
        .ok node := by
  have hlist : ∀ keyword ∈ [outer, inner, flat],
      keyword = "allOf" ∨ keyword = "anyOf" ∨ keyword = "oneOf" := by
    intro keyword hkeyword
    rcases hkeywords with h | h
    · exact .inl (h keyword hkeyword)
    · exact .inr (h keyword hkeyword)
  have hflat : before ++ group ++ after ≠ [] := by simp [hgroup]
  rw [convert_composition_eq_ok_iff (hlist outer (by simp)) (by simp),
    convert_composition_eq_ok_iff (hlist flat (by simp)) hflat]
  simp only [← forall₂_convert_iff hsame stop stop' location location']
  have hinner : ∀ n, convert sources stop budget (composition inner group) location = .ok n ↔
      ∃ nodes, List.Forall₂
        (fun schema n => convert sources stop budget schema location = .ok n) group nodes ∧
          combine? inner nodes = some n :=
    fun _ => convert_composition_eq_ok_iff (hlist inner (by simp)) hgroup
  -- the results of the whole list are cut where the group begins and where it ends
  constructor
  · rintro ⟨nodes, hnodes, hcombined⟩
    obtain ⟨first, rest, hfirst, hrest, rfl⟩ := exists_of_forall₂_append hnodes
    rcases hrest with _ | ⟨hmiddle, hlast⟩
    obtain ⟨grouped, hgrouped, hn⟩ := (hinner _).mp hmiddle
    refine ⟨_, List.rel_append (List.rel_append hfirst hgrouped) hlast, ?_⟩
    rw [combine?_append hkeywords _ _ (ne_nil_of_forall₂ hgrouped hgroup)
      (wellFormed_of_forall₂ hgrouped), hn]
    exact hcombined
  · rintro ⟨nodes, hnodes, hcombined⟩
    obtain ⟨front, last, hfront, hlast, rfl⟩ := exists_of_forall₂_append hnodes
    obtain ⟨first, grouped, hfirst, hgrouped, rfl⟩ := exists_of_forall₂_append hfront
    rw [combine?_append hkeywords _ _ (ne_nil_of_forall₂ hgrouped hgroup)
      (wellFormed_of_forall₂ hgrouped)] at hcombined
    obtain ⟨n, hn, hall⟩ := Option.bind_eq_some_iff.mp hcombined
    exact ⟨_, List.rel_append hfirst (.cons ((hinner _).mpr ⟨grouped, hgrouped, hn⟩) hlast), hall⟩

end

/-! ## References to alternatives -/

/-- The schema of one type. -/
def typed (type : String) : Json := .obj [("type", .str type)]

/-- The schema of what an alternative of the document says. -/
def alternative (index : String) : Json := .obj [("$ref", .str ("#/anyOf/" ++ index))]

/-- A group whose last member points to the alternative in front of the group. -/
theorem convert_regrouped_alternative :
    let nested := composition "anyOf"
      ([typed "string"] ++ composition "oneOf" [typed "number", alternative "0"] ::
        [typed "boolean"])
    let flat := composition "anyOf"
      ([typed "string"] ++ [typed "number", alternative "0"] ++ [typed "boolean"])
    ComposeAlike ["anyOf", "oneOf", "anyOf"] ∧
      (∀ schema ∈ [typed "string"] ++ [typed "number", alternative "0"] ++ [typed "boolean"],
        SameTargets ⟨nested, none⟩ ⟨flat, none⟩ schema) ∧
      ofDocument nested none (.ofInt 16) = .ok (.union [.primitive .string {},
        .primitive .number {}, .primitive .string {}, .primitive .boolean {}] {}) := by
  intro nested flat
  have hkeywords : ComposeAlike ["anyOf", "oneOf", "anyOf"] := .inr (by decide)
  have hkeeps : ∀ root ∈ [nested, flat], ∀ root' ∈ [nested, flat],
      ∀ schema ∈ [typed "string", typed "number", alternative "0", typed "boolean"],
        KeepsTargets ⟨root, none⟩ ⟨root', none⟩ schema := by
    intro root hroot root' hroot' schema hschema
    have hlead : ∀ document ∈ [nested, flat],
        (Sources.mk document none).LeadsTo (.str "#/anyOf/0") (typed "string") := by
      intro document hdocument
      rcases List.mem_pair.mp hdocument with rfl | rfl
      · exact ⟨.root, by cbv⟩
      · exact ⟨.root, by cbv⟩
    have hplans : ∀ s ∈ [typed "string", typed "number", alternative "0", typed "boolean"],
        (planOf s).schemas = [] ∧ (planOf s).reference?.getD (.str "#/anyOf/0") =
          .str "#/anyOf/0" := by
      simp only [List.forall_mem_cons]
      exact ⟨⟨by cbv, by cbv⟩, ⟨by cbv, by cbv⟩, ⟨by cbv, by cbv⟩, ⟨by cbv, by cbv⟩, by simp⟩
    refine .of_closed (· ∈ [typed "string", typed "number", alternative "0", typed "boolean"])
      hschema ?_ ?_
    · intro s part hs hpart
      rw [(hplans s hs).1] at hpart
      cases hpart
    · intro s reference target hs hreference htarget
      have hpointer := (hplans s hs).2
      rw [hreference, Option.getD_some] at hpointer
      subst hpointer
      rw [(hlead root hroot).eq htarget]
      exact ⟨List.mem_cons_self, hlead root' hroot'⟩
  have hsame : ∀ schema ∈ [typed "string"] ++ [typed "number", alternative "0"] ++
      [typed "boolean"], SameTargets ⟨nested, none⟩ ⟨flat, none⟩ schema := fun schema hschema =>
    ⟨hkeeps nested (by simp) flat (by simp) schema hschema,
      hkeeps flat (by simp) nested (by simp) schema hschema⟩
  have hflat : ofDocument flat none (.ofInt 16) = .ok (.union [.primitive .string {},
      .primitive .number {}, .primitive .string {}, .primitive .boolean {}] {}) := by cbv
  exact ⟨hkeywords, hsame, (convert_regrouped hkeywords (by simp) hsame _).mpr hflat⟩

/-- A pointer into a list of alternatives leads elsewhere where some of them are grouped. -/
theorem not_regrouped_of_pointer :
    ¬∀ node,
      ofDocument (composition "anyOf" ([] ++ composition "anyOf" [typed "string", typed "number"] ::
        [typed "boolean", alternative "1"])) none (.ofInt 16) = .ok node ↔
      ofDocument (composition "anyOf" ([] ++ [typed "string", typed "number"] ++
        [typed "boolean", alternative "1"])) none (.ofInt 16) = .ok node := by
  intro h
  have hnested : ofDocument (composition "anyOf" ([] ++ composition "anyOf"
      [typed "string", typed "number"] :: [typed "boolean", alternative "1"])) none (.ofInt 16) =
        .ok (.union [.primitive .string {}, .primitive .number {}, .primitive .boolean {},
          .primitive .boolean {}] {}) := by cbv
  have hflat : ofDocument (composition "anyOf" ([] ++ [typed "string", typed "number"] ++
      [typed "boolean", alternative "1"])) none (.ofInt 16) =
        .ok (.union [.primitive .string {}, .primitive .number {}, .primitive .boolean {},
          .primitive .number {}] {}) := by cbv
  cases hflat.symm.trans ((h _).mp hnested)

end SchemaTypings.Schema
