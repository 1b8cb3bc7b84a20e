/-
  SchemaTypings.Proofs.Schema.Shown

  Where the values come from that the message about a failed conversion shows: they are found inside
  the schemas that the conversion comes to.
-/
import SchemaTypings.Proofs.Schema.Values

namespace SchemaTypings.Schema

section
variable {q : Json → Prop} {node : SchemaNode} {location : Location} {description : Json}
  {schema : Entries Json} {note : Note}

/-! ## Messages -/

/-- Whether something holds of the values that the message about a failure shows. -/
def Shows (q : Json → Prop) (e : ConversionError) : Prop :=
  ∀ cause l, e = .unsupported cause l → ∀ v ∈ cause.shownValues, q v

theorem shows_fault (fault : Fault) : Shows q (.fault fault) := fun _ _ h => by cases h

theorem shows_unsupported {cause : Unsupported} (h : ∀ v ∈ cause.shownValues, q v) (l : Location) :
    Shows q (.unsupported cause l) := fun _ _ heq => by cases heq; exact h

theorem shows_literalNode {value : Json} {e : ConversionError}
    (h : literalNode value location description = .error e) : Shows q e := by
  unfold literalNode at h
  split at h <;> cases h <;> exact shows_unsupported (List.forall_mem_nil _) _

theorem shows_literalNodes {index : Nat} {values : List Json} {e : ConversionError}
    (h : literalNodes location index values = .error e) : Shows q e := by
  induction values generalizing index with
  | nil => cases h
  | cons value rest ih =>
    rw [literalNodes] at h
    split at h
    · next hfails =>
      cases h
      exact shows_literalNode hfails
    · exact ih (eq_error_of_map_eq_error h)

theorem shows_enumNode {values : Json} {e : ConversionError}
    (h : enumNode values location description = .error e) : Shows q e := by
  unfold enumNode at h
  split at h
  · split at h
    · next hfails =>
      cases h
      exact shows_literalNodes hfails
    · cases h
    · cases h
  · cases h
    exact shows_unsupported (List.forall_mem_nil _) _

theorem shows_mergeObjects {index : Nat} {fields : List (Member SchemaNode)} {isOpen : Bool}
    {nodes : List SchemaNode} {e : ConversionError}
    (h : mergeObjects location index fields isOpen nodes = .error e) : Shows q e := by
  induction nodes generalizing index fields isOpen with
  | nil => cases h
  | cons node rest ih =>
    cases node with
    | object more moreOpen note => exact ih h
    | _ =>
      cases h
      exact shows_unsupported (List.forall_mem_nil _) _

theorem shows_intersectionOf {nodes : List SchemaNode} {e : ConversionError}
    (h : intersectionOf nodes location description = .error e) : Shows q e := by
  unfold intersectionOf at h
  split at h
  · cases h
  · exact shows_mergeObjects (eq_error_of_map_eq_error h)

theorem shows_primitiveNode {type : Json} {note : Note} (htype : q type) {e : ConversionError}
    (h : primitiveNode type note location = .error e) : Shows q e := by
  have hunknown : ∀ l, Shows q (.unsupported (.unknownType type) l) :=
    shows_unsupported (List.forall_mem_singleton.mpr htype)
  unfold primitiveNode at h
  split at h
  · split at h
    · cases h
    · cases h
      exact hunknown _
  · cases h
    exact shows_fault _
  · cases h
    exact shows_fault _
  · cases h
    exact hunknown _

theorem shows_primitiveNodes {types : List Json} {note : Note} (htypes : ∀ type ∈ types, q type)
    {e : ConversionError} (h : primitiveNodes note location types = .error e) : Shows q e := by
  induction types with
  | nil => cases h
  | cons type rest ih =>
    rw [List.forall_mem_cons] at htypes
    rw [primitiveNodes] at h
    split at h
    · next hfails =>
      cases h
      exact shows_primitiveNode htypes.1 hfails
    · exact ih htypes.2 (eq_error_of_map_eq_error h)

/-! ## Plans -/

/-- Whether something holds of the reference that a plan follows, of all that is inside its parts, and
of all values that the messages about its own failures show. -/
inductive Plan.Shows (q : Json → Prop) : Plan → Prop where
  | failure {error : Location → ConversionError} (h : ∀ l, Schema.Shows q (error l)) :
      Plan.Shows q (.failure error)
  | reference {r : Json} {finish : SchemaNode → SchemaNode} (h : q r) :
      Plan.Shows q (.reference r finish)
  | parts {ps : List (Json × List String)} {build : Location → List SchemaNode → Result}
      (hinside : ∀ part ∈ ps, ∀ v, Inside part.1 v → q v)
      (h : ∀ l nodes e, build l nodes = .error e → Schema.Shows q e) : Plan.Shows q (.parts ps build)

namespace Plan.Shows

theorem refusal {cause : Unsupported} (h : ∀ v ∈ cause.shownValues, q v) (steps : List String) :
    (Plan.refusal cause steps).Shows q := .failure fun _ => shows_unsupported h _

theorem fault (f : Fault) : (Plan.failure fun _ => .fault f).Shows q := .failure fun _ => shows_fault f

theorem plain {result : Location → Result} (h : ∀ l e, result l = .error e → Schema.Shows q e) :
    (Plan.plain result).Shows q := .parts (List.forall_mem_nil _) fun l _ e => h l e

theorem ok (node : SchemaNode) : (Plan.plain fun _ => .ok node).Shows q :=
  .plain fun _ _ h => by cases h

theorem sole {part : Json} (hinside : ∀ v, Inside part v → q v) (steps : List String)
    (make : SchemaNode → SchemaNode) : (Plan.sole part steps make).Shows q :=
  .parts (List.forall_mem_singleton.mpr hinside) fun _ _ _ h => by cases h

theorem map {plan : Plan} (h : plan.Shows q) (f : SchemaNode → SchemaNode) :
    (plan.map f).Shows q := by
  cases h with
  | failure h => exact .failure h
  | reference h => exact .reference h
  | parts hinside h =>
    exact .parts hinside fun l nodes e he => h l nodes e (eq_error_of_map_eq_error he)

end Plan.Shows

theorem shows_planOfList {keyword : String} {schemas : Json}
    {build : Location → List SchemaNode → Result} (hinside : ∀ v, Inside schemas v → q v)
    (h : ∀ l nodes e, build l nodes = .error e → Shows q e) :
    (planOfList keyword schemas build).Shows q := by
  unfold planOfList
  split
  · next first rest =>
    refine .parts (fun part hpart => ?_) h
    have hmem := List.mem_map_of_mem (f := Prod.fst) hpart
    rw [map_fst_listed] at hmem
    exact (Inside.item hmem).forall_inside hinside
  · exact .refusal (List.forall_mem_nil _) _

theorem shows_planOfObject (hinside : ∀ v, Inside (.obj schema) v → q v) :
    (planOfObject schema note).Shows q := by
  unfold planOfObject
  split
  · exact .fault _
  · split
    · split
      · next properties hproperties =>
        refine .parts (List.forall_mem_map.mpr fun property hproperty => ?_) ?_
        · exact ((Inside.of_get? hproperties).trans (.value hproperty)).forall_inside hinside
        · exact fun _ _ _ h => by cases h
      · exact .fault _
    · split
      · exact .ok _
      · next hadditional =>
        exact .sole ((Inside.of_get? hadditional).forall_inside hinside) _ _
      · exact .ok _

theorem shows_planOfArray (hinside : ∀ v, Inside (.obj schema) v → q v) :
    (planOfArray schema note).Shows q := by
  unfold planOfArray
  split
  · exact .ok _
  · exact .ok _
  · exact .refusal (List.forall_mem_nil _) _
  · next hitems => exact .sole ((Inside.of_get? hitems).forall_inside hinside) _ _

theorem shows_planOfTyped {type : Json} (hinside : ∀ v, Inside (.obj schema) v → q v)
    (htype : type = .null ∨ Inside (.obj schema) type) :
    (planOfTyped schema type description).Shows q := by
  -- Along the lists of one type.
  induction hsize : sizeOf type using Nat.strongRecOn generalizing type with
  | ind size ih =>
    rw [planOfTyped.eq_def]
    dsimp only
    split
    · split
      · exact shows_planOfObject hinside
      · split
        · exact shows_planOfArray hinside
        · exact .ok _
    · exact .refusal (List.forall_mem_nil _) _
    · next only =>
      have hlist := htype.resolve_left (by simp)
      refine ih (sizeOf only) ?_ (.inr (hlist.trans (.item (List.mem_singleton_self _)))) rfl
      rw [← hsize]
      simp
      omega
    · next types _ _ =>
      have hlist := htype.resolve_left (by simp)
      have htypes : ∀ type ∈ types, q type := fun type htype => hinside type (hlist.trans (.item htype))
      split
      · split
        · have hcause : ∀ v ∈ (Unsupported.mixedTypes types).shownValues, q v := htypes
          exact .refusal hcause _
        · split
          · exact (shows_planOfObject hinside).map _
          · exact (shows_planOfArray hinside).map _
      · exact .plain fun l e h => shows_primitiveNodes htypes (eq_error_of_map_eq_error h)
    · exact shows_planOfObject hinside
    · exact shows_planOfArray hinside
    · next hnull _ _ _ _ _ =>
      exact .plain fun l e h => shows_primitiveNode (hinside _ (htype.resolve_left hnull)) h

theorem shows_planOfEntries (hinside : ∀ v, Inside (.obj schema) v → q v) :
    (planOfEntries schema).Shows q := by
  have hbelow {keyword : String} {value : Json} (hvalue : schema.get? keyword = some value) :
      ∀ v, Inside value v → q v := (Inside.of_get? hvalue).forall_inside hinside
  unfold planOfEntries
  dsimp only
  split
  · exact .plain fun l e h => shows_literalNode h
  · split
    · exact .plain fun l e h => shows_enumNode h
    · split
      · next hoptions => exact shows_planOfList (hbelow hoptions) fun _ _ _ h => by cases h
      · split
        · next hoptions => exact shows_planOfList (hbelow hoptions) fun _ _ _ h => by cases h
        · split
          · next hparts =>
            exact shows_planOfList (hbelow hparts) fun _ _ _ h => shows_intersectionOf h
          · refine shows_planOfTyped hinside ?_
            rw [Entries.field]
            cases htype : schema.get? "type" with
            | none => exact .inl rfl
            | some type => exact .inr (.of_get? htype)

/-- A schema's own failures show values that are inside it. -/
theorem shows_planOf {schema : Json} (hinside : ∀ v, Inside schema v → q v) :
    (planOf schema).Shows q := by
  unfold planOf
  split
  · exact .ok _
  · exact .refusal (List.forall_mem_nil _) _
  · split
    · exact .refusal (List.forall_mem_nil _) _
    · refine Plan.Shows.map ?_ _
      unfold planOfReference
      split
      · next hreference => exact .reference (hinside _ (.of_get? hreference))
      · exact shows_planOfEntries hinside
  · exact .refusal (List.forall_mem_nil _) _

/-- What holds inside a schema and inside all that references lead to holds of the values that the
message about a failed conversion shows, if it does at references that are not followed. -/
theorem shows_of_convert {sources : Sources} {stop : Json → Location → ConversionError}
    (hstop : ∀ reference l, q reference → Shows q (stop reference l))
    (htarget : ∀ reference l e, q reference → sources.target reference l = .error e → Shows q e)
    (htargets : ∀ reference l target, sources.target reference l = .ok target →
      ∀ v, Inside target v → q v)
    {budget : Nat} {schema : Json} (hinside : ∀ v, Inside schema v → q v) {e : ConversionError}
    (h : convert sources stop budget schema location = .error e) : Shows q e := by
  induction budget, schema using visit_induction generalizing location with
  | step budget schema ihpart ihtarget =>
    have hshows : (planOf schema).Shows q := shows_planOf hinside
    rcases cases_of_convert_eq_error h with ⟨error, hplan, rfl⟩ | ⟨r, finish, hplan, hfollow⟩ |
      ⟨ps, build, part, hplan, hpart, hfails⟩ | ⟨ps, build, nodes, hplan, -, hbuilt⟩
    · rw [hplan] at hshows
      cases hshows with
      | failure herror => exact herror location
    · rw [hplan] at hshows
      cases hshows with
      | reference hr =>
        rcases cases_of_follower_eq_error hfollow with
          rfl | hfails | ⟨rest, target, rfl, hleads, hfails⟩
        · exact hstop r location hr
        · exact htarget r location e hr hfails
        · exact ihtarget rest target rfl (htargets r location target hleads) hfails
    · rw [hplan] at hshows
      cases hshows with
      | parts hparts _ =>
        exact ihpart part.1 (mem_schemas_of_planOf hplan hpart) (hparts part hpart) hfails
    · rw [hplan] at hshows
      cases hshows with
      | parts _ hbuild => exact hbuild location nodes e hbuilt

end

end SchemaTypings.Schema
