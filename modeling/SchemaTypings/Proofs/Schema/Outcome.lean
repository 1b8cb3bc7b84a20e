/-
  SchemaTypings.Proofs.Schema.Outcome

  What a plan can give.  Whether it gives a node does not depend on where the schema is; the node's
  descriptions are those of the schema and of its parts; and where it ends in a fault, the schema
  has a value that its keyword cannot have.
-/
import SchemaTypings.Proofs.Schema.Plan
import SchemaTypings.Proofs.Schema.Subnode

namespace SchemaTypings

/-! ## Descriptions -/

namespace SchemaNode

/-- Whether something holds of the descriptions of a node and of all nodes inside it. -/
def Described (p : Json → Prop) : SchemaNode → Prop := Everywhere fun n => p n.description

variable {p : Json → Prop} {node : SchemaNode}

theorem described_withDescription {description : Json} (hdescription : p description)
    (h : node.Described p) : (node.withDescription description).Described p := by
  have hroot : p (node.withDescription description).description := by
    rwa [description_withDescription]
  cases node with
  | object => exact everywhere_object.mpr ⟨hroot, (everywhere_object.mp h).2⟩
  | array => exact everywhere_array.mpr ⟨hroot, (everywhere_array.mp h).2⟩
  | record => exact everywhere_record.mpr ⟨hroot, (everywhere_record.mp h).2⟩
  | union => exact everywhere_union.mpr ⟨hroot, (everywhere_union.mp h).2⟩
  | any => exact everywhere_any.mpr hroot
  | null => exact everywhere_null.mpr hroot
  | primitive => exact everywhere_primitive.mpr hroot
  | literal => exact everywhere_literal.mpr hroot

theorem described_withNull (hnull : p .null) (h : node.Described p) :
    node.withNull.Described p := by
  unfold withNull
  split
  · exact h
  · split
    · exact h
    · -- The description of the node is now that of the union.
      refine everywhere_union.mpr ⟨h node (self_mem_subnodes node), ?_⟩
      rw [List.forall_mem_cons, List.forall_mem_singleton]
      exact ⟨described_withDescription hnull h, everywhere_null.mpr hnull⟩

end SchemaNode

namespace Schema

open SchemaNode

/-- Whether a type can be looked up among the type names.  In a list, lists and objects are passed
over where the list has a structured name. -/
def isReadableType : Json → Bool
  | .obj _ => false
  | .arr [only] => isReadableType only
  | .arr types => types.any isStructured || types.all Json.isScalar
  | _ => true
termination_by type => sizeOf type

/-- A keyword of the schema has a value that it cannot have, and looking at it is this fault. -/
inductive Misused : Json → Fault → Prop where
  | required {schema : Entries Json} {fault : Fault}
      (h : requiredNames (schema.field "required") = .error fault) : Misused (.obj schema) fault
  | properties {schema : Entries Json} (hsome : (schema.field "properties").isTruthy = true)
      (hnot : ∀ properties, schema.get? "properties" ≠ some (.obj properties)) :
      Misused (.obj schema) .noSuchOperation
  | type {schema : Entries Json} (h : isReadableType (schema.field "type") = false) :
      Misused (.obj schema) .unfitOperand

/-- The description in a schema, null where there is none. -/
def descriptionOf : Json → Json
  | .obj schema => Entries.field schema "description"
  | _ => .null

/-! ## Outcomes at all locations -/

/-- What comes out at all locations alike: a good result, or a failure that is one of the bad faults
if it is a fault at all. -/
inductive Settled {α : Type} (good : α → Prop) (bad : Fault → Prop)
    (outcome : Location → Except ConversionError α) : Prop where
  | success (a : α) (hgood : good a) (h : ∀ l, outcome l = .ok a)
  | failure (h : ∀ l, ∃ e, outcome l = .error e ∧ ∀ f, e = .fault f → bad f)

namespace Settled

variable {α β : Type} {good : α → Prop} {good' : β → Prop} {bad : Fault → Prop}
  {outcome : Location → Except ConversionError α}

theorem ok {a : α} (hgood : good a) : Settled good bad fun _ => .ok a :=
  .success a hgood fun _ => rfl

theorem refuse (cause : Unsupported) (place : Location → Location) :
    Settled good bad fun l => refuse cause (place l) :=
  .failure fun _ => ⟨_, rfl, fun _ h => by cases h⟩

theorem fault {f : Fault} (hbad : bad f) : Settled good bad fun _ => .error (.fault f) :=
  .failure fun _ => ⟨_, rfl, fun _ h => by cases h; exact hbad⟩

theorem congr {outcome' : Location → Except ConversionError α} (h : Settled good bad outcome)
    (heq : ∀ l, outcome' l = outcome l) : Settled good bad outcome' := funext heq ▸ h

theorem at_place (h : Settled good bad outcome) (place : Location → Location) :
    Settled good bad fun l => outcome (place l) := by
  cases h with
  | success a hgood h => exact .success a hgood fun l => h (place l)
  | failure h => exact .failure fun l => h (place l)

theorem bind (h : Settled good bad outcome) {next : α → Location → Except ConversionError β}
    (hnext : ∀ a, good a → Settled good' bad (next a)) :
    Settled good' bad fun l => (outcome l).bind fun a => next a l := by
  cases h with
  | success a hgood h =>
    simp only [h]
    exact hnext a hgood
  | failure h =>
    refine .failure fun l => ?_
    obtain ⟨e, he, hfault⟩ := h l
    exact ⟨e, by rw [he]; rfl, hfault⟩

theorem map (h : Settled good bad outcome) {f : α → β} (hf : ∀ a, good a → good' (f a)) :
    Settled good' bad fun l => (outcome l).map f := by
  refine congr (h.bind fun a ha => .ok (hf a ha)) fun l => ?_
  cases outcome l <;> rfl

theorem good_of_eq_ok (h : Settled good bad outcome) {l : Location} {a : α}
    (hok : outcome l = .ok a) : good a := by
  cases h with
  | success b hgood h =>
    rw [h l] at hok
    cases hok
    exact hgood
  | failure h =>
    obtain ⟨e, he, -⟩ := h l
    rw [he] at hok
    cases hok

theorem eq_ok (h : Settled good bad outcome) {l : Location} {a : α} (hok : outcome l = .ok a)
    (l' : Location) : outcome l' = .ok a := by
  cases h with
  | success b hgood h =>
    rw [h l] at hok
    cases hok
    exact h l'
  | failure h =>
    obtain ⟨e, he, -⟩ := h l
    rw [he] at hok
    cases hok

theorem bad_of_eq_fault (h : Settled good bad outcome) {l : Location} {f : Fault}
    (hfault : outcome l = .error (.fault f)) : bad f := by
  cases h with
  | success b hgood h =>
    rw [h l] at hfault
    cases hfault
  | failure h =>
    obtain ⟨e, he, hbad⟩ := h l
    rw [he] at hfault
    cases hfault
    exact hbad f rfl

end Settled

/-! ## Nodes -/

section
variable {p : Json → Prop} {bad : Fault → Prop} {description : Json} {note : Note}

theorem described_describedBy {node : SchemaNode} (hdescription : p description)
    (h : node.Described p) : (describedBy description node).Described p := by
  unfold describedBy
  split
  · exact h
  · exact described_withDescription hdescription h

theorem described_spliceUnion {node : SchemaNode} (h : node.Described p) :
    ∀ member ∈ spliceUnion node, member.Described p := by
  unfold spliceUnion
  split
  · exact (everywhere_union.mp h).2
  · exact List.forall_mem_singleton.mpr h

theorem described_unionOf {alternatives : List SchemaNode} (hdescription : p description)
    (h : ∀ node ∈ alternatives, node.Described p) :
    (unionOf alternatives description).Described p := by
  have hall : ∀ member ∈ alternatives.flatMap spliceUnion, member.Described p := by
    rw [List.forall_mem_flatMap]
    exact fun node hnode => described_spliceUnion (h node hnode)
  unfold unionOf
  split
  · next only heq => exact described_describedBy hdescription (hall only (by simp [heq]))
  · exact everywhere_union.mpr ⟨hdescription, hall⟩

theorem settled_literalNode (value : Json) (hdescription : p description) :
    Settled (Described p) bad fun l => literalNode value l description := by
  unfold literalNode
  split
  · exact .ok (everywhere_null.mpr hdescription)
  · exact .refuse _ id
  · exact .refuse _ id
  · exact .ok (everywhere_literal.mpr hdescription)

theorem settled_literalNodes (hnull : p .null) (index : Nat) (values : List Json) :
    Settled (fun nodes => ∀ node ∈ nodes, node.Described p) bad
      fun l => literalNodes l index values := by
  induction values generalizing index with
  | nil => exact .ok (by simp)
  | cons value rest ih =>
    refine .congr (((settled_literalNode value hnull).at_place (·.item index)).bind
      fun node hnode => (ih (index + 1)).map fun more hmore =>
        List.forall_mem_cons.mpr ⟨hnode, hmore⟩) fun l => ?_
    rw [literalNodes]
    cases literalNode value (l.item index) <;> rfl

theorem settled_enumNode (hnull : p .null) (values : Json) (hdescription : p description) :
    Settled (Described p) bad fun l => enumNode values l description := by
  unfold enumNode
  split
  · next first rest =>
    have hliterals : Settled (fun nodes => ∀ node ∈ nodes, node.Described p) bad
        fun l => literalNodes (l.child "enum") 0 (first :: rest) :=
      (settled_literalNodes hnull 0 (first :: rest)).at_place (·.child "enum")
    cases hliterals with
    | success nodes hnodes h =>
      simp only [h]
      split
      · next heq => cases heq
      · exact .ok (everywhere_literal.mpr hdescription)
      · next heq =>
        cases heq
        exact .ok (everywhere_union.mpr ⟨hdescription, hnodes⟩)
    | failure h =>
      refine .failure fun l => ?_
      obtain ⟨e, he, hbad⟩ := h l
      exact ⟨e, by rw [he], hbad⟩
  · exact .refuse _ (·.child "enum")

theorem settled_mergeObjects (index : Nat) {fields : List (Member SchemaNode)} (isOpen : Bool)
    {nodes : List SchemaNode} (hfields : ∀ field ∈ fields, field.type.Described p)
    (hnodes : ∀ node ∈ nodes, node.Described p) :
    Settled (fun merged => ∀ field ∈ merged.1, field.type.Described p) bad
      fun l => mergeObjects l index fields isOpen nodes := by
  induction nodes generalizing index fields isOpen with
  | nil => exact .ok hfields
  | cons node rest ih =>
    rw [List.forall_mem_cons] at hnodes
    cases node with
    | object more moreOpen note =>
      exact ih (index + 1) (isOpen || moreOpen)
        (forall_type_foldl_mergeField hfields (everywhere_object.mp hnodes.1).2) hnodes.2
    | _ => exact .refuse _ (·.item index)

theorem settled_intersectionOf {nodes : List SchemaNode} (hdescription : p description)
    (hnodes : ∀ node ∈ nodes, node.Described p) :
    Settled (Described p) bad fun l => intersectionOf nodes l description := by
  unfold intersectionOf
  split
  · next only =>
    exact .ok (described_describedBy hdescription (List.forall_mem_singleton.mp hnodes))
  · exact ((settled_mergeObjects 0 false (by simp) hnodes).at_place (·.child "allOf")).map
      fun merged hmerged => everywhere_object.mpr ⟨hdescription, hmerged⟩

theorem settled_primitiveNode {type : Json} (hnote : p note.description)
    (hbad : type.isScalar = false → bad .unfitOperand) :
    Settled (Described p) bad fun l => primitiveNode type note l := by
  unfold primitiveNode
  split
  · next name =>
    split
    · next make hmake =>
      have hmarked : p (markedNote name note).description := by simpa using hnote
      refine .ok ?_
      rcases primitive?_cases hmake with ⟨kind, rfl⟩ | rfl
      · exact everywhere_primitive.mpr hmarked
      · exact everywhere_null.mpr hmarked
    · exact .refuse _ (·.child "type")
  · exact .fault (hbad rfl)
  · exact .fault (hbad rfl)
  · exact .refuse _ (·.child "type")

theorem settled_primitiveNodes {types : List Json} (hnote : p note.description)
    (hbad : types.all Json.isScalar = false → bad .unfitOperand) :
    Settled (fun nodes => ∀ node ∈ nodes, node.Described p) bad
      fun l => primitiveNodes note l types := by
  induction types with
  | nil => exact .ok (by simp)
  | cons type rest ih =>
    have hfirst : type.isScalar = false → bad .unfitOperand := fun h => hbad (by simp [h])
    have hrest : rest.all Json.isScalar = false → bad .unfitOperand := fun h => hbad (by simp [h])
    refine .congr ((settled_primitiveNode hnote hfirst).bind fun node hnode =>
      (ih hrest).map fun more hmore => List.forall_mem_cons.mpr ⟨hnode, hmore⟩) fun l => ?_
    rw [primitiveNodes]
    cases primitiveNode type note l <;> rfl

end

/-! ## Plans -/

/-- What a plan keeps to: its parts are below a size; with described nodes for them it gives
described nodes, at all locations alike; and its faults are bad. -/
inductive Plan.Suits (p : Json → Prop) (bad : Fault → Prop) (bound : Nat) : Plan → Prop where
  | failure {error : Location → ConversionError} (h : ∀ l f, error l = .fault f → bad f) :
      Suits p bad bound (.failure error)
  | reference {r : Json} {finish : SchemaNode → SchemaNode}
      (h : ∀ node, node.Described p → (finish node).Described p) :
      Suits p bad bound (.reference r finish)
  | parts {ps : List (Json × List String)} {build : Location → List SchemaNode → Result}
      (hsize : ∀ part ∈ ps, sizeOf part.1 < bound)
      (hbuild : ∀ nodes, (∀ node ∈ nodes, node.Described p) →
        Settled (Described p) bad fun l => build l nodes) :
      Suits p bad bound (.parts ps build)

namespace Plan.Suits

variable {p : Json → Prop} {bad : Fault → Prop} {bound : Nat}

theorem refusal (cause : Unsupported) (steps : List String) :
    (Plan.refusal cause steps).Suits p bad bound :=
  .failure fun _ _ h => by cases h

theorem fault {f : Fault} (hbad : bad f) : (Plan.failure fun _ => .fault f).Suits p bad bound :=
  .failure fun _ _ h => by cases h; exact hbad

theorem plain {result : Location → Result} (h : Settled (Described p) bad result) :
    (Plan.plain result).Suits p bad bound :=
  .parts (by simp) fun _ _ => h

theorem sole {schema : Json} {steps : List String} {make : SchemaNode → SchemaNode}
    (hsize : sizeOf schema < bound) (hnull : p .null)
    (hmake : ∀ node, node.Described p → (make node).Described p) :
    (Plan.sole schema steps make).Suits p bad bound := by
  refine .parts (by simpa using hsize) fun nodes hnodes => .ok (hmake _ ?_)
  cases nodes with
  | nil => exact everywhere_any.mpr hnull
  | cons node rest => exact hnodes node List.mem_cons_self

theorem map {plan : Plan} (h : plan.Suits p bad bound) {f : SchemaNode → SchemaNode}
    (hf : ∀ node, node.Described p → (f node).Described p) : (plan.map f).Suits p bad bound := by
  cases h with
  | failure h => exact .failure h
  | reference h => exact .reference fun node hnode => hf _ (h node hnode)
  | parts hsize hbuild => exact .parts hsize fun nodes hnodes => (hbuild nodes hnodes).map hf

theorem mono {plan : Plan} (h : plan.Suits p bad bound) {bound' : Nat} (hle : bound ≤ bound') :
    plan.Suits p bad bound' := by
  cases h with
  | failure h => exact .failure h
  | reference h => exact .reference h
  | parts hsize hbuild =>
    exact .parts (fun part hpart => Nat.lt_of_lt_of_le (hsize part hpart) hle) hbuild

end Plan.Suits

/-- What a plan builds of described parts is settled. -/
theorem settled_of_planOf {p : Json → Prop} {bad : Fault → Prop} {bound : Nat} {schema : Json}
    {ps : List (Json × List String)} {build : Location → List SchemaNode → Result}
    (hplan : planOf schema = .parts ps build) (hsuits : (planOf schema).Suits p bad bound)
    (nodes : List SchemaNode) (hnodes : ∀ node ∈ nodes, node.Described p) :
    Settled (Described p) bad fun l => build l nodes := by
  rw [hplan] at hsuits
  cases hsuits with
  | parts _ hbuild => exact hbuild nodes hnodes

theorem sizeOf_lt_of_mem_listed {keyword : String} {index : Nat} {schemas : List Json}
    {part : Json × List String} (h : part ∈ listed keyword index schemas) :
    sizeOf part.1 < sizeOf schemas := by
  induction schemas generalizing index with
  | nil => cases h
  | cons schema rest ih =>
    have hsize : sizeOf (schema :: rest) = 1 + sizeOf schema + sizeOf rest := rfl
    rcases List.mem_cons.mp h with rfl | hmem
    · dsimp only
      omega
    · have hlt := ih hmem
      omega

section
variable {p : Json → Prop} {bad : Fault → Prop} {schema : Entries Json} {note : Note}

theorem suits_planOfList {keyword : String} {schemas : Json}
    (hschemas : schema.get? keyword = some schemas)
    {build : Location → List SchemaNode → Result}
    (hbuild : ∀ nodes, (∀ node ∈ nodes, node.Described p) →
      Settled (Described p) bad fun l => build l nodes) :
    (planOfList keyword schemas build).Suits p bad (sizeOf schema) := by
  have hsize := Entries.sizeOf_lt_of_get? hschemas
  unfold planOfList
  split
  · next first rest =>
    refine .parts (fun part hpart => ?_) hbuild
    have hlt := sizeOf_lt_of_mem_listed hpart
    simp only [Json.arr.sizeOf_spec] at hsize
    omega
  · exact .refusal _ _

theorem described_fieldsOf {required : List String} {properties : Entries Json}
    {types : List SchemaNode} (h : ∀ type ∈ types, type.Described p) :
    ∀ field ∈ fieldsOf required properties types, field.type.Described p := by
  intro field hfield
  obtain ⟨⟨property, type⟩, hmem, rfl⟩ := List.mem_map.mp hfield
  exact h type (List.of_mem_zip hmem).2

theorem suits_planOfObject (hnull : p .null) (hnote : p note.description)
    (hbad : ∀ f, Misused (.obj schema) f → bad f) :
    (planOfObject schema note).Suits p bad (sizeOf schema) := by
  unfold planOfObject
  split
  · next e hrequired => exact .fault (hbad e (.required hrequired))
  · split
    · next hsome =>
      split
      · next properties hproperties =>
        have hsize := Entries.sizeOf_lt_of_get? hproperties
        simp only [Json.obj.sizeOf_spec] at hsize
        refine .parts (fun part hpart => ?_) fun nodes hnodes =>
          .ok (everywhere_object.mpr ⟨hnote, described_fieldsOf hnodes⟩)
        obtain ⟨property, hproperty, rfl⟩ := List.mem_map.mp hpart
        have hlt := List.sizeOf_lt_of_mem hproperty
        obtain ⟨name, type⟩ := property
        simp only [Prod.mk.sizeOf_spec] at hlt ⊢
        omega
      · next hnot => exact .fault (hbad _ (.properties hsome hnot))
    · split
      · exact .plain (.ok (everywhere_object.mpr ⟨hnote, by simp⟩))
      · next first rest hadditional =>
        exact .sole (Entries.sizeOf_lt_of_get? hadditional) hnull fun node hnode =>
          everywhere_record.mpr ⟨hnote, hnode⟩
      · exact .plain (.ok (everywhere_record.mpr ⟨hnote, everywhere_any.mpr hnull⟩))

theorem suits_planOfArray (hnull : p .null) (hnote : p note.description) :
    (planOfArray schema note).Suits p bad (sizeOf schema) := by
  unfold planOfArray
  split
  · exact .plain (.ok (everywhere_array.mpr ⟨hnote, everywhere_any.mpr hnull⟩))
  · exact .plain (.ok (everywhere_array.mpr ⟨hnote, everywhere_any.mpr hnull⟩))
  · exact .refusal _ _
  · next items _ _ hitems =>
    exact .sole (Entries.sizeOf_lt_of_get? hitems) hnull fun node hnode =>
      everywhere_array.mpr ⟨hnote, hnode⟩

theorem suits_planOfTyped {type description : Json} (hnull : p .null) (hdescription : p description)
    (hbad : ∀ f, Misused (.obj schema) f → bad f)
    (htype : isReadableType type = false → bad .unfitOperand) :
    (planOfTyped schema type description).Suits p bad (sizeOf schema) := by
  -- Along the lists of one type, like the plan itself.
  induction hsize : sizeOf type using Nat.strongRecOn generalizing type with
  | ind size ih =>
    rw [planOfTyped.eq_def]
    dsimp only
    split
    · split
      · exact suits_planOfObject hnull hdescription hbad
      · split
        · exact suits_planOfArray hnull hdescription
        · exact .plain (.ok (everywhere_any.mpr hdescription))
    · exact .refusal _ _
    · next only =>
      refine ih (sizeOf only) ?_ (fun h => htype (by rw [isReadableType]; exact h)) rfl
      rw [← hsize]
      simp
      omega
    · next types hnil hone =>
      split
      · -- A structured name may stand beside `null` alone, and null is let in then.
        split
        · exact .refusal _ _
        · split
          · exact (suits_planOfObject hnull hdescription hbad).map fun _ => described_withNull hnull
          · exact (suits_planOfArray hnull hdescription).map fun _ => described_withNull hnull
      · next hfind =>
        -- Without a structured name, all members are looked up.
        refine .plain ((settled_primitiveNodes hnull fun h => htype ?_).map fun members hmembers =>
          everywhere_union.mpr ⟨hdescription, hmembers⟩)
        rw [isReadableType.eq_3 _ hone, h, Bool.or_false, List.any_eq_false]
        exact List.find?_eq_none.mp hfind
    · exact suits_planOfObject hnull hdescription hbad
    · exact suits_planOfArray hnull hdescription
    · next hlist _ _ =>
      refine .plain (settled_primitiveNode hdescription fun h => htype ?_)
      cases type with
      | obj entries => rw [isReadableType]
      | arr types => exact absurd rfl (hlist types)
      | _ => cases h

theorem suits_planOfEntries (hnull : p .null) (hdescription : p (schema.field "description"))
    (hbad : ∀ f, Misused (.obj schema) f → bad f) :
    (planOfEntries schema).Suits p bad (sizeOf schema) := by
  unfold planOfEntries
  dsimp only
  split
  · next value _ =>
    exact .plain ((settled_literalNode value hdescription).at_place (·.child "const"))
  · split
    · next values _ => exact .plain (settled_enumNode hnull values hdescription)
    · split
      · next hoptions =>
        exact suits_planOfList hoptions fun _ hnodes =>
          .ok (described_unionOf hdescription hnodes)
      · split
        · next hoptions =>
          exact suits_planOfList hoptions fun _ hnodes =>
            .ok (described_unionOf hdescription hnodes)
        · split
          · next hschemas =>
            exact suits_planOfList hschemas fun _ hnodes =>
              settled_intersectionOf hdescription hnodes
          · exact suits_planOfTyped hnull hdescription hbad fun h => hbad _ (.type h)

theorem suits_planOfReference (hnull : p .null) (hdescription : p (schema.field "description"))
    (hbad : ∀ f, Misused (.obj schema) f → bad f) :
    (planOfReference schema).Suits p bad (sizeOf schema) := by
  unfold planOfReference
  split
  · refine .reference fun node hnode => ?_
    split
    · next description hget =>
      rw [Entries.field, hget] at hdescription
      exact described_withDescription hdescription hnode
    · exact hnode
  · exact suits_planOfEntries hnull hdescription hbad

/-- Every plan of a schema keeps to what is said of the schema's own description and of its misused
keywords. -/
theorem suits_planOf {schema : Json} (hnull : p .null) (hdescription : p (descriptionOf schema))
    (hbad : ∀ f, Misused schema f → bad f) : (planOf schema).Suits p bad (sizeOf schema) := by
  unfold planOf
  split
  · exact .plain (.ok (everywhere_any.mpr hnull))
  · exact .refusal _ _
  · next entries =>
    split
    · exact .refusal _ _
    · refine ((suits_planOfReference hnull hdescription hbad).map fun node hnode => ?_).mono ?_
      · unfold withNullable
        split
        · exact described_withNull hnull hnode
        · exact hnode
      · simp only [Json.obj.sizeOf_spec]
        omega
  · exact .refusal _ _

/-- What every plan keeps to, whatever is asked of descriptions and faults. -/
theorem suits_planOf_any (schema : Json) :
    (planOf schema).Suits (fun _ => True) (fun _ => True) (sizeOf schema) :=
  suits_planOf trivial trivial fun _ _ => trivial

end

end Schema
end SchemaTypings
