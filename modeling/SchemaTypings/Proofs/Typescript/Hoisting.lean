/-
  SchemaTypings.Proofs.Typescript.Hoisting

  What is written for a node stands for the type of the node.

  `Hoists` is what is carried through the recursion: which names are used up, that all declarations
  made on the way can be read and use declared names only, and what the result stands for.  There is
  one lemma for each way in which results are put together; the recursion over nodes only picks the
  one for its case.
-/
import SchemaTypings.Proofs.Schema.Subnode
import SchemaTypings.Proofs.Typescript.Meaning

namespace SchemaTypings.Typescript

open Naming (Sanitizer)

/-- Whether all expressions in declarations can be read and use declared names only. -/
def IsClosedList (ds : List Declaration) : Prop :=
  ∀ d ∈ ds, ∀ t ∈ d.body.types,
    t.IsReadable ∧ ∀ name ∈ t.names, name ∈ ds.map Declaration.name

theorem IsClosedList.append {ds ds' : List Declaration} (h : IsClosedList ds)
    (h' : IsClosedList ds') : IsClosedList (ds ++ ds') := by
  intro d hd t ht
  rw [List.map_append]
  rcases List.mem_append.mp hd with hd | hd
  · exact ⟨(h d hd t ht).1, fun name hname => List.mem_append_left _ ((h d hd t ht).2 name hname)⟩
  · exact ⟨(h' d hd t ht).1,
      fun name hname => List.mem_append_right _ ((h' d hd t ht).2 name hname)⟩

/-! ## Putting together -/

/-- What declaring does from the names given: it hands out new names to its declarations, which are
closed among themselves, and gives a result in the relation to them. -/
structure Hoists {α : Type} (r : List Declaration → α → Prop) (names : Sanitizer) (h : Hoisted α) :
    Prop where
  vocabulary : h.names.vocabulary = Typescript.vocabulary
  used : h.names.used = (h.declarations.map Declaration.name).reverse ++ names.used
  nodup : names.used.Nodup → h.names.used.Nodup
  closed : IsClosedList h.declarations
  result : r h.declarations h.result

section
variable {α β : Type} {r : List Declaration → α → Prop} {q s : List Declaration → β → Prop}
  {names : Sanitizer}

theorem hoists_plain (hv : names.vocabulary = Typescript.vocabulary) {a : α} (ha : r [] a) :
    Hoists r names (.plain a names) where
  vocabulary := hv
  used := rfl
  nodup := id
  closed := by
    intro d hd
    cases hd
  result := ha

theorem Hoists.map {h : Hoisted α} (hh : Hoists r names h) {f : α → β}
    (hf : ∀ ds a, r ds a → s ds (f a)) : Hoists s names (h.map f) where
  vocabulary := hh.vocabulary
  used := hh.used
  nodup := hh.nodup
  closed := hh.closed
  result := hf _ _ hh.result

theorem Hoists.andThen {h : Hoisted α} (hh : Hoists r names h) {f : α → Sanitizer → Hoisted β}
    (hnext : Hoists q h.names (f h.result h.names))
    (hf : ∀ ds ds' b, r ds h.result → q ds' b → s (ds ++ ds') b) :
    Hoists s names (h.andThen f) where
  vocabulary := hnext.vocabulary
  used := by
    rw [Hoisted.andThen]
    dsimp only
    rw [hnext.used, hh.used, List.map_append, List.reverse_append, List.append_assoc]
  nodup hnodup := hnext.nodup (hh.nodup hnodup)
  closed := hh.closed.append hnext.closed
  result := hf _ _ _ hh.result hnext.result

/-- One more result in front of others; what holds of a result still does beside more
declarations. -/
theorem Hoists.cons {γ : Type} {q : List Declaration → β → γ → Prop} {c : γ} {cs : List γ}
    {h : Hoisted α} (hh : Hoists r names h) {more : Sanitizer → Hoisted (List β)}
    (hmore : Hoists (fun ds bs => List.Forall₂ (q ds) bs cs) h.names (more h.names)) {f : α → β}
    (hf : ∀ ds a, r ds a → q ds (f a) c)
    (hmono : ∀ ds ds' b c, q ds b c → ds.Sublist ds' → q ds' b c) :
    Hoists (fun ds bs => List.Forall₂ (q ds) bs (c :: cs)) names
      (h.andThen fun a names => (more names).map (f a :: ·)) := by
  have hnext := hmore.map (f := (f h.result :: ·))
    (s := fun ds bs => ∃ rest, bs = f h.result :: rest ∧ List.Forall₂ (q ds) rest cs)
    fun ds bs hbs => ⟨bs, rfl, hbs⟩
  refine hh.andThen hnext ?_
  rintro ds ds' _ ha ⟨rest, rfl, hrest⟩
  refine .cons (hmono _ _ _ _ (hf ds _ ha) (List.sublist_append_left ds ds')) ?_
  exact hrest.imp fun b c hb => hmono _ _ _ _ hb (List.sublist_append_right ds ds')

/-- A declared name stands for what the body of its declaration stands for. -/
theorem Hoists.declare (hv : names.vocabulary = Typescript.vocabulary) {hint : String}
    {body : Hoisted DeclarationBody} {shape : Shape}
    (h : Hoists (DenotesBody · · shape) (names.claim hint).2 body) :
    Hoists (Denotes · · shape) names (body.declare (names.claim hint).1) where
  vocabulary := h.vocabulary
  used := by
    rw [Hoisted.declare]
    dsimp only
    rw [h.used, List.map_cons, List.reverse_cons, List.append_assoc]
    rfl
  nodup hnodup := h.nodup (List.nodup_cons.mpr ⟨Naming.firstFree_not_mem _ _, hnodup⟩)
  closed := by
    intro d hd t ht
    rcases List.mem_cons.mp hd with rfl | hd
    · exact ⟨h.result.isReadable t ht,
        fun name hname => List.mem_cons_of_mem _ (h.result.declared t ht name hname)⟩
    · exact ⟨(h.closed d hd t ht).1,
        fun name hname => List.mem_cons_of_mem _ ((h.closed d hd t ht).2 name hname)⟩
  result := by
    refine ⟨isTypeName_claim hv hint, ?_, ?_⟩
    · intro name hname
      rw [List.mem_singleton.mp hname]
      exact List.mem_cons_self
    · intro env steps hcovers hsteps
      -- the new name takes one step to unfold, which leaves enough of them for its body
      cases steps with
      | zero => cases hsteps
      | succ steps =>
        obtain ⟨hname, hrest⟩ := List.forall_mem_cons.mp hcovers
        obtain ⟨s, hs, hsame⟩ :=
          h.result.exists_unfold env steps hrest (Nat.le_of_succ_le_succ hsteps)
        refine ⟨s, ?_, hsame⟩
        have hlook : env.unfoldName (steps + 1) (names.claim hint).1 =
            body.result.read.unfold (env.unfoldName steps) := by
          rw [Environment.unfoldName, hname]
        exact hlook.trans hs

end

/-! ## Nodes -/

/-- Whether a literal is one that can be read. -/
def HasReadableLiteral : SchemaNode → Prop
  | .literal value _ => isReadableLiteral value = true
  | _ => True

/-- Whether a node can be written so that it can be read. -/
def IsRenderable (node : SchemaNode) : Prop :=
  node.Everywhere SchemaNode.HasMembers ∧ node.Everywhere HasReadableLiteral

section
open SchemaNode

variable {note : Note}

theorem isRenderable_object {fields : List (Member SchemaNode)} {isOpen : Bool}
    (h : IsRenderable (.object fields isOpen note)) : ∀ field ∈ fields, IsRenderable field.type :=
  fun field hfield => ⟨(everywhere_object.mp h.1).2 field hfield,
    (everywhere_object.mp h.2).2 field hfield⟩

theorem isRenderable_array {items : SchemaNode} (h : IsRenderable (.array items note)) :
    IsRenderable items :=
  ⟨(everywhere_array.mp h.1).2, (everywhere_array.mp h.2).2⟩

theorem isRenderable_record {values : SchemaNode} (h : IsRenderable (.record values note)) :
    IsRenderable values :=
  ⟨(everywhere_record.mp h.1).2, (everywhere_record.mp h.2).2⟩

theorem isRenderable_union {members : List SchemaNode} (h : IsRenderable (.union members note)) :
    members ≠ [] ∧ ∀ member ∈ members, IsRenderable member :=
  ⟨(everywhere_union.mp h.1).1, fun member hmember =>
    ⟨(everywhere_union.mp h.1).2 member hmember, (everywhere_union.mp h.2).2 member hmember⟩⟩

end

/-- The type of a node as it is read. -/
abbrev shapeAsRead (node : SchemaNode) : Shape := shapeWith fieldNameAsRead node

mutual
/-- The expression for a node stands for the type of the node. -/
theorem hoists_refer (node : SchemaNode) (hint : String) (names : Sanitizer)
    (hv : names.vocabulary = vocabulary) (hnode : IsRenderable node) :
    Hoists (Denotes · · (shapeAsRead node)) names (refer node hint names) := by
  match node with
  | .object fields isOpen note =>
    by_cases hempty : fields = [] ∧ isOpen = false
    · obtain ⟨rfl, rfl⟩ := hempty
      rw [refer]
      exact hoists_plain hv (denotes_singleton trivial rfl fun _ => rfl)
    · rw [refer]
      · have hfields := hoists_referFields fields (names.claim hint).1 (names.claim hint).2 hv
          (isRenderable_object hnode)
        exact Hoists.declare hv (hfields.map fun ds ps hps => denotesBody_interface isOpen hps)
      · rintro rfl rfl
        exact hempty ⟨rfl, rfl⟩
  | .union members note =>
    obtain ⟨hne, hmembers⟩ := isRenderable_union hnode
    rw [refer]
    split
    · next only honly =>
      have hmem := mem_of_nullableMember? honly
      have hlt := sizeOf_lt_of_nullableMember? honly
      exact (hoists_refer only hint names hv (hmembers only hmem)).map fun ds t ht => ht.nullable honly
    · split
      · have hparts := hoists_referMembers members (names.claim hint).1 1 (names.claim hint).2 hv
          hmembers
        exact Hoists.declare hv (hparts.map fun ds ts hts => (Denotes.union hne hts).alias)
      · exact (hoists_referMembers members hint 1 names hv hmembers).map
          fun ds ts hts => Denotes.union hne hts
  | .array items note =>
    have hitems := isRenderable_array hnode
    rw [refer]
    split
    · exact Hoists.declare hv ((hoists_refer items _ (names.claim hint).2 hv hitems).map
        fun ds t ht => ht.array.alias)
    · exact (hoists_refer items _ names hv hitems).map fun ds t ht => ht.array
  | .record values note =>
    have hvalues := isRenderable_record hnode
    rw [refer]
    split
    · exact Hoists.declare hv ((hoists_refer values _ (names.claim hint).2 hv hvalues).map
        fun ds t ht => ht.record.alias)
    · exact (hoists_refer values _ names hv hvalues).map fun ds t ht => ht.record
  | .any note =>
    rw [refer]
    exact hoists_plain hv (denotes_singleton trivial rfl fun _ => rfl)
  | .null note =>
    rw [refer]
    exact hoists_plain hv (denotes_singleton trivial rfl fun _ => rfl)
  | .primitive kind note =>
    rw [refer]
    exact hoists_plain hv (denotes_singleton trivial rfl fun _ => rfl)
  | .literal value note =>
    rw [refer]
    refine hoists_plain hv (denotes_singleton ?_ rfl fun _ => rfl)
    exact SchemaNode.everywhere_literal.mp hnode.2
termination_by sizeOf node

theorem hoists_referFields (fields : List (Member SchemaNode)) (parent : String) (names : Sanitizer)
    (hv : names.vocabulary = vocabulary) (hfields : ∀ field ∈ fields, IsRenderable field.type) :
    Hoists (fun ds ps => List.Forall₂ (DenotesField ds) ps fields) names
      (referFields fields parent names) := by
  match fields with
  | [] =>
    rw [referFields]
    exact hoists_plain hv .nil
  | ⟨name, optional, node⟩ :: rest =>
    rw [List.forall_mem_cons] at hfields
    have hnode := hoists_refer node (fieldHint parent name) names hv hfields.1
    have hrest := hoists_referFields rest parent _ hnode.vocabulary hfields.2
    rw [referFields]
    exact hnode.cons hrest (fun ds t ht => ⟨rfl, rfl, ht⟩) fun _ _ _ _ hp hsub => hp.of_sublist hsub
termination_by sizeOf fields

theorem hoists_referMembers (members : List SchemaNode) (name : String) (number : Nat)
    (names : Sanitizer) (hv : names.vocabulary = vocabulary)
    (hmembers : ∀ member ∈ members, IsRenderable member) :
    Hoists (fun ds ts => List.Forall₂ (fun t node => Denotes ds t (shapeAsRead node)) ts members)
      names (referMembers members name number names) := by
  match members with
  | [] =>
    rw [referMembers]
    exact hoists_plain hv .nil
  | member :: rest =>
    rw [List.forall_mem_cons] at hmembers
    have hmember := hoists_refer member (Naming.numbered name number) names hv hmembers.1
    have hrest := hoists_referMembers rest name (number + 1) _ hmember.vocabulary hmembers.2
    rw [referMembers]
    exact hmember.cons hrest (f := id) (fun ds t ht => ht) fun _ _ _ _ ht hsub => ht.of_sublist hsub
termination_by sizeOf members
end

/-- The body of a node's own declaration stands for the type of the node. -/
theorem hoists_bodyOf (node : SchemaNode) (name : String) (names : Sanitizer)
    (hv : names.vocabulary = vocabulary) (hnode : IsRenderable node) :
    Hoists (DenotesBody · · (shapeAsRead node)) names (bodyOf node name names) := by
  have hplain : ∀ {t : TypeExpr} {v : Variant}, t.IsReadable → t.names = [] →
      (∀ look, t.unfold look = some [v]) →
      Hoists (DenotesBody · · [v]) names (.plain (.alias t) names) :=
    fun hreadable hnames hunfold =>
      hoists_plain hv (denotes_singleton hreadable hnames hunfold).alias
  cases node with
  | object fields isOpen note =>
    rw [bodyOf]
    exact (hoists_referFields fields name names hv (isRenderable_object hnode)).map
      fun ds ps hps => denotesBody_interface isOpen hps
  | union members note =>
    obtain ⟨hne, hmembers⟩ := isRenderable_union hnode
    rw [bodyOf]
    exact (hoists_referMembers members name 1 names hv hmembers).map
      fun ds ts hts => (Denotes.union hne hts).alias
  | array items note =>
    rw [bodyOf]
    exact (hoists_refer items _ names hv (isRenderable_array hnode)).map
      fun ds t ht => ht.array.alias
  | record values note =>
    rw [bodyOf]
    exact (hoists_refer values _ names hv (isRenderable_record hnode)).map
      fun ds t ht => ht.record.alias
  | literal value note =>
    exact hplain (SchemaNode.everywhere_literal.mp hnode.2) rfl fun _ => rfl
  | _ => exact hplain trivial rfl fun _ => rfl

/-- The declarations for a node have names of their own, are closed, and the first name stands for
the type of the node. -/
theorem declarations_spec (node : SchemaNode) (name : String) (hnode : IsRenderable node) :
    ((declarations node name).map Declaration.name).Nodup ∧ IsClosedList (declarations node name) ∧
      ∃ first rest, declarations node name = first :: rest ∧
        Denotes (declarations node name) (.named first.name) (shapeAsRead node) := by
  have hbody := hoists_bodyOf node (sanitizer.claim name).1 (sanitizer.claim name).2 rfl hnode
  have hhoists : Hoists (Denotes · · (shapeAsRead node)) sanitizer
      ((bodyOf node (sanitizer.claim name).1 (sanitizer.claim name).2).declare
        (sanitizer.claim name).1) := Hoists.declare rfl hbody
  have hnodup := hhoists.nodup List.nodup_nil
  rw [hhoists.used, List.nodup_append] at hnodup
  exact ⟨List.nodup_reverse.mp hnodup.1, hhoists.closed, _, _, rfl, hhoists.result⟩

end SchemaTypings.Typescript
