/-
  SchemaTypings.Proofs.Typescript.References

  Declarations form a tree, parents first: every declared name but the first one is mentioned once
  in all their types together, and that is in front of its declaration.

  `Tree` says so of some expressions and the declarations made for them, and is kept when
  expressions are put side by side and when they become the body of a declaration.  Members of a
  union whose text is that of another one are dropped; they use no name, as none is used twice.
-/
import SchemaTypings.Proofs.Typescript.HandedOut
import SchemaTypings.Proofs.Typescript.Hoisting
import SchemaTypings.Proofs.Typescript.Slots

namespace SchemaTypings.Typescript

open Naming (Sanitizer IsName)

/-! ## Lists of expressions -/

namespace TypeExpr

variable {ts : List TypeExpr}

theorem allLegible_iff : AllLegible ts ↔ ∀ t ∈ ts, t.IsLegible := by
  induction ts with
  | nil => simp [AllLegible]
  | cons t rest ih => rw [AllLegible, ih, List.forall_mem_cons]

theorem count_flatMap_mentions (h : ∀ t ∈ ts, t.IsLegible) {name : String}
    (hname : IsDistinct name) :
    (ts.flatMap mentions).count name = (namesOfAll ts).count name := by
  induction ts with
  | nil => rfl
  | cons t rest ih =>
    rw [List.forall_mem_cons] at h
    rw [List.flatMap_cons, List.count_append, count_mentions h.1 hname, ih h.2, namesOfAll,
      List.count_append]

/-- If no name is used twice, an expression that is dropped for its text uses none. -/
theorem namesOfAll_dedupe (h : ∀ t ∈ ts, t.IsLegible) (hnodup : (namesOfAll ts).Nodup) :
    namesOfAll (dedupe ts) = namesOfAll ts := by
  -- The induction is on what is left; what is kept uses the names of all in front of that.
  have hkept : ∀ kept : List TypeExpr, (∀ t ∈ kept ++ ts, t.IsLegible) →
      (namesOfAll (kept ++ ts)).Nodup →
      namesOfAll (ts.foldl (fun kept t => if kept.any (·.chars = t.chars) then kept
        else kept ++ [t]) kept) = namesOfAll (kept ++ ts) := by
    clear h hnodup
    induction ts with
    | nil =>
      intro kept _ _
      rw [List.append_nil]
      rfl
    | cons t rest ih =>
      intro kept h hnodup
      rw [List.foldl_cons]
      split
      · next hdropped =>
        obtain ⟨u, hu, htext⟩ := List.any_eq_true.mp hdropped
        have hsame : u.names = t.names :=
          names_eq_of_chars_eq (h u (List.mem_append_left _ hu))
            (h t (List.mem_append_right _ List.mem_cons_self)) (of_decide_eq_true htext)
        have hnone : t.names = [] := by
          rw [namesOfAll_append, List.nodup_append] at hnodup
          rw [List.eq_nil_iff_forall_not_mem]
          intro name hname
          exact hnodup.2.2 name (mem_namesOfAll.mpr ⟨u, hu, hsame ▸ hname⟩) name
            (mem_namesOfAll.mpr ⟨t, List.mem_cons_self, hname⟩) rfl
        have hskip : namesOfAll (kept ++ t :: rest) = namesOfAll (kept ++ rest) := by
          rw [namesOfAll_append, namesOfAll, hnone, List.nil_append, ← namesOfAll_append]
        rw [hskip] at hnodup ⊢
        exact ih kept (fun v hv => h v (by
          rw [List.mem_append] at hv
          rw [List.mem_append, List.mem_cons]
          tauto)) hnodup
      · rw [List.append_cons kept t rest] at h hnodup ⊢
        exact ih (kept ++ [t]) h hnodup
  exact hkept [] h hnodup

end TypeExpr

/-! ## Trees -/

/-- The expressions in declarations. -/
def typesOf (ds : List Declaration) : List TypeExpr := ds.flatMap (·.body.types)

@[simp] theorem typesOf_cons (d : Declaration) (ds : List Declaration) :
    typesOf (d :: ds) = d.body.types ++ typesOf ds := rfl

@[simp] theorem typesOf_append (ds ds' : List Declaration) :
    typesOf (ds ++ ds') = typesOf ds ++ typesOf ds' := List.flatMap_append

/-- The words in all types of declarations, those in strings left out. -/
def mentionsIn (ds : List Declaration) : List String := (typesOf ds).flatMap TypeExpr.mentions

/-- Whether the name of each declaration is among those given or is used in front of it. -/
def UsedBefore : List String → List Declaration → Prop
  | _, [] => True
  | given, d :: rest =>
    d.name ∈ given ∧ UsedBefore (given ++ TypeExpr.namesOfAll d.body.types) rest

section
variable {given given' : List String} {ds ds' : List Declaration}

theorem UsedBefore.mono (h : UsedBefore given ds) (hsub : given ⊆ given') :
    UsedBefore given' ds := by
  induction ds generalizing given given' with
  | nil => trivial
  | cons d rest ih =>
    refine ⟨hsub h.1, ih h.2 ?_⟩
    exact List.append_subset.mpr ⟨List.subset_append_of_subset_left _ hsub,
      List.subset_append_right _ _⟩

theorem usedBefore_append : UsedBefore given (ds ++ ds') ↔
    UsedBefore given ds ∧ UsedBefore (given ++ TypeExpr.namesOfAll (typesOf ds)) ds' := by
  induction ds generalizing given with
  | nil => simp [UsedBefore, typesOf, TypeExpr.namesOfAll]
  | cons d rest ih =>
    rw [List.cons_append, UsedBefore, ih, UsedBefore, typesOf_cons, TypeExpr.namesOfAll_append,
      List.append_assoc, and_assoc]

end

/-- Whether declarations are made for expressions: each name that is used in any of them is the name
of one declaration, and is used once, in front of that. -/
structure Tree (ts : List TypeExpr) (ds : List Declaration) : Prop where
  legible : ∀ t ∈ ts ++ typesOf ds, t.IsLegible
  perm : List.Perm (TypeExpr.namesOfAll (ts ++ typesOf ds)) (ds.map Declaration.name)
  ordered : UsedBefore (TypeExpr.namesOfAll ts) ds

section
variable {ts ts' : List TypeExpr} {ds ds' : List Declaration}

/-- Other expressions that use the same names. -/
theorem Tree.congr (h : Tree ts ds) (hlegible : ∀ t ∈ ts', t.IsLegible)
    (hnames : TypeExpr.namesOfAll ts' = TypeExpr.namesOfAll ts) : Tree ts' ds where
  legible := by
    rw [List.forall_mem_append]
    exact ⟨hlegible, (List.forall_mem_append.mp h.legible).2⟩
  perm := by
    rw [TypeExpr.namesOfAll_append, hnames, ← TypeExpr.namesOfAll_append]
    exact h.perm
  ordered := by
    rw [hnames]
    exact h.ordered

/-- Expressions side by side, with the declarations of both. -/
theorem Tree.append (h : Tree ts ds) (h' : Tree ts' ds') : Tree (ts ++ ts') (ds ++ ds') where
  legible := by
    have hall := List.forall_mem_append.mp h.legible
    have hall' := List.forall_mem_append.mp h'.legible
    intro t ht
    simp only [typesOf_append, List.mem_append] at ht
    rcases ht with (ht | ht) | (ht | ht)
    · exact hall.1 t ht
    · exact hall'.1 t ht
    · exact hall.2 t ht
    · exact hall'.2 t ht
  perm := by
    have hboth := h.perm.append h'.perm
    simp only [typesOf_append, TypeExpr.namesOfAll_append, List.map_append, List.append_assoc]
      at hboth ⊢
    -- Beside each other, the names in the declarations of both are behind those in expressions.
    refine List.Perm.trans (List.Perm.append_left _ ?_) hboth
    rw [← List.append_assoc, ← List.append_assoc]
    exact List.perm_append_comm.append_right _
  ordered := by
    rw [usedBefore_append, TypeExpr.namesOfAll_append]
    exact ⟨h.ordered.mono (List.subset_append_left _ _),
      h'.ordered.mono fun _ hname => List.mem_append_left _ (List.mem_append_right _ hname)⟩

/-- Expressions become the body of a declaration, and its name is used in place of them. -/
theorem Tree.declare {name : String} {body : DeclarationBody} (h : Tree body.types ds)
    (hname : IsDistinct name) : Tree [.named name] (⟨name, body⟩ :: ds) where
  legible := List.forall_mem_cons.mpr ⟨hname, h.legible⟩
  perm := h.perm.cons name
  ordered := ⟨List.mem_singleton_self name, h.ordered.mono (List.subset_append_right _ _)⟩

/-- A declaration with others in front of it has a name that is mentioned once in those, and not
again. -/
theorem Tree.count_mentionsIn {root : TypeExpr} (h : Tree [root] ds)
    (hnodup : (ds.map Declaration.name).Nodup) {front back : List Declaration} {d : Declaration}
    (hds : ds = front ++ d :: back) (hroot : d.name ∉ root.names) (hname : IsDistinct d.name) :
    (mentionsIn front).count d.name = 1 ∧ (mentionsIn (d :: back)).count d.name = 0 := by
  subst hds
  have hlegible := h.legible
  rw [typesOf_append, List.forall_mem_append, List.forall_mem_append] at hlegible
  have hperm := h.perm
  rw [typesOf_append, TypeExpr.namesOfAll_append, TypeExpr.namesOfAll_append] at hperm
  have hroot' : (TypeExpr.namesOfAll [root]).count d.name = 0 :=
    List.count_eq_zero_of_not_mem (by simpa [TypeExpr.namesOfAll] using hroot)
  -- The name is used once in all.
  have hmem : d.name ∈ (front ++ d :: back).map Declaration.name :=
    List.mem_map_of_mem (List.mem_append_right _ List.mem_cons_self)
  have hone := List.count_eq_one_of_mem hnodup hmem
  rw [← hperm.count_eq, List.count_append, List.count_append, hroot'] at hone
  have hused := (usedBefore_append.mp h.ordered).2.1
  have hfront : 0 < (TypeExpr.namesOfAll (typesOf front)).count d.name := by
    rw [List.count_pos_iff]
    exact (List.mem_append.mp hused).resolve_left fun hmem => by simp_all [TypeExpr.namesOfAll]
  rw [mentionsIn, mentionsIn, TypeExpr.count_flatMap_mentions hlegible.2.1 hname,
    TypeExpr.count_flatMap_mentions hlegible.2.2 hname]
  omega

end

/-! ## Along a node -/

/-- A sanitizer of type names that has handed out no name twice. -/
structure IsReady (names : Sanitizer) : Prop where
  vocabulary : names.vocabulary = Typescript.vocabulary
  nodup : names.used.Nodup

theorem IsReady.claim {names : Sanitizer} (h : IsReady names) (hint : String) :
    IsReady (names.claim hint).2 :=
  ⟨h.vocabulary, List.nodup_cons.mpr ⟨Naming.firstFree_not_mem _ _, h.nodup⟩⟩

/-- What declaring does from the names given: it hands out new names to its declarations, and these
are a tree beneath the expressions of the result, if no number that is written is infinite. -/
structure Grows {α : Type} (finite : Prop) (types : α → List TypeExpr) (names : Sanitizer)
    (h : Hoisted α) : Prop where
  ready : IsReady h.names
  used : h.names.used = (h.declarations.map Declaration.name).reverse ++ names.used
  tree : finite → Tree (types h.result) h.declarations

section
variable {α β : Type} {finite : Prop} {types : α → List TypeExpr} {types' : β → List TypeExpr}
  {names : Sanitizer}

theorem grows_plain (hready : IsReady names) {a : α}
    (hlegible : finite → ∀ t ∈ types a, t.IsLegible) (hnames : TypeExpr.namesOfAll (types a) = []) :
    Grows finite types names (.plain a names) where
  ready := hready
  used := rfl
  tree hfinite := {
    legible := by
      rw [Hoisted.plain, typesOf, List.flatMap_nil, List.append_nil]
      exact hlegible hfinite
    perm := by
      rw [Hoisted.plain, typesOf, List.flatMap_nil, List.append_nil, hnames]
      rfl
    ordered := trivial }

/-- The names of the declarations are different. -/
theorem Grows.nodup {h : Hoisted α} (hh : Grows finite types names h) :
    (h.declarations.map Declaration.name).Nodup := by
  have hnodup := hh.ready.nodup
  rw [hh.used, List.nodup_append] at hnodup
  exact List.nodup_reverse.mp hnodup.1

/-- Another result that uses the same names. -/
theorem Grows.map {h : Hoisted α} (hh : Grows finite types names h) {f : α → β}
    (hf : ∀ a, (∀ t ∈ types a, t.IsLegible) → (TypeExpr.namesOfAll (types a)).Nodup →
      (∀ t ∈ types' (f a), t.IsLegible) ∧
        TypeExpr.namesOfAll (types' (f a)) = TypeExpr.namesOfAll (types a)) :
    Grows finite types' names (h.map f) where
  ready := hh.ready
  used := hh.used
  tree hfinite := by
    have htree := hh.tree hfinite
    have hnodup := htree.perm.nodup_iff.mpr hh.nodup
    rw [TypeExpr.namesOfAll_append, List.nodup_append] at hnodup
    obtain ⟨hlegible, hnames⟩ := hf h.result (List.forall_mem_append.mp htree.legible).1 hnodup.1
    exact htree.congr hlegible hnames

/-- One more result in front of others. -/
theorem Grows.cons {h : Hoisted α} {types' : List β → List TypeExpr}
    (hh : Grows finite types names h) {more : Sanitizer → Hoisted (List β)}
    (hmore : Grows finite types' h.names (more h.names)) {f : α → β}
    (hf : ∀ a bs, types' (f a :: bs) = types a ++ types' bs) :
    Grows finite types' names (h.andThen fun a names => (more names).map (f a :: ·)) where
  ready := hmore.ready
  used := by
    rw [Hoisted.andThen, Hoisted.map]
    dsimp only
    rw [hmore.used, hh.used, List.map_append, List.reverse_append, List.append_assoc]
  tree hfinite := by
    rw [Hoisted.andThen, Hoisted.map]
    dsimp only
    rw [hf]
    exact (hh.tree hfinite).append (hmore.tree hfinite)

/-- A name that is handed out is used, and declared as a body. -/
theorem Grows.declare (hready : IsReady names) {hint : String} {body : Hoisted DeclarationBody}
    (h : Grows finite DeclarationBody.types (names.claim hint).2 body) :
    Grows finite ([·]) names (body.declare (names.claim hint).1) where
  ready := h.ready
  used := by
    rw [Hoisted.declare]
    dsimp only
    rw [h.used, List.map_cons, List.reverse_cons, List.append_assoc]
    rfl
  tree hfinite :=
    (h.tree hfinite).declare (isHandedOut_claim hready.vocabulary hint).isDistinct

/-- An expression becomes part of another one. -/
theorem Grows.wrap {h : Hoisted TypeExpr} (hh : Grows finite ([·]) names h) {f : TypeExpr → β}
    (hlegible : ∀ t, t.IsLegible → ∀ u ∈ types' (f t), u.IsLegible)
    (hnames : ∀ t, TypeExpr.namesOfAll (types' (f t)) = t.names) :
    Grows finite types' names (h.map f) :=
  hh.map fun t ht _ => ⟨hlegible t (ht t (List.mem_singleton_self t)), by
    rw [hnames, TypeExpr.namesOfAll, TypeExpr.namesOfAll, List.append_nil]⟩

/-- Expressions become the parts of a union. -/
theorem Grows.union {h : Hoisted (List TypeExpr)} (hh : Grows finite id names h)
    {f : TypeExpr → β} (hf : ∀ t, types' (f t) = [t]) :
    Grows finite types' names (h.map fun ts => f (.union (TypeExpr.dedupe ts))) :=
  hh.map fun ts hts hnodup => by
    rw [hf, List.forall_mem_singleton, TypeExpr.namesOfAll, TypeExpr.namesOfAll, List.append_nil,
      TypeExpr.names]
    refine ⟨?_, TypeExpr.namesOfAll_dedupe hts hnodup⟩
    rw [TypeExpr.IsLegible, TypeExpr.allLegible_iff]
    exact fun t ht => hts t ((TypeExpr.dedupe_spec ts).1 t ht)

end

/-- Whether all numbers in a literal are finite. -/
def HasFiniteLiteral : SchemaNode → Prop
  | .literal value _ => isFiniteValue value = true
  | _ => True

section
open SchemaNode

variable {finite : Prop}

mutual
theorem grows_refer (node : SchemaNode) (hint : String) (names : Sanitizer) (hready : IsReady names)
    (hnode : finite → node.Everywhere HasFiniteLiteral) :
    Grows finite ([·]) names (refer node hint names) := by
  match node with
  | .object fields isOpen note =>
    -- the closed object without fields is the one object that is not declared
    by_cases hempty : fields = [] ∧ isOpen = false
    · obtain ⟨rfl, rfl⟩ := hempty
      rw [refer]
      exact grows_plain hready (fun _ => List.forall_mem_singleton.mpr trivial) rfl
    · rw [refer]
      · have hfields := grows_referFields fields (names.claim hint).1 (names.claim hint).2
          (hready.claim hint) fun hfinite => (everywhere_object.mp (hnode hfinite)).2
        exact Grows.declare hready (hfields.map fun ps hps _ => ⟨hps, rfl⟩)
      · rintro rfl rfl
        exact hempty ⟨rfl, rfl⟩
  | .union members note =>
    have hmembers : finite → ∀ member ∈ members, member.Everywhere HasFiniteLiteral :=
      fun hfinite => (everywhere_union.mp (hnode hfinite)).2
    rw [refer]
    split
    · next only honly =>
      have hmem := mem_of_nullableMember? honly
      have hlt := sizeOf_lt_of_nullableMember? honly
      have honly := grows_refer only hint names hready fun hfinite => hmembers hfinite only hmem
      refine honly.wrap ?_ ?_
      · exact fun t ht => List.forall_mem_singleton.mpr ⟨ht, trivial, trivial⟩
      · exact fun t => by simp [TypeExpr.namesOfAll, TypeExpr.names]
    · split
      · exact Grows.declare hready ((grows_referMembers members (names.claim hint).1 1
          (names.claim hint).2 (hready.claim hint) hmembers).union fun _ => rfl)
      · exact (grows_referMembers members hint 1 names hready hmembers).union (f := id) fun _ => rfl
  | .array items note =>
    have hitems : finite → items.Everywhere HasFiniteLiteral :=
      fun hfinite => (everywhere_array.mp (hnode hfinite)).2
    have hlegible : ∀ t : TypeExpr, t.IsLegible → ∀ u ∈ [t.array], u.IsLegible :=
      fun t ht => List.forall_mem_singleton.mpr ht
    rw [refer]
    split
    · exact Grows.declare hready ((grows_refer items _ (names.claim hint).2 (hready.claim hint)
        hitems).wrap hlegible fun t => List.append_nil _)
    · exact (grows_refer items _ names hready hitems).wrap hlegible fun t => List.append_nil _
  | .record values note =>
    have hvalues : finite → values.Everywhere HasFiniteLiteral :=
      fun hfinite => (everywhere_record.mp (hnode hfinite)).2
    have hlegible : ∀ t : TypeExpr, t.IsLegible → ∀ u ∈ [t.record], u.IsLegible :=
      fun t ht => List.forall_mem_singleton.mpr ht
    rw [refer]
    split
    · exact Grows.declare hready ((grows_refer values _ (names.claim hint).2 (hready.claim hint)
        hvalues).wrap hlegible fun t => List.append_nil _)
    · exact (grows_refer values _ names hready hvalues).wrap hlegible fun t => List.append_nil _
  | .literal value note =>
    rw [refer]
    exact grows_plain hready (fun hfinite => List.forall_mem_singleton.mpr
      (everywhere_literal.mp (hnode hfinite))) rfl
  | .any _ | .null _ | .primitive _ _ =>
    rw [refer]
    exact grows_plain hready (fun _ => List.forall_mem_singleton.mpr trivial) rfl
termination_by sizeOf node

theorem grows_referFields (fields : List (Member SchemaNode)) (parent : String) (names : Sanitizer)
    (hready : IsReady names)
    (hfields : finite → ∀ field ∈ fields, field.type.Everywhere HasFiniteLiteral) :
    Grows finite (·.map Property.type) names (referFields fields parent names) := by
  match fields with
  | [] =>
    rw [referFields]
    exact grows_plain hready (fun _ => List.forall_mem_nil _) rfl
  | ⟨name, optional, node⟩ :: rest =>
    have hnode := grows_refer node (fieldHint parent name) names hready fun hfinite =>
      hfields hfinite _ List.mem_cons_self
    have hrest := grows_referFields rest parent _ hnode.ready fun hfinite field hfield =>
      hfields hfinite field (List.mem_cons_of_mem _ hfield)
    rw [referFields]
    exact hnode.cons hrest fun _ _ => rfl
termination_by sizeOf fields

theorem grows_referMembers (members : List SchemaNode) (name : String) (number : Nat)
    (names : Sanitizer) (hready : IsReady names)
    (hmembers : finite → ∀ member ∈ members, member.Everywhere HasFiniteLiteral) :
    Grows finite id names (referMembers members name number names) := by
  match members with
  | [] =>
    rw [referMembers]
    exact grows_plain hready (fun _ => List.forall_mem_nil _) rfl
  | member :: rest =>
    have hmember := grows_refer member (Naming.numbered name number) names hready fun hfinite =>
      hmembers hfinite _ List.mem_cons_self
    have hrest := grows_referMembers rest name (number + 1) _ hmember.ready
      fun hfinite node hnode => hmembers hfinite node (List.mem_cons_of_mem _ hnode)
    rw [referMembers]
    exact hmember.cons hrest (f := id) fun _ _ => rfl
termination_by sizeOf members
end

theorem grows_bodyOf (node : SchemaNode) (name : String) (names : Sanitizer)
    (hready : IsReady names) (hnode : finite → node.Everywhere HasFiniteLiteral) :
    Grows finite DeclarationBody.types names (bodyOf node name names) := by
  cases node with
  | object fields isOpen note =>
    rw [bodyOf]
    exact (grows_referFields fields name names hready fun hfinite =>
      (everywhere_object.mp (hnode hfinite)).2).map fun ps hps _ => ⟨hps, rfl⟩
  | union members note =>
    rw [bodyOf]
    exact (grows_referMembers members name 1 names hready fun hfinite =>
      (everywhere_union.mp (hnode hfinite)).2).union fun _ => rfl
  | array items note =>
    rw [bodyOf]
    exact (grows_refer items _ names hready fun hfinite =>
      (everywhere_array.mp (hnode hfinite)).2).wrap
        (fun t ht => List.forall_mem_singleton.mpr ht) fun t => List.append_nil _
  | record values note =>
    rw [bodyOf]
    exact (grows_refer values _ names hready fun hfinite =>
      (everywhere_record.mp (hnode hfinite)).2).wrap
        (fun t ht => List.forall_mem_singleton.mpr ht) fun t => List.append_nil _
  | literal value note =>
    exact grows_plain hready (fun hfinite => List.forall_mem_singleton.mpr
      (everywhere_literal.mp (hnode hfinite))) rfl
  | _ => exact grows_plain hready (fun _ => List.forall_mem_singleton.mpr trivial) rfl

end

/-- The declarations for a node fill all slots taken for them, and have different names, which are
identifiers outside the vocabulary, in front the sanitised name.  If no number in a literal is
infinite or none, the name of each declaration behind the first is mentioned once in the types of
those in front of it, and not from there on. -/
theorem declarations_tree (node : SchemaNode) (name : String) :
    slots node name = (declarations node name).map some ∧
      (declaredNames node name).Nodup ∧
      (declaredNames node name).head? = some (typeName name) ∧
      (∀ declared ∈ declaredNames node name,
        IsName declared.toList ∧ vocabulary.has declared.toList = false) ∧
      (node.Everywhere HasFiniteLiteral → ∀ front d back,
        declarations node name = front ++ d :: back → front ≠ [] →
          (mentionsIn front).count d.name = 1 ∧ (mentionsIn (d :: back)).count d.name = 0) := by
  have hready : IsReady sanitizer := ⟨rfl, List.nodup_nil⟩
  have hgrows := Grows.declare hready (grows_bodyOf node (sanitizer.claim name).1
    (sanitizer.claim name).2 (hready.claim name) (id : node.Everywhere HasFiniteLiteral → _))
  refine ⟨slots_eq node name, hgrows.nodup, ?_, fun declared hdeclared => ?_, ?_⟩
  · rw [← claim_sanitizer]
    rfl
  · have hhanded := isHandedOut_of_mem_declaredNames hdeclared
    exact ⟨hhanded.isName, hhanded.not_has⟩
  · intro hfinite front d back hds hfront
    have hmem : d.name ∈ declaredNames node name := by
      rw [declaredNames, hds]
      exact List.mem_map_of_mem (List.mem_append_right _ List.mem_cons_self)
    have htree : Tree [.named (sanitizer.claim name).1] (declarations node name) :=
      hgrows.tree hfinite
    refine htree.count_mentionsIn hgrows.nodup hds ?_
      (isHandedOut_of_mem_declaredNames hmem).isDistinct
    -- The name that is used on its own is that of the first declaration.
    cases front with
    | nil => exact absurd rfl hfront
    | cons first more =>
      have hfirst : (sanitizer.claim name).1 = first.name :=
        congrArg (fun ds => (ds.map Declaration.name).head?.getD "") hds
      have hnodup : ((declarations node name).map Declaration.name).Nodup := hgrows.nodup
      rw [hds, List.cons_append, List.map_cons, List.nodup_cons] at hnodup
      rw [TypeExpr.names, List.mem_singleton, hfirst]
      intro heq
      rw [← heq] at hnodup
      exact hnodup.1 (List.mem_map_of_mem (List.mem_append_right _ List.mem_cons_self))

/-- An object with an object and a literal in it. -/
def limitNode (bound : Json) : SchemaNode :=
  .object [⟨"y", true, .object [⟨"a", true, .primitive .string {}⟩] false {}⟩,
    ⟨"z", true, .literal bound {}⟩] false {}

/-- Its own declaration under a name that spells, with that of the field, a word for a number. -/
def limitDeclaration (bound : Json) : Declaration :=
  ⟨"INFINIT", .interface
    [⟨"y", true, .named "Infinity", {}⟩, ⟨"z", true, .literal bound, {}⟩] false⟩

/-- The declaration for the field. -/
def infinityDeclaration : Declaration :=
  ⟨"Infinity", .interface [⟨"a", true, .primitive .string, {}⟩] false⟩

theorem declarations_limitNode (bound : Json) :
    declarations (limitNode bound) "I-n-f-i-n-i-t" =
      [limitDeclaration bound, infinityDeclaration] := by
  have hfirst : sanitizer.claim "I-n-f-i-n-i-t" = ("INFINIT", ⟨vocabulary, ["INFINIT"]⟩) := by
    have hword : Naming.firstFree [] (Naming.sanitize vocabulary "I-n-f-i-n-i-t" .pascal) =
        "INFINIT" := by
      decide +kernel
    rw [Sanitizer.claim, sanitizer, hword]
  have hinner : Sanitizer.claim ⟨vocabulary, ["INFINIT"]⟩ (fieldHint "INFINIT" "y") =
      ("Infinity", ⟨vocabulary, ["Infinity", "INFINIT"]⟩) := by
    have hword : Naming.firstFree ["INFINIT"]
        (Naming.sanitize vocabulary (fieldHint "INFINIT" "y") .pascal) = "Infinity" := by
      decide +kernel
    rw [Sanitizer.claim, hword]
  simp only [declarations, limitNode, hfirst, bodyOf, referFields, refer, hinner]
  rfl

theorem declarations_tree_limitNode :
    (limitNode (.int 1)).Everywhere HasFiniteLiteral ∧
      (mentionsIn [limitDeclaration (.int 1)]).count "Infinity" = 1 ∧
      (mentionsIn [infinityDeclaration]).count "Infinity" = 0 := by
  have hfinite : (limitNode (.int 1)).Everywhere HasFiniteLiteral := by
    simp [limitNode, SchemaNode.everywhere_object, HasFiniteLiteral, isFiniteValue]
  have htree := (declarations_tree (limitNode (.int 1)) "I-n-f-i-n-i-t").2.2.2.2 hfinite
    [limitDeclaration (.int 1)] infinityDeclaration [] (declarations_limitNode _)
    (List.cons_ne_nil _ _)
  exact ⟨hfinite, htree⟩

/-- The literal of an infinite number. -/
def infinite : Json := .float (.infinity false)

/-- A document of such an object with an infinite literal. -/
def infiniteDocument : Json :=
  .obj [("type", .str "object"), ("properties", .obj
    [("y", .obj [("type", .str "object"),
      ("properties", .obj [("a", .obj [("type", .str "string")])])]),
    ("z", .obj [("const", infinite)])])]

/-- An infinite number is written as a word.  Where that is a declared name, the name is mentioned
once more. -/
theorem count_mentionsIn_infiniteDocument :
    Schema.ofDocument infiniteDocument none (.ofInt 16) = .ok (limitNode infinite) ∧
      declarations (limitNode infinite) "I-n-f-i-n-i-t" =
        [limitDeclaration infinite, infinityDeclaration] ∧
      (mentionsIn [limitDeclaration infinite]).count infinityDeclaration.name = 2 :=
  ⟨by cbv, declarations_limitNode _, by decide +kernel⟩

end SchemaTypings.Typescript
