/-
  SchemaTypings.Proofs.Typescript.NestedName

  What nested declarations are called.  The nodes that are declared form a tree: the children of a
  declared node are its parts that get declarations of their own.  The declarations are those of the
  tree, parents first.  Each is named by claiming the parent's name with a piece for the position
  behind it.

  `Nests` is what is carried through the recursion: that the declarations made on the way are those
  of trees for the nodes wanted, each under the first free name for its hint.
-/
import SchemaTypings.Proofs.Store.Forest
import SchemaTypings.Proofs.Typescript.Allocation
import SchemaTypings.Proofs.Typescript.DeclaredName
import SchemaTypings.Proofs.Typescript.Hoisting
import Mathlib.Data.List.Forall2

namespace SchemaTypings.Typescript

open Naming (IsLeastFree Sanitizer letters numbered)

/-! ## Positions -/

/-- Where a part stands in a node. -/
inductive Position where
  | field (name : String)
  | item
  | value
  /-- The members of a union count from one. -/
  | member (number : Nat)

/-- What is put behind the name of a declaration for what stands at a position in it. -/
def Position.piece : Position → String
  | .field name => if Naming.pascalCase name = "" then "Field" else Naming.pascalCase name
  | .item => "Item"
  | .value => "Value"
  | .member number => natText number

/-- The members of a union with their positions, the first of which has the given number. -/
def memberParts : Nat → List SchemaNode → List (Position × SchemaNode)
  | _, [] => []
  | number, member :: rest => (.member number, member) :: memberParts (number + 1) rest

/-- The parts of a node with their positions. -/
def partsAt : SchemaNode → List (Position × SchemaNode)
  | .object fields _ _ => fields.map fun field => (.field field.name, field.type)
  | .union members _ => memberParts 1 members
  | .array items _ => [(.item, items)]
  | .record values _ => [(.value, values)]
  | _ => []

/-- The node that gets a declaration where a node is referred to: the node itself, if an object type
has to be declared at or below it, or what stands beside null in it. -/
def declared? (node : SchemaNode) : Option SchemaNode :=
  match node with
  | .union members note =>
    match _h : nullableMember? members with
    | some only => declared? only
    | none => if anyHoldsObject members then some (.union members note) else none
  | node => if holdsObject node then some node else none
termination_by sizeOf node
decreasing_by
  have hlt := sizeOf_lt_of_nullableMember? _h
  simp_wf
  omega

/-- The positions of parts at which something is declared, with the nodes that are. -/
def declaredParts (parts : List (Position × SchemaNode)) : List (Position × SchemaNode) :=
  parts.filterMap fun part => (declared? part.2).map (part.1, ·)

/-- A node with its declaration. -/
structure DeclaredNode where
  node : SchemaNode
  declaration : Declaration

/-- The name of a node's declaration. -/
def DeclaredNode.name (d : DeclaredNode) : String := d.declaration.name

/-- Whether a node is declared after the names given with the first free name for a hint: the type
name of the hint or, if that is taken, that with the least counter behind it. -/
structure IsDeclaredAs (taken : List String) (hint : String) (node : SchemaNode)
    (d : DeclaredNode) : Prop where
  node_eq : d.node = node
  name : IsLeastFree taken (typeName hint) d.name
  body : d.declaration.body =
    (bodyOf node d.name ⟨vocabulary, d.name :: taken.reverse⟩).result

/-! ## Names as documented -/

/-- A name as it is documented: the hint itself, or if that is taken with a number behind it. -/
def IsNamedAfter (taken : List String) (hint name : String) : Prop :=
  name = hint ∨ (hint ∈ taken ∧ ∃ n, name = numbered hint n)

/-- A counter adds digits to what counts of a name. -/
theorem letters_numbered_ne (word : String) (n : Nat) :
    letters (numbered word n).toList ≠ letters word.toList := by
  rw [Naming.letters_numbered, ne_eq, List.append_right_eq_self]
  exact Nat.toDigits_ne_nil

/-- The first free name for a hint with a letter or digit is one as documented exactly if sanitising
leaves the hint as it is: it keeps letters and digits, so that a counter cannot make up for what it
changes. -/
theorem isNamedAfter_iff {taken : List String} {hint name : String}
    (hletters : letters hint.toList ≠ []) (hname : IsLeastFree taken (typeName hint) name) :
    IsNamedAfter taken hint name ↔ typeName hint = hint := by
  have hsame := letters_typeName_of_ne_nil hletters
  -- a number adds letters that count, so that numbered and plain names are never the same
  constructor
  · intro hafter
    rcases hname with ⟨-, hname⟩ | ⟨-, n, -, hname, -⟩
    · rcases hafter with hafter | ⟨-, m, hafter⟩
      · exact hname.symm.trans hafter
      · have hcounted : letters (numbered hint m).toList = letters hint.toList := by
          rw [← hafter, hname, hsame]
        exact absurd hcounted (letters_numbered_ne hint m)
    · rcases hafter with hafter | ⟨-, m, hafter⟩
      · have hcounted : letters (numbered (typeName hint) n).toList =
            letters (typeName hint).toList := by
          rw [← hname, hafter, hsame]
        exact absurd hcounted (letters_numbered_ne _ n)
      · -- With the same letters in front the digits are the same.
        have hboth : numbered hint m = numbered (typeName hint) n := hafter.symm.trans hname
        have hdigits : letters hint.toList ++ Nat.toDigits 10 m =
            letters hint.toList ++ Nat.toDigits 10 n := by
          rw [← Naming.letters_numbered, hboth, Naming.letters_numbered, hsame]
        have htexts : hint.toList ++ Nat.toDigits 10 m =
            (typeName hint).toList ++ Nat.toDigits 10 n := by
          rw [← Naming.toList_numbered, hboth, Naming.toList_numbered]
        rw [List.append_cancel_left hdigits] at htexts
        exact String.toList_injective (List.append_cancel_right htexts).symm
  · intro heq
    rw [heq] at hname
    rcases hname with ⟨-, hname⟩ | ⟨htaken, n, -, hname, -⟩
    · exact .inl hname
    · exact .inr ⟨htaken, n, hname⟩

/-! ## Trees of declarations -/

/-- The hints for the nodes that are declared for parts of the declaration with a name. -/
def hintsFrom (parent : String) (parts : List (Position × SchemaNode)) :
    List (String × SchemaNode) :=
  (declaredParts parts).map fun part => (parent ++ part.1.piece, part.2)

/-- Whether a node is declared where its name stands among all names. -/
def IsDeclaredAmong (all : List String) (hint : String) (node : SchemaNode) (d : DeclaredNode) :
    Prop :=
  ∃ taken later, all = taken ++ d.name :: later ∧ IsDeclaredAs taken hint node d

/-- Whether trees are those of the declarations wanted, each a node under a hint, and so are the
children of each tree below for the parts of its node. -/
structure AreDeclared (all : List String) (wanted : List (String × SchemaNode))
    (trees : List (SchemaTypings.Tree DeclaredNode)) : Prop where
  roots : List.Forall₂ (fun want t => IsDeclaredAmong all want.1 want.2 t.value) wanted trees
  children : ∀ t ∈ Tree.subtreesAll trees,
    List.Forall₂ (fun want child => IsDeclaredAmong all want.1 want.2 child.value)
      (hintsFrom t.value.name (partsAt t.value.node)) t.children

section
variable {all more : List String} {wanted wanted' : List (String × SchemaNode)}
  {trees trees' : List (SchemaTypings.Tree DeclaredNode)} {hint : String} {node : SchemaNode}
  {d : DeclaredNode}

/-- Names that come later change nothing. -/
theorem IsDeclaredAmong.append (h : IsDeclaredAmong all hint node d) :
    IsDeclaredAmong (all ++ more) hint node d := by
  obtain ⟨taken, later, rfl, hd⟩ := h
  exact ⟨taken, later ++ more, by rw [List.append_assoc, List.cons_append], hd⟩

theorem AreDeclared.mono (h : AreDeclared all wanted trees) :
    AreDeclared (all ++ more) wanted trees where
  roots := h.roots.imp fun _ _ hd => hd.append
  children t ht := (h.children t ht).imp fun _ _ hd => hd.append

theorem AreDeclared.append (h : AreDeclared all wanted trees)
    (h' : AreDeclared all wanted' trees') :
    AreDeclared all (wanted ++ wanted') (trees ++ trees') where
  roots := List.rel_append h.roots h'.roots
  children t ht := by
    rw [Tree.subtreesAll_append, List.mem_append] at ht
    rcases ht with ht | ht
    · exact h.children t ht
    · exact h'.children t ht

/-- Trees for the parts of a node are the children of a tree for the node. -/
theorem AreDeclared.parent (hd : IsDeclaredAmong all hint node d)
    (h : AreDeclared all (hintsFrom d.name (partsAt node)) trees) :
    AreDeclared all [(hint, node)] [.node d trees] where
  roots := .cons hd .nil
  children t ht := by
    rw [Tree.subtreesAll_singleton, Tree.mem_subtrees_iff] at ht
    rcases ht with rfl | ht
    · obtain ⟨taken, later, -, hnode⟩ := hd
      rw [Tree.value, Tree.children, hnode.node_eq]
      exact h.roots
    · exact h.children t ht

end

/-! ## Putting together -/

/-- What declaring does from the names given: it hands out new names to its declarations, and these
are those of trees for the nodes wanted. -/
structure Nests {α : Type} (wanted : List (String × SchemaNode)) (names : Sanitizer)
    (h : Hoisted α) : Prop where
  vocabulary : h.names.vocabulary = Typescript.vocabulary
  used : h.names.used = (h.declarations.map Declaration.name).reverse ++ names.used
  trees : ∃ trees : List (SchemaTypings.Tree DeclaredNode),
    (Tree.toListAll trees).map DeclaredNode.declaration = h.declarations ∧
      AreDeclared (names.used.reverse ++ h.declarations.map Declaration.name) wanted trees

section
variable {α β : Type} {wanted wanted' : List (String × SchemaNode)} {names : Sanitizer}

theorem nests_plain (hv : names.vocabulary = Typescript.vocabulary) (a : α) :
    Nests [] names (.plain a names) where
  vocabulary := hv
  used := rfl
  trees := ⟨[], rfl, .nil, fun t ht => by cases ht⟩

theorem Nests.map {h : Hoisted α} (hh : Nests wanted names h) (f : α → β) :
    Nests wanted names (h.map f) := ⟨hh.vocabulary, hh.used, hh.trees⟩

theorem Nests.andThen {h : Hoisted α} (hh : Nests wanted names h) {f : α → Sanitizer → Hoisted β}
    (hf : Nests wanted' h.names (f h.result h.names)) :
    Nests (wanted ++ wanted') names (h.andThen f) where
  vocabulary := hf.vocabulary
  used := by
    rw [Hoisted.andThen]
    dsimp only
    rw [hf.used, hh.used, List.map_append, List.reverse_append, List.append_assoc]
  trees := by
    obtain ⟨trees, hlist, htrees⟩ := hh.trees
    obtain ⟨trees', hlist', htrees'⟩ := hf.trees
    rw [hh.used, List.reverse_append, List.reverse_reverse] at htrees'
    refine ⟨trees ++ trees', ?_, ?_⟩
    · rw [Tree.toListAll_append, List.map_append, hlist, hlist']
      rfl
    · rw [Hoisted.andThen]
      dsimp only
      rw [List.map_append, ← List.append_assoc]
      exact htrees.mono.append htrees'

/-- A node with the declaration that it gets under the name claimed for a hint. -/
def claimFor (names : Sanitizer) (hint : String) (node : SchemaNode) : DeclaredNode :=
  ⟨node, (names.claim hint).1, (bodyOf node (names.claim hint).1 (names.claim hint).2).result⟩

theorem isDeclaredAs_claimFor (hv : names.vocabulary = Typescript.vocabulary) (hint : String)
    (node : SchemaNode) :
    IsDeclaredAs names.used.reverse hint node (claimFor names hint node) where
  node_eq := rfl
  name := by
    have hfree := Naming.isLeastFree_firstFree names.used (typeName hint)
    have hclaim : (names.claim hint).1 = Naming.firstFree names.used (typeName hint) := by
      rw [Sanitizer.claim, hv]
      rfl
    rw [DeclaredNode.name, claimFor, hclaim]
    simpa only [IsLeastFree, List.mem_reverse] using hfree
  body := by
    have hnames : (names.claim hint).2 =
        ⟨Typescript.vocabulary, (names.claim hint).1 :: names.used⟩ := by
      rw [← hv]
      rfl
    rw [DeclaredNode.name, claimFor, List.reverse_reverse, ← hnames]

/-- What is claimed for a node comes before what its body uses. -/
theorem Nests.declare (hv : names.vocabulary = Typescript.vocabulary) {hint : String}
    {node : SchemaNode}
    (h : Nests (hintsFrom (names.claim hint).1 (partsAt node)) (names.claim hint).2
      (bodyOf node (names.claim hint).1 (names.claim hint).2)) :
    Nests [(hint, node)] names
      ((bodyOf node (names.claim hint).1 (names.claim hint).2).declare (names.claim hint).1) where
  vocabulary := h.vocabulary
  used := by
    rw [Hoisted.declare]
    dsimp only
    rw [h.used, List.map_cons, List.reverse_cons, List.append_assoc]
    rfl
  trees := by
    obtain ⟨trees, hlist, htrees⟩ := h.trees
    have hused : (names.claim hint).2.used = (names.claim hint).1 :: names.used := rfl
    rw [hused, List.reverse_cons, List.append_assoc, List.singleton_append] at htrees
    have hparent := AreDeclared.parent ⟨_, _, rfl, isDeclaredAs_claimFor hv hint node⟩ htrees
    refine ⟨_, ?_, hparent⟩
    rw [Tree.toListAll_singleton, Tree.toList, List.map_cons, hlist]
    rfl

end

/-! ## Along a node -/

theorem hintsFrom_cons (parent : String) (position : Position) (node : SchemaNode)
    (rest : List (Position × SchemaNode)) :
    hintsFrom parent ((position, node) :: rest) =
      ((declared? node).map (parent ++ position.piece, ·)).toList ++ hintsFrom parent rest := by
  rw [hintsFrom, declaredParts, List.filterMap_cons]
  cases declared? node <;> rfl

theorem hintsFrom_singleton (parent : String) (position : Position) (node : SchemaNode) :
    hintsFrom parent [(position, node)] =
      ((declared? node).map (parent ++ position.piece, ·)).toList := by
  rw [hintsFrom_cons]
  exact List.append_nil _

theorem holdsObject_of_anyHoldsObject {members : List SchemaNode}
    (h : anyHoldsObject members = false) : ∀ member ∈ members, holdsObject member = false := by
  induction members with
  | nil => exact List.forall_mem_nil _
  | cons member rest ih =>
    rw [anyHoldsObject, Bool.or_eq_false_iff] at h
    exact List.forall_mem_cons.mpr ⟨h.1, ih h.2⟩

/-- What is not a union is declared itself, if anything is. -/
theorem declared?_of_ne_union {node : SchemaNode}
    (hunion : ∀ members note, node ≠ .union members note) :
    declared? node = if holdsObject node then some node else none := by
  cases node with
  | union members note => exact absurd rfl (hunion members note)
  | _ => rw [declared?]; exact fun members note heq => hunion members note heq

/-- Nothing is declared for a node without an object at or below it. -/
theorem declared?_eq_none (node : SchemaNode) (h : holdsObject node = false) :
    declared? node = none := by
  match node with
  | .union members note =>
    rw [holdsObject] at h
    rw [declared?]
    split
    · next only honly =>
      have hlt := sizeOf_lt_of_nullableMember? honly
      exact declared?_eq_none only
        (holdsObject_of_anyHoldsObject h only (mem_of_nullableMember? honly))
    · rw [h, if_neg Bool.false_ne_true]
  | .object _ _ _ | .array _ _ | .record _ _ | .any _ | .null _ | .primitive _ _ | .literal _ _ =>
    rw [declared?_of_ne_union (by simp), h, if_neg Bool.false_ne_true]
termination_by sizeOf node

/-- Nor is anything for the members of a union without an object. -/
theorem hintsFrom_memberParts {members : List SchemaNode} (h : anyHoldsObject members = false)
    (parent : String) (number : Nat) : hintsFrom parent (memberParts number members) = [] := by
  induction members generalizing number with
  | nil => rfl
  | cons member rest ih =>
    have hmember := holdsObject_of_anyHoldsObject h member List.mem_cons_self
    rw [anyHoldsObject, Bool.or_eq_false_iff] at h
    rw [memberParts, hintsFrom_cons, declared?_eq_none member hmember, ih h.2]
    rfl

mutual
theorem nests_refer (node : SchemaNode) (hint : String) (names : Sanitizer)
    (hv : names.vocabulary = vocabulary) :
    Nests ((declared? node).map (hint, ·)).toList names (refer node hint names) := by
  match node with
  | .object fields isOpen note =>
    have hbody := nests_bodyOf (.object fields isOpen note) (names.claim hint).1
      (names.claim hint).2 hv
    rw [declared?_of_ne_union (by simp)]
    by_cases hempty : fields = [] ∧ isOpen = false
    · obtain ⟨rfl, rfl⟩ := hempty
      rw [refer]
      exact nests_plain hv _
    · have hholds : holdsObject (.object fields isOpen note) = true := by
        cases fields <;> cases isOpen <;> simp_all [holdsObject]
      rw [refer, if_pos hholds]
      · exact Nests.declare hv hbody
      · rintro rfl rfl
        exact hempty ⟨rfl, rfl⟩
  | .union members note =>
    have hbody := nests_bodyOf (.union members note) (names.claim hint).1 (names.claim hint).2 hv
    cases honly : nullableMember? members with
    | some only =>
      -- Beside null the other member takes the hint.
      have hlt := sizeOf_lt_of_nullableMember? honly
      rw [refer, declared?, honly]
      exact (nests_refer only hint names hv).map _
    | none =>
      rw [refer, declared?, honly]
      by_cases hholds : anyHoldsObject members = true
      · rw [if_pos hholds, if_pos hholds]
        exact Nests.declare hv hbody
      · -- Without an object nothing is declared for a member, whatever its hint.
        have hmembers := nests_referMembers members hint 1 names hv
        rw [hintsFrom_memberParts (Bool.eq_false_iff.mpr hholds)] at hmembers
        rw [if_neg hholds, if_neg hholds]
        exact hmembers.map _
  | .array items note =>
    have hbody := nests_bodyOf (.array items note) (names.claim hint).1 (names.claim hint).2 hv
    rw [refer, declared?_of_ne_union (by simp), holdsObject]
    split
    · exact Nests.declare hv hbody
    · next hholds =>
      have hitems := nests_refer items (hint ++ "Item") names hv
      rw [declared?_eq_none items (Bool.eq_false_iff.mpr hholds)] at hitems
      exact hitems.map _
  | .record values note =>
    have hbody := nests_bodyOf (.record values note) (names.claim hint).1 (names.claim hint).2 hv
    rw [refer, declared?_of_ne_union (by simp), holdsObject]
    split
    · exact Nests.declare hv hbody
    · next hholds =>
      have hvalues := nests_refer values (hint ++ "Value") names hv
      rw [declared?_eq_none values (Bool.eq_false_iff.mpr hholds)] at hvalues
      exact hvalues.map _
  | .any _ | .null _ | .primitive _ _ | .literal _ _ =>
    rw [refer, declared?_eq_none _ rfl]
    exact nests_plain hv _
termination_by (sizeOf node, 1)

/-- The body of a declaration uses those for the parts of its node. -/
theorem nests_bodyOf (node : SchemaNode) (name : String) (names : Sanitizer)
    (hv : names.vocabulary = vocabulary) :
    Nests (hintsFrom name (partsAt node)) names (bodyOf node name names) := by
  match node with
  | .object fields isOpen note =>
    rw [bodyOf, partsAt]
    exact (nests_referFields fields name names hv).map _
  | .union members note =>
    rw [bodyOf, partsAt]
    exact (nests_referMembers members name 1 names hv).map _
  | .array items note =>
    rw [bodyOf, partsAt, hintsFrom_singleton]
    exact (nests_refer items (name ++ "Item") names hv).map _
  | .record values note =>
    rw [bodyOf, partsAt, hintsFrom_singleton]
    exact (nests_refer values (name ++ "Value") names hv).map _
  | .any _ | .null _ | .primitive _ _ | .literal _ _ => exact nests_plain hv _
termination_by (sizeOf node, 0)

theorem nests_referFields (fields : List (Member SchemaNode)) (parent : String)
    (names : Sanitizer) (hv : names.vocabulary = vocabulary) :
    Nests (hintsFrom parent (fields.map fun field => (.field field.name, field.type))) names
      (referFields fields parent names) := by
  match fields with
  | [] =>
    rw [referFields]
    exact nests_plain hv _
  | ⟨name, optional, node⟩ :: rest =>
    have hnode := nests_refer node (fieldHint parent name) names hv
    have hrest := nests_referFields rest parent _ hnode.vocabulary
    rw [referFields, List.map_cons, hintsFrom_cons]
    exact hnode.andThen (hrest.map _)
termination_by (sizeOf fields, 0)

theorem nests_referMembers (members : List SchemaNode) (name : String) (number : Nat)
    (names : Sanitizer) (hv : names.vocabulary = vocabulary) :
    Nests (hintsFrom name (memberParts number members)) names
      (referMembers members name number names) := by
  match members with
  | [] =>
    rw [referMembers]
    exact nests_plain hv _
  | member :: rest =>
    have hmember := nests_refer member (numbered name number) names hv
    have hrest := nests_referMembers rest name (number + 1) _ hmember.vocabulary
    rw [referMembers, memberParts, hintsFrom_cons]
    exact hmember.andThen (hrest.map _)
termination_by (sizeOf members, 0)
end

/-! ## All declarations -/

/-- A declared name has a letter or digit, and so has what begins with it. -/
theorem letters_append_ne_nil {node : SchemaNode} {name declared : String}
    (h : declared ∈ declaredNames node name) (more : String) :
    letters (declared ++ more).toList ≠ [] := by
  have hbegins := letters_prefix_of_mem_declaredNames h
  rw [String.toList_append, Naming.letters_append]
  intro hnil
  rw [(List.append_eq_nil_iff.mp hnil).1] at hbegins
  exact letters_typeName_ne_nil name (List.prefix_nil.mp hbegins)

/-- Nested declarations are named after their parents.  The declarations for a node are, parents
first, those of a tree of nodes, in which the children of a declared node are its parts that get a
declaration of their own: fields, elements of an array, values of a record and members of a union,
and in place of a union with null the other member.  Each is declared, after the names in front of
it, under the first free name for the parent's name with the piece for its position behind it.  That
is the documented name, the two put together, with a number behind only if that is taken, exactly if
sanitising leaves the two put together as they are. -/
theorem declarations_named_after (node : SchemaNode) (name : String) :
    ∃ tree : SchemaTypings.Tree DeclaredNode,
      tree.toList.map DeclaredNode.declaration = declarations node name ∧
      IsDeclaredAs [] name node tree.value ∧
      ∀ t ∈ tree.subtrees,
        List.Forall₂ (fun part child => ∃ taken later,
            declaredNames node name = taken ++ child.value.name :: later ∧
            IsDeclaredAs taken (t.value.name ++ part.1.piece) part.2 child.value ∧
            (IsNamedAfter taken (t.value.name ++ part.1.piece) child.value.name ↔
              typeName (t.value.name ++ part.1.piece) = t.value.name ++ part.1.piece))
          (declaredParts (partsAt t.value.node)) t.children := by
  have hbody := nests_bodyOf node (sanitizer.claim name).1 (sanitizer.claim name).2 rfl
  obtain ⟨trees, hlist, htrees⟩ := hbody.trees
  have hroot : IsDeclaredAs sanitizer.used.reverse name node (claimFor sanitizer name node) :=
    isDeclaredAs_claimFor rfl name node
  have hparent := AreDeclared.parent ⟨[], _, rfl, hroot⟩ htrees
  have htree : (SchemaTypings.Tree.node (claimFor sanitizer name node) trees).toList.map
      DeclaredNode.declaration = declarations node name := by
    rw [Tree.toList, List.map_cons, hlist]
    rfl
  refine ⟨.node (claimFor sanitizer name node) trees, htree, hroot, fun t ht => ?_⟩
  have hname : t.value.name ∈ declaredNames node name := by
    rw [declaredNames, ← htree, List.map_map]
    exact List.mem_map_of_mem (Tree.value_mem_toList ht)
  have hchildren := hparent.children t (by rw [Tree.subtreesAll_singleton]; exact ht)
  rw [hintsFrom, List.forall₂_map_left_iff] at hchildren
  refine hchildren.imp fun part child hchild => ?_
  obtain ⟨taken, later, hall, hdeclared⟩ := hchild
  exact ⟨taken, later, hall, hdeclared,
    isNamedAfter_iff (letters_append_ne_nil hname part.1.piece) hdeclared.name⟩

/-- An object schema with one property. -/
def propertySchema (name : String) (schema : Json) : Json :=
  .obj [("type", .str "object"), ("properties", .obj [(name, schema)])]

/-- A document with an object under a key that ends in a capital. -/
def capitalDocument : Json :=
  propertySchema "aB" (propertySchema "x" (.obj [("type", .str "string")]))

/-- The node of `capitalDocument`. -/
def capitalNode : SchemaNode :=
  .object [⟨"aB", true, .object [⟨"x", true, .primitive .string {}⟩] false {}⟩] false {}

/-- Sanitising keeps the first of capitals side by side only.  Where a field's name ends in one, its
declaration has another name than the documented one. -/
theorem declaredNames_capitalNode :
    Schema.ofDocument capitalDocument none (.ofInt 16) = .ok capitalNode ∧
      declaredNames capitalNode "Foo" = ["Foo", "FooAb"] ∧
      "Foo" ++ (Position.field "aB").piece = "FooAB" ∧ ¬IsNamedAfter ["Foo"] "FooAB" "FooAb" := by
  have hnode : Schema.ofDocument capitalDocument none (.ofInt 16) = .ok capitalNode := by cbv
  have hfirst : sanitizer.claim "Foo" = ("Foo", ⟨vocabulary, ["Foo"]⟩) := by
    have hword : Naming.firstFree [] (Naming.sanitize vocabulary "Foo" .pascal) = "Foo" := by
      decide +kernel
    rw [Sanitizer.claim, sanitizer, hword]
  have hinner : Sanitizer.claim ⟨vocabulary, ["Foo"]⟩ (fieldHint "Foo" "aB") =
      ("FooAb", ⟨vocabulary, ["FooAb", "Foo"]⟩) := by
    have hword : Naming.firstFree ["Foo"]
        (Naming.sanitize vocabulary (fieldHint "Foo" "aB") .pascal) = "FooAb" := by
      decide +kernel
    rw [Sanitizer.claim, hword]
  have hnames : declaredNames capitalNode "Foo" = ["Foo", "FooAb"] := by
    simp only [declaredNames, declarations, capitalNode, hfirst, bodyOf, referFields, refer, hinner]
    rfl
  refine ⟨hnode, hnames, by decide +kernel, ?_⟩
  rintro (hsame | ⟨htaken, -⟩)
  · exact absurd hsame (by decide)
  · exact absurd htaken (by decide)

end SchemaTypings.Typescript
