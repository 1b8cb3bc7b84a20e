/-
  SchemaTypings.Proofs.Typescript.DeclaredName

  Which names are declared for a node.  All are made by claiming a hint that a claimed name begins,
  which is enough to see that the letters of the first one are in front of all of them, and that a
  name that claiming changes is not declared at all.
-/
import SchemaTypings.Proofs.Naming.Letters
import SchemaTypings.Typescript.Declaration

namespace SchemaTypings.Typescript

open Naming (Sanitizer letters finish capitals IsCapitalised)

/-- The names of the declarations for a node, its own one first. -/
def declaredNames (node : SchemaNode) (name : String) : List String :=
  (declarations node name).map Declaration.name

/-! ## What claiming keeps -/

/-- Whether all declarations made have names of a kind, and type names are still what is handed
out. -/
def AllNamed {α : Type} (named : String → Prop) (h : Hoisted α) : Prop :=
  h.names.vocabulary = vocabulary ∧ ∀ d ∈ h.declarations, named d.name

/-- Kinds of hints and of names such that claiming a hint gives a name, and a name with anything
behind it is a hint. -/
structure ClaimedFrom (hinted named : String → Prop) : Prop where
  claim : ∀ (hint : String) (names : Sanitizer), names.vocabulary = vocabulary → hinted hint →
    named (names.claim hint).1
  name : ∀ name, named name → hinted name
  append : ∀ hint more : String, hinted hint → hinted (hint ++ more)

section
variable {α β : Type} {hinted named : String → Prop}

theorem allNamed_plain {names : Sanitizer} (hv : names.vocabulary = vocabulary) (a : α) :
    AllNamed named (.plain a names) :=
  ⟨hv, fun d hd => by cases hd⟩

theorem AllNamed.map {h : Hoisted α} (hh : AllNamed named h) (f : α → β) :
    AllNamed named (h.map f) := hh

theorem AllNamed.andThen {h : Hoisted α} (hh : AllNamed named h) {f : α → Sanitizer → Hoisted β}
    (hf : AllNamed named (f h.result h.names)) : AllNamed named (h.andThen f) := by
  refine ⟨hf.1, fun d hd => ?_⟩
  rcases List.mem_append.mp hd with hd | hd
  · exact hh.2 d hd
  · exact hf.2 d hd

theorem AllNamed.declare {body : Hoisted DeclarationBody} (h : AllNamed named body) {name : String}
    (hname : named name) : AllNamed named (body.declare name) := by
  refine ⟨h.1, fun d hd => ?_⟩
  rcases List.mem_cons.mp hd with rfl | hd
  · exact hname
  · exact h.2 d hd

/-! ## Along a node -/

variable (hkinds : ClaimedFrom hinted named)
include hkinds

mutual
theorem allNamed_refer (node : SchemaNode) (hint : String) (names : Sanitizer)
    (hv : names.vocabulary = vocabulary) (hhint : hinted hint) :
    AllNamed named (refer node hint names) := by
  -- A declaration is made under the claimed name, and the hints inside begin with that.
  have hname := hkinds.claim hint names hv hhint
  have hinside := hkinds.name _ hname
  match node with
  | .object fields isOpen note =>
    by_cases hempty : fields = [] ∧ isOpen = false
    · obtain ⟨rfl, rfl⟩ := hempty
      rw [refer]
      exact allNamed_plain hv _
    · rw [refer]
      · have hfields := allNamed_referFields fields (names.claim hint).1 (names.claim hint).2 hv
          hinside
        exact (hfields.map _).declare hname
      · rintro rfl rfl
        exact hempty ⟨rfl, rfl⟩
  | .union members note =>
    rw [refer]
    split
    · next only honly =>
      have hlt := sizeOf_lt_of_nullableMember? honly
      exact (allNamed_refer only hint names hv hhint).map _
    · split
      · have hparts := allNamed_referMembers members (names.claim hint).1 1 (names.claim hint).2 hv
          hinside
        exact (hparts.map _).declare hname
      · exact (allNamed_referMembers members hint 1 names hv hhint).map _
  | .array items note =>
    rw [refer]
    split
    · have hitems := allNamed_refer items _ (names.claim hint).2 hv (hkinds.append _ "Item" hinside)
      exact (hitems.map _).declare hname
    · exact (allNamed_refer items _ names hv (hkinds.append _ "Item" hhint)).map _
  | .record values note =>
    rw [refer]
    split
    · have hvalues := allNamed_refer values _ (names.claim hint).2 hv
        (hkinds.append _ "Value" hinside)
      exact (hvalues.map _).declare hname
    · exact (allNamed_refer values _ names hv (hkinds.append _ "Value" hhint)).map _
  | .any _ | .null _ | .primitive _ _ | .literal _ _ =>
    rw [refer]
    exact allNamed_plain hv _
termination_by sizeOf node

theorem allNamed_referFields (fields : List (Member SchemaNode)) (parent : String)
    (names : Sanitizer) (hv : names.vocabulary = vocabulary) (hparent : hinted parent) :
    AllNamed named (referFields fields parent names) := by
  match fields with
  | [] =>
    rw [referFields]
    exact allNamed_plain hv _
  | ⟨name, optional, node⟩ :: rest =>
    have hnode := allNamed_refer node (fieldHint parent name) names hv
      (hkinds.append parent _ hparent)
    have hrest := allNamed_referFields rest parent _ hnode.1 hparent
    rw [referFields]
    exact hnode.andThen (hrest.map _)
termination_by sizeOf fields

theorem allNamed_referMembers (members : List SchemaNode) (name : String) (number : Nat)
    (names : Sanitizer) (hv : names.vocabulary = vocabulary) (hname : hinted name) :
    AllNamed named (referMembers members name number names) := by
  match members with
  | [] =>
    rw [referMembers]
    exact allNamed_plain hv _
  | member :: rest =>
    have hmember := allNamed_refer member (Naming.numbered name number) names hv
      (hkinds.append name _ hname)
    have hrest := allNamed_referMembers rest name (number + 1) _ hmember.1 hname
    rw [referMembers]
    exact hmember.andThen (hrest.map _)
termination_by sizeOf members
end

theorem allNamed_bodyOf (node : SchemaNode) (name : String) (names : Sanitizer)
    (hv : names.vocabulary = vocabulary) (hname : hinted name) :
    AllNamed named (bodyOf node name names) := by
  cases node with
  | object fields isOpen note =>
    exact (allNamed_referFields hkinds fields name names hv hname).map _
  | union members note =>
    exact (allNamed_referMembers hkinds members name 1 names hv hname).map _
  | array items note =>
    exact (allNamed_refer hkinds items _ names hv (hkinds.append name "Item" hname)).map _
  | record values note =>
    exact (allNamed_refer hkinds values _ names hv (hkinds.append name "Value" hname)).map _
  | _ => exact allNamed_plain hv _

/-- All declared names are of the kind that the first one is of. -/
theorem forall_declaredNames {node : SchemaNode} {name : String}
    (hfirst : named (sanitizer.claim name).1) : ∀ declared ∈ declaredNames node name, named declared := by
  have hbody := allNamed_bodyOf hkinds node (sanitizer.claim name).1 (sanitizer.claim name).2 rfl
    (hkinds.name _ hfirst)
  rw [declaredNames, List.forall_mem_map]
  exact (hbody.declare hfirst).2

end

/-! ## The first name -/

theorem claim_sanitizer (name : String) : (sanitizer.claim name).1 = typeName name := by
  simp [Sanitizer.claim, sanitizer, Naming.firstFree, typeName]

theorem typeName_mem_declaredNames (node : SchemaNode) (name : String) :
    typeName name ∈ declaredNames node name := by
  rw [← claim_sanitizer]
  exact List.mem_cons_self

theorem toList_typeName (name : String) :
    (typeName name).toList = finish vocabulary (Naming.pascal (Naming.clean name.toList)) := by
  rw [typeName, Naming.sanitize, String.toList_ofList]
  rfl

/-- The letters of a type name are those of the name, if it has any. -/
theorem letters_typeName (name : String) : letters (typeName name).toList =
    if letters name.toList = [] then "field".toList else letters name.toList := by
  rw [toList_typeName, ← Naming.sanitizeChars_eq_finish, Naming.letters_sanitizeChars]

theorem letters_typeName_ne_nil (name : String) : letters (typeName name).toList ≠ [] := by
  rw [letters_typeName]
  split
  · decide
  · next h => exact h

theorem letters_typeName_of_ne_nil {name : String} (h : letters name.toList ≠ []) :
    letters (typeName name).toList = letters name.toList := by
  rw [letters_typeName, if_neg h]

/-- A claimed name is the type name of the hint, or has a counter behind that. -/
theorem claim_cases {names : Sanitizer} (hv : names.vocabulary = vocabulary) (hint : String) :
    (names.claim hint).1 = typeName hint ∨
      ∃ n, (names.claim hint).1 = Naming.numbered (typeName hint) n := by
  have hclaim : (names.claim hint).1 = Naming.firstFree names.used (typeName hint) := by
    rw [Sanitizer.claim, hv]
    rfl
  rw [hclaim]
  rcases Naming.firstFree_cases names.used (typeName hint) with ⟨-, heq⟩ | ⟨-, n, -, heq⟩
  · exact .inl heq
  · exact .inr ⟨n, heq⟩

/-! ## All names -/

/-- Names whose letters begin in a certain way. -/
theorem claimedFrom_prefix {start : List Char} (hstart : start ≠ []) :
    ClaimedFrom (fun s => start <+: letters s.toList) (fun s => start <+: letters s.toList) where
  claim hint names hv hhint := by
    have hne : letters hint.toList ≠ [] := by
      intro hnil
      rw [hnil] at hhint
      exact hstart (List.prefix_nil.mp hhint)
    rcases claim_cases hv hint with heq | ⟨n, heq⟩
    · rw [heq, letters_typeName_of_ne_nil hne]
      exact hhint
    · rw [heq, Naming.letters_numbered, letters_typeName_of_ne_nil hne]
      exact hhint.trans (List.prefix_append _ _)
  name _ h := h
  append hint more h := by
    rw [String.toList_append, Naming.letters_append]
    exact h.trans (List.prefix_append _ _)

/-- The letters of the first name are in front of those of all names. -/
theorem letters_prefix_of_mem_declaredNames {node : SchemaNode} {name declared : String}
    (h : declared ∈ declaredNames node name) :
    letters (typeName name).toList <+: letters declared.toList := by
  have hkinds := claimedFrom_prefix (letters_typeName_ne_nil name)
  refine forall_declaredNames hkinds ?_ declared h
  simp only [claim_sanitizer, List.prefix_rfl]

/-- Hints on the way from the type name of `name` onwards: there are more letters, or no more
capitals than there. -/
def IsBeyond (name hint : String) : Prop :=
  (letters name.toList).length < (letters hint.toList).length ∨
    ((letters name.toList).length = (letters hint.toList).length ∧
      IsCapitalised (Naming.clean hint.toList) ∧
        capitals (Naming.clean hint.toList) ≤
          capitals (Naming.pascal (Naming.clean name.toList)))

theorem pascal_clean_ne_nil {name : String} (h : letters name.toList ≠ []) :
    Naming.pascal (Naming.clean name.toList) ≠ [] := by
  intro hnil
  rw [← Naming.letters_pascal_clean, hnil] at h
  exact h rfl

theorem clean_typeName {name : String} (h : letters name.toList ≠ []) :
    Naming.clean (typeName name).toList = Naming.pascal (Naming.clean name.toList) := by
  rw [toList_typeName, Naming.clean_finish vocabulary (pascal_clean_ne_nil h)
    (Naming.isCapitalised_pascal_clean _)]

/-- A name that sanitising changes is no type name of a hint beyond it: it would have as few
capitals as its own type name, and be that. -/
theorem typeName_ne_of_isBeyond {name hint : String} (hchanged : typeName name ≠ name)
    (hhint : letters hint.toList ≠ [])
    (hcapitalised : IsCapitalised (Naming.clean hint.toList))
    (hcapitals : capitals (Naming.clean hint.toList) ≤
      capitals (Naming.pascal (Naming.clean name.toList))) : typeName hint ≠ name := by
  intro heq
  have hclean := clean_typeName hhint
  rw [heq] at hclean
  have hname : IsCapitalised (Naming.clean name.toList) := by
    rw [hclean]
    exact Naming.isCapitalised_pascal_clean _
  have hle : capitals (Naming.clean name.toList) ≤
      capitals (Naming.pascal (Naming.clean name.toList)) := by
    conv_lhs => rw [hclean]
    exact Nat.le_trans (Naming.capitals_pascal_le hcapitalised).1 hcapitals
  have hfixed := (Naming.capitals_pascal_le hname).2 hle
  refine hchanged (String.toList_injective ?_)
  rw [toList_typeName, hfixed, hclean, ← toList_typeName, heq]

theorem claimedFrom_isBeyond {name : String} (hchanged : typeName name ≠ name)
    (hletters : letters name.toList ≠ []) :
    ClaimedFrom (IsBeyond name) (fun s => IsBeyond name s ∧ s ≠ name) where
  claim hint names hv hhint := by
    have hlength : (letters name.toList).length ≤ (letters hint.toList).length := by
      rcases hhint with hlt | ⟨heq, -, -⟩
      · omega
      · omega
    have hne : letters hint.toList ≠ [] := by
      intro hnil
      rw [hnil] at hlength
      exact hletters (List.eq_nil_of_length_eq_zero (Nat.le_zero.mp hlength))
    have hlonger : ∀ s : String, (letters name.toList).length < (letters s.toList).length →
        IsBeyond name s ∧ s ≠ name := by
      intro s hlt
      refine ⟨.inl hlt, ?_⟩
      rintro rfl
      omega
    -- a claimed name is the type name of the hint, or that with a number behind it, which is longer
    rcases claim_cases hv hint with heq | ⟨n, heq⟩
    · rw [heq]
      have hsame := letters_typeName_of_ne_nil hne
      -- with as many letters as the name, it is the capitals that tell them apart
      rcases hhint with hlt | ⟨hlengths, hcapitalised, hcapitals⟩
      · exact hlonger _ (by rw [hsame]; exact hlt)
      · refine ⟨.inr ⟨by rw [hsame]; exact hlengths, ?_, ?_⟩,
          typeName_ne_of_isBeyond hchanged hne hcapitalised hcapitals⟩
        · rw [clean_typeName hne]
          exact Naming.isCapitalised_pascal_clean _
        · rw [clean_typeName hne]
          exact Nat.le_trans (Naming.capitals_pascal_le hcapitalised).1 hcapitals
    · refine hlonger _ ?_
      have hdigits := List.length_pos_iff.mpr (Nat.toDigits_ne_nil (n := n) (b := 10))
      rw [heq, Naming.letters_numbered, letters_typeName_of_ne_nil hne, List.length_append]
      omega
  name _ h := h.1
  append hint more h := by
    have happend : letters (hint ++ more).toList = letters hint.toList ++ letters more.toList := by
      rw [String.toList_append, Naming.letters_append]
    by_cases hmore : letters more.toList = []
    · -- Nothing that counts is behind the hint.
      have hclean : Naming.clean (hint ++ more).toList = Naming.clean hint.toList := by
        rw [String.toList_append, Naming.clean_append _ hmore]
      rw [IsBeyond, happend, hmore, List.append_nil, hclean]
      exact h
    · have hpos := List.length_pos_iff.mpr hmore
      refine .inl ?_
      rw [happend, List.length_append]
      rcases h with hlt | ⟨heq, -, -⟩
      · omega
      · omega

/-- A name is declared for what is to be declared under it exactly if sanitising leaves it as it
is. -/
theorem mem_declaredNames_self_iff (node : SchemaNode) (name : String) :
    name ∈ declaredNames node name ↔ typeName name = name := by
  constructor
  · intro hmem
    by_contra hchanged
    by_cases hletters : letters name.toList = []
    · have hbegins := letters_prefix_of_mem_declaredNames hmem
      rw [hletters] at hbegins
      exact letters_typeName_ne_nil name (List.prefix_nil.mp hbegins)
    · have hkinds := claimedFrom_isBeyond hchanged hletters
      refine (forall_declaredNames hkinds ?_ name hmem).2 rfl
      rw [claim_sanitizer]
      refine ⟨.inr ⟨by rw [letters_typeName_of_ne_nil hletters], ?_, ?_⟩, hchanged⟩
      · rw [clean_typeName hletters]
        exact Naming.isCapitalised_pascal_clean _
      · rw [clean_typeName hletters]
  · intro heq
    have hfirst := typeName_mem_declaredNames node name
    rwa [heq] at hfirst

end SchemaTypings.Typescript
