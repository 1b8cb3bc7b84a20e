/-
  SchemaTypings.Proofs.Typescript.Source

  What the source of the declarations for a node exports: the declared names, in order, all of them at
  the beginnings of lines, and under a header that exports nothing no others.

  `Carries` is what is carried through the recursion over nodes: all names that are declared or used
  on the way are names that were handed out, and all notes are those of nodes.
-/
import SchemaTypings.Proofs.Typescript.DeclaredName
import SchemaTypings.Proofs.Typescript.Hoisting
import SchemaTypings.Proofs.Typescript.LineName

namespace SchemaTypings.Typescript

open Naming (Sanitizer)

/-! ## Names -/

/-- A name that is read off a declaration and off an expression. -/
structure IsDeclarable (name : String) : Prop where
  isWord : IsWord name.toList
  isLineName : IsLineName name.toList

theorem isDeclarable_of_isTypeName {name : String} (h : IsTypeName name)
    (hexport : name.toList ≠ "export".toList) : IsDeclarable name := by
  have hparts : ∀ c, Naming.isNameChar c = true → isWordPart c = true ∧ isNamePart c = true := by
    intro c hc
    have hlook := Naming.forall_ascii
      (p := fun c => !Naming.isNameChar c || (isWordPart c && isNamePart c)) (by decide +kernel)
      (Naming.isAscii_of_isNameChar hc)
    rw [hc] at hlook
    exact Bool.and_eq_true_iff.mp hlook
  have hstart : ∀ c, Naming.isNameChar c = true → c.isDigit = false →
      Naming.isIdentifierStart c = true := by
    intro c hc hdigit
    rw [Naming.isNameChar, Char.isAlphanum, hdigit, Bool.or_false] at hc
    rw [Naming.isIdentifierStart, hc, Bool.true_or]
  have hall := h.isName.all_nameChar
  refine ⟨⟨h.isName.ne_nil, fun c hc => (hparts c (hall c hc)).1, hexport⟩,
    ⟨h.isName.ne_nil, ?_, fun c hc => (hparts c (hall c hc)).2, ?_⟩⟩
  · exact fun c hc => hstart c (hall c (List.mem_of_head? hc)) (h.isName.head_not_digit c hc)
  · intro hnewline
    have hnot := hall _ hnewline
    revert hnot
    decide

/-- What is handed out can be declared. -/
theorem isDeclarable_claim {names : Sanitizer} (h : names.vocabulary = vocabulary) (hint : String) :
    IsDeclarable (names.claim hint).1 :=
  isDeclarable_of_isTypeName (isTypeName_claim h hint)
    ((isSafe_claim h (by decide) hint).ne (by decide +kernel))

theorem isDeclarable_typeName (name : String) : IsDeclarable (typeName name) := by
  rw [← claim_sanitizer]
  exact isDeclarable_claim rfl name

/-! ## Declarations -/

/-- Whether the lines of a note stand inside a comment. -/
def IsQuiet (note : Note) : Prop :=
  ∀ constraint ∈ note.constraints, ∀ value,
    holdsCommentEnd (constraintLine constraint.1 value) = false

/-- Whether all names in an expression can be declared. -/
def TypeExpr.IsNamed (t : TypeExpr) : Prop := ∀ name ∈ t.names, IsDeclarable name

/-- Whether a property has a type with such names and a note of a node. -/
structure Property.IsNamed (p : Property) : Prop where
  type : p.type.IsNamed
  note : IsQuiet p.note

/-- Whether a declaration says what it says with such names and notes. -/
def DeclarationBody.IsNamed : DeclarationBody → Prop
  | .interface properties _ => ∀ p ∈ properties, p.IsNamed
  | .alias t => t.IsNamed

/-- Whether a declaration has names and notes of that kind. -/
structure Declaration.IsNamed (d : Declaration) : Prop where
  name : IsDeclarable d.name
  body : d.body.IsNamed

/-- What declaring does: type names are still what is handed out, and all declarations have names and
notes of the right kind, and so has the result. -/
structure Carries {α : Type} (p : α → Prop) (h : Hoisted α) : Prop where
  vocabulary : h.names.vocabulary = Typescript.vocabulary
  declarations : ∀ d ∈ h.declarations, d.IsNamed
  result : p h.result

section
variable {α β : Type} {p : α → Prop} {q : β → Prop} {names : Sanitizer}

theorem carries_plain (hv : names.vocabulary = vocabulary) {a : α} (ha : p a) :
    Carries p (.plain a names) :=
  ⟨hv, List.forall_mem_nil _, ha⟩

theorem Carries.map {h : Hoisted α} (hh : Carries p h) {f : α → β} (hf : ∀ a, p a → q (f a)) :
    Carries q (h.map f) :=
  ⟨hh.vocabulary, hh.declarations, hf _ hh.result⟩

/-- One more result in front of others. -/
theorem Carries.cons {h : Hoisted α} (hh : Carries p h) {more : Sanitizer → Hoisted (List β)}
    (hmore : Carries (fun bs => ∀ b ∈ bs, q b) (more h.names)) {f : α → β}
    (hf : ∀ a, p a → q (f a)) :
    Carries (fun bs => ∀ b ∈ bs, q b)
      (h.andThen fun a names => (more names).map (f a :: ·)) where
  vocabulary := hmore.vocabulary
  declarations := by
    intro d hd
    rcases List.mem_append.mp hd with hd | hd
    · exact hh.declarations d hd
    · exact hmore.declarations d hd
  result := List.forall_mem_cons.mpr ⟨hf _ hh.result, hmore.result⟩

theorem Carries.declare {body : Hoisted DeclarationBody} (h : Carries DeclarationBody.IsNamed body)
    {name : String} (hname : IsDeclarable name) : Carries TypeExpr.IsNamed (body.declare name) where
  vocabulary := h.vocabulary
  declarations := List.forall_mem_cons.mpr ⟨⟨hname, h.result⟩, h.declarations⟩
  result := by
    intro used hused
    rw [List.mem_singleton.mp hused]
    exact hname

end

/-! ## Along a node -/

theorem TypeExpr.isNamed_of_names_eq_nil {t : TypeExpr} (h : t.names = []) : t.IsNamed := by
  intro name hname
  rw [h] at hname
  cases hname

theorem TypeExpr.isNamed_union {ts : List TypeExpr} (h : ∀ t ∈ ts, t.IsNamed) :
    IsNamed (.union ts) := by
  intro name hname
  obtain ⟨t, ht, hname⟩ := TypeExpr.mem_namesOfAll.mp hname
  exact h t ht name hname

theorem TypeExpr.isNamed_union_dedupe {ts : List TypeExpr} (h : ∀ t ∈ ts, t.IsNamed) :
    IsNamed (.union (dedupe ts)) :=
  isNamed_union fun t ht => h t ((dedupe_spec ts).1 t ht)

theorem TypeExpr.IsNamed.array {t : TypeExpr} (h : t.IsNamed) : IsNamed (.array t) := h

theorem TypeExpr.IsNamed.record {t : TypeExpr} (h : t.IsNamed) : IsNamed (.record t) := h

theorem TypeExpr.IsNamed.alias {t : TypeExpr} (h : t.IsNamed) : DeclarationBody.IsNamed (.alias t) :=
  h

theorem isNamed_interface {properties : List Property} (h : ∀ p ∈ properties, p.IsNamed)
    (isOpen : Bool) : DeclarationBody.IsNamed (.interface properties isOpen) := h

theorem TypeExpr.IsNamed.nullable {t : TypeExpr} (h : t.IsNamed) : IsNamed (.union [t, .null]) := by
  refine isNamed_union ?_
  rw [List.forall_mem_cons, List.forall_mem_singleton]
  exact ⟨h, isNamed_of_names_eq_nil rfl⟩

/-- Whether no keyword of the constraints in a note has a comment end in it. -/
def HasQuietKeywords (note : Note) : Prop :=
  ∀ constraint ∈ note.constraints, holdsCommentEnd constraint.1.toList = false

/-- No value of a constraint ends the comment that it stands in; only a keyword is written as it
is. -/
theorem HasQuietKeywords.isQuiet {note : Note} (h : HasQuietKeywords note) : IsQuiet note := by
  intro constraint hconstraint value
  unfold constraintLine
  split
  · rw [holdsCommentEnd_cons (by simp), h constraint hconstraint]
  · split
    · exact holdsCommentEnd_commentLine _
    · exact holdsCommentEnd_commentLine _
  · exact holdsCommentEnd_commentLine _

theorem hasQuietKeywords_of_isRegular {node : SchemaNode} (h : node.IsRegular) :
    HasQuietKeywords node.note := by
  have hkeywords : ∀ keyword ∈ "integer" :: Schema.constraintKeywords,
      holdsCommentEnd keyword.toList = false := by decide +kernel
  intro constraint hconstraint
  have hmem : constraint.1 ∈ node.note.constraints.keys := List.mem_map_of_mem hconstraint
  exact hkeywords _ (List.mem_cons.mpr (h.keyword _ hmem))

section
open SchemaNode

mutual
theorem carries_refer (node : SchemaNode) (hint : String) (names : Sanitizer)
    (hv : names.vocabulary = vocabulary) (hnode : node.Everywhere IsRegular) :
    Carries TypeExpr.IsNamed (refer node hint names) := by
  have hname := isDeclarable_claim hv hint
  match node with
  | .object fields isOpen note =>
    by_cases hempty : fields = [] ∧ isOpen = false
    · obtain ⟨rfl, rfl⟩ := hempty
      rw [refer]
      exact carries_plain hv (TypeExpr.isNamed_of_names_eq_nil rfl)
    · rw [refer]
      · have hfields := carries_referFields fields (names.claim hint).1 (names.claim hint).2 hv
          (everywhere_object.mp hnode).2
        exact (hfields.map fun _ hps => isNamed_interface hps isOpen).declare hname
      · rintro rfl rfl
        exact hempty ⟨rfl, rfl⟩
  | .union members note =>
    have hmembers := (everywhere_union.mp hnode).2
    rw [refer]
    split
    · next only honly =>
      have hlt := sizeOf_lt_of_nullableMember? honly
      have hmem := mem_of_nullableMember? honly
      exact (carries_refer only hint names hv (hmembers only hmem)).map fun _ ht => ht.nullable
    · split
      · have hparts := carries_referMembers members (names.claim hint).1 1 (names.claim hint).2 hv
          hmembers
        exact (hparts.map fun _ hts => (TypeExpr.isNamed_union_dedupe hts).alias).declare hname
      · exact (carries_referMembers members hint 1 names hv hmembers).map
          fun _ hts => TypeExpr.isNamed_union_dedupe hts
  | .array items note =>
    have hitems := (everywhere_array.mp hnode).2
    rw [refer]
    split
    · have hbody := carries_refer items ((names.claim hint).1 ++ "Item") (names.claim hint).2 hv hitems
      exact (hbody.map fun _ ht => ht.array.alias).declare hname
    · exact (carries_refer items _ names hv hitems).map fun _ ht => ht.array
  | .record values note =>
    have hvalues := (everywhere_record.mp hnode).2
    rw [refer]
    split
    · have hbody := carries_refer values ((names.claim hint).1 ++ "Value") (names.claim hint).2 hv
        hvalues
      exact (hbody.map fun _ ht => ht.record.alias).declare hname
    · exact (carries_refer values _ names hv hvalues).map fun _ ht => ht.record
  | .any _ | .null _ | .primitive _ _ | .literal _ _ =>
    rw [refer]
    exact carries_plain hv (TypeExpr.isNamed_of_names_eq_nil rfl)
termination_by sizeOf node

theorem carries_referFields (fields : List (Member SchemaNode)) (parent : String)
    (names : Sanitizer) (hv : names.vocabulary = vocabulary)
    (hfields : ∀ field ∈ fields, field.type.Everywhere IsRegular) :
    Carries (fun ps => ∀ p ∈ ps, Property.IsNamed p) (referFields fields parent names) := by
  match fields with
  | [] =>
    rw [referFields]
    exact carries_plain hv (by simp)
  | ⟨name, optional, node⟩ :: rest =>
    rw [List.forall_mem_cons] at hfields
    have hnode := carries_refer node (fieldHint parent name) names hv hfields.1
    have hrest := carries_referFields rest parent _ hnode.vocabulary hfields.2
    have hkeywords := hasQuietKeywords_of_isRegular (hfields.1 node (self_mem_subnodes node))
    rw [referFields]
    exact hnode.cons hrest fun _ ht => ⟨ht, hkeywords.isQuiet⟩
termination_by sizeOf fields

theorem carries_referMembers (members : List SchemaNode) (name : String) (number : Nat)
    (names : Sanitizer) (hv : names.vocabulary = vocabulary)
    (hmembers : ∀ member ∈ members, member.Everywhere IsRegular) :
    Carries (fun ts => ∀ t ∈ ts, TypeExpr.IsNamed t) (referMembers members name number names) := by
  match members with
  | [] =>
    rw [referMembers]
    exact carries_plain hv (by simp)
  | member :: rest =>
    rw [List.forall_mem_cons] at hmembers
    have hmember := carries_refer member (Naming.numbered name number) names hv hmembers.1
    have hrest := carries_referMembers rest name (number + 1) _ hmember.vocabulary hmembers.2
    rw [referMembers]
    exact hmember.cons hrest (f := id) fun _ ht => ht
termination_by sizeOf members
end

theorem carries_bodyOf (node : SchemaNode) (name : String) (names : Sanitizer)
    (hv : names.vocabulary = vocabulary) (hnode : node.Everywhere IsRegular) :
    Carries DeclarationBody.IsNamed (bodyOf node name names) := by
  cases node with
  | object fields isOpen note =>
    exact (carries_referFields fields name names hv (everywhere_object.mp hnode).2).map
      fun _ hps => isNamed_interface hps isOpen
  | union members note =>
    exact (carries_referMembers members name 1 names hv (everywhere_union.mp hnode).2).map
      fun _ hts => (TypeExpr.isNamed_union_dedupe hts).alias
  | array items note =>
    exact (carries_refer items _ names hv (everywhere_array.mp hnode).2).map
      fun _ ht => ht.array.alias
  | record values note =>
    exact (carries_refer values _ names hv (everywhere_record.mp hnode).2).map
      fun _ ht => ht.record.alias
  | _ => exact carries_plain hv (TypeExpr.isNamed_of_names_eq_nil rfl).alias

/-- All declarations for a regular node have names that can be declared and notes of nodes. -/
theorem isNamed_declarations {node : SchemaNode} (hnode : node.Everywhere IsRegular)
    (name : String) : ∀ d ∈ declarations node name, d.IsNamed := by
  have hbody := carries_bodyOf node (sanitizer.claim name).1 (sanitizer.claim name).2 rfl hnode
  have hname : IsDeclarable (sanitizer.claim name).1 := isDeclarable_claim rfl name
  exact (hbody.declare hname).declarations

end

/-! ## Texts -/

variable {config : Config}

theorem holdsCommentEnd_extraLines (config : Config) (doc : List String) :
    ∀ line ∈ extraLines config doc, holdsCommentEnd line = false := by
  rw [extraLines]
  split
  · rw [List.forall_mem_map]
    exact fun line _ => holdsCommentEnd_commentLine line.toList
  · simp

theorem holdsCommentEnd_noteLines {note : Note} (hnote : IsQuiet note) {lines : List Line}
    (h : noteLines config note = .ok lines) : ∀ line ∈ lines, holdsCommentEnd line = false := by
  rw [noteLines] at h
  split at h
  · obtain ⟨described, hdescribed, rfl⟩ := exists_of_map_eq_ok h
    rw [List.forall_mem_append, List.forall_mem_map]
    refine ⟨?_, fun constraint hconstraint => hnote constraint hconstraint _⟩
    unfold descriptionLines at hdescribed
    split at hdescribed
    · split at hdescribed
      · cases hdescribed
        rw [List.forall_mem_map]
        exact fun line _ => holdsCommentEnd_commentLine line
      · cases hdescribed
    · cases hdescribed
      simp
  · cases h
    simp

theorem TypeExpr.IsNamed.isInert {t : TypeExpr} (h : t.IsNamed) (depth : Nat) :
    IsInert depth t.chars :=
  isInert_chars t (fun name hname => (h name hname).isWord) depth

theorem isInside_propertyTexts {properties : List Property}
    (hproperties : ∀ p ∈ properties, p.IsNamed) {texts : List PropertyText}
    (h : propertyTexts config properties = .ok texts) : ∀ text ∈ texts, text.IsInside := by
  induction properties generalizing texts with
  | nil =>
    cases h
    simp
  | cons p rest ih =>
    rw [List.forall_mem_cons] at hproperties
    obtain ⟨doc, more, hdoc, hmore, rfl⟩ := exists_of_propertyTexts_cons h
    refine List.forall_mem_cons.mpr ⟨⟨?_, isInert_propertyKey p.name, ?_⟩, ih hproperties.2 hmore⟩
    · exact holdsCommentEnd_noteLines hproperties.1.note hdoc
    · exact hproperties.1.type.isInert 1

theorem isProper_declarationText {d : Declaration} (hd : d.IsNamed) {doc : List Line}
    (hdoc : ∀ line ∈ doc, holdsCommentEnd line = false) {text : DeclarationText}
    (h : declarationText config doc d = .ok text) : text.IsProper ∧ IsLineName text.name := by
  have hword := hd.name.isWord
  have hnamed := hd.body
  obtain ⟨form, rfl, ⟨properties, isOpen, texts, hbody, htexts, rfl⟩ | ⟨t, hbody, rfl⟩⟩ :=
    exists_of_declarationText h
  · rw [hbody] at hnamed
    refine ⟨⟨hword.ne_nil, hword.isWordPart, hdoc, isInside_propertyTexts hnamed htexts, ?_⟩,
      hd.name.isLineName⟩
    intro type htype
    rw [eq_any_of_mem_openIndex? htype]
    exact isInert_of_isPlain (List.all_eq_true.mp (by decide +kernel))
  · rw [hbody] at hnamed
    exact ⟨⟨hword.ne_nil, hword.isWordPart, hdoc, TypeExpr.IsNamed.isInert hnamed 0⟩,
      hd.name.isLineName⟩

theorem isProper_declarationTexts {ds : List Declaration} (hds : ∀ d ∈ ds, d.IsNamed)
    {doc : List Line} (hdoc : ∀ line ∈ doc, holdsCommentEnd line = false)
    {texts : List DeclarationText} (h : declarationTexts config doc ds = .ok texts) :
    ∀ text ∈ texts, text.IsProper ∧ IsLineName text.name := by
  induction ds generalizing doc texts with
  | nil =>
    cases h
    simp
  | cons d rest ih =>
    rw [List.forall_mem_cons] at hds
    obtain ⟨text, more, htext, hmore, rfl⟩ := exists_of_declarationTexts_cons h
    exact List.forall_mem_cons.mpr ⟨isProper_declarationText hds.1 hdoc htext,
      ih hds.2 (by simp) hmore⟩

theorem eq_space_of_mem_indent {indent : Line} (h : config.indent = .ok indent) :
    ∀ c ∈ indent, c = ' ' := by
  rw [Config.indent] at h
  split at h
  · split at h
    · cases h
    · split at h
      · cases h
      · cases h
        exact fun c hc => (List.mem_replicate.mp hc).2
  · cases h
    exact fun c hc => (List.mem_replicate.mp hc).2
  · cases h

/-! ## Sources -/

/-- The source for a regular node declares the declared names. -/
theorem declares_nodeSource {node : SchemaNode} (hnode : node.Everywhere SchemaNode.IsRegular)
    {name source : String} {doc : List String}
    (h : nodeSource config node name doc = .ok source) :
    Declares source.toList (declaredNames node name) := by
  obtain ⟨lines, texts, indent, hlines, htexts, hindent, rfl⟩ := exists_of_nodeSource h
  have hkeywords := hasQuietKeywords_of_isRegular (hnode node (SchemaNode.self_mem_subnodes node))
  have hdoc : ∀ line ∈ lines ++ extraLines config doc, holdsCommentEnd line = false :=
    List.forall_mem_append.mpr
      ⟨holdsCommentEnd_noteLines hkeywords.isQuiet hlines, holdsCommentEnd_extraLines config doc⟩
  have hproper := isProper_declarationTexts (isNamed_declarations hnode name) hdoc htexts
  rw [String.toList_ofList, declaredNames, ← names_declarationTexts htexts]
  exact declares_declarationSource (eq_space_of_mem_indent hindent) hproper

/-- The source of an object type whose members refer to words declares its name. -/
theorem declares_objectTypeSource {name source : String} (hname : IsDeclarable name)
    {members : List (String × String)} (hmembers : ∀ m ∈ members, ∀ c ∈ m.2.toList, isWordPart c)
    {doc : List String} (h : objectTypeSource config name members doc = .ok source) :
    Declares source.toList [name] := by
  obtain ⟨indent, hindent, rfl⟩ := exists_of_map_eq_ok h
  let text : DeclarationText :=
    ⟨extraLines config doc, name.toList, .objectAlias (members.map fun member =>
      ⟨[], (Naming.propertyKey member.1).toList, false, member.2.toList⟩) none⟩
  have htext : ∀ d ∈ [text], d.IsProper ∧ IsLineName d.name := by
    rw [List.forall_mem_singleton]
    refine ⟨⟨hname.isWord.ne_nil, hname.isWord.isWordPart, holdsCommentEnd_extraLines config doc,
      ?_, by simp⟩, hname.isLineName⟩
    rw [List.forall_mem_map]
    exact fun m hm => ⟨by simp, isInert_propertyKey m.1,
      isInert_word (hmembers m hm) fun h => by cases h⟩
  have hdeclares := declares_declarationSource (eq_space_of_mem_indent hindent) htext
  rw [String.toList_ofList]
  simpa [text] using hdeclares

/-! ## Files -/

/-- Whether the header exports nothing and leaves no comment or string open. -/
def HasQuietHeader (config : Config) : Prop :=
  (Reader.read {} config.header.plain.toList).endLine = {}

/-- A file exports what its body declares. -/
theorem topLevelExports_file (hheader : HasQuietHeader config) {body text : String}
    {names : List String} (hbody : Declares body.toList names) (h : file config body = .ok text) :
    topLevelExports text = names := by
  have hread : (Reader.read {} (Text.trimNewlines body.toList)).endLine.names = names := by
    have htrimmed := hbody.trimNewlines.read []
    rw [List.nil_append] at htrimmed
    exact congrArg Reader.names htrimmed
  rw [file] at h
  split at h
  · split at h
    · next header hconfig =>
      obtain rfl := Except.ok.inj h
      rw [HasQuietHeader, hconfig] at hheader
      have hquiet : (Reader.read {} (Text.trimNewlines header.toList)).endLine = {} :=
        (Reader.endLine_read_trimNewlines rfl header.toList).trans hheader
      have hfront : (Reader.read {} (Text.trimNewlines header.toList)).endLine.endLine = {} := by
        rw [Reader.endLine_endLine, hquiet]
      rw [topLevelExports_formatChars, Reader.read_append]
      have hrest := hread
      rw [← hfront] at hrest
      exact hrest
    · cases h
  · obtain rfl := Except.ok.inj h
    rw [topLevelExports_formatChars]
    exact hread

end SchemaTypings.Typescript
