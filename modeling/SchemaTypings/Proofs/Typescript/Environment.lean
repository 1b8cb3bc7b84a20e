/-
  SchemaTypings.Proofs.Typescript.Environment

  Declarations read as an environment: each name with the object type or the expression that it is
  declared as, and the type that is left when names are unfolded.
-/
import SchemaTypings.Proofs.Naming.KeyReader
import SchemaTypings.Proofs.Typescript.Shape
import SchemaTypings.Proofs.Typescript.TypeReader
import SchemaTypings.Typescript.Printer

namespace SchemaTypings.Typescript

/-- What a name is declared as. -/
inductive TypeBody where
  | object (fields : List (Member TypeExpr)) (isOpen : Bool)
  | alias (type : TypeExpr)

/-- Declared names with what they are declared as. -/
abbrev Environment := Entries TypeBody

/-! ## Reading -/

/-- The field that a property is read as. -/
def readProperty (p : PropertyText) : Option (Member TypeExpr) :=
  match Naming.readKey '\'' p.key, TypeExpr.read p.type with
  | some key, some type => some ⟨String.ofList key, p.optional, type⟩
  | _, _ => none

/-- The fields that properties are read as. -/
def readProperties : List PropertyText → Option (List (Member TypeExpr))
  | [] => some []
  | p :: rest =>
    match readProperty p with
    | some field => (readProperties rest).map (field :: ·)
    | none => none

/-- Whether an object type is open: only an index signature of any type is known. -/
def readIndex : Option Line → Option Bool
  | none => some false
  | some type =>
    match TypeExpr.read type with
    | some .any => some true
    | _ => none

/-- The object type that properties and an index signature are read as. -/
def readObject (properties : List PropertyText) (index? : Option Line) : Option TypeBody :=
  match readProperties properties, readIndex index? with
  | some fields, some isOpen => some (.object fields isOpen)
  | _, _ => none

/-- What a declaration is read as. -/
def readForm : DeclarationForm → Option TypeBody
  | .interface properties index? => readObject properties index?
  | .objectAlias properties index? => readObject properties index?
  | .alias type => (TypeExpr.read type).map .alias

/-- The environment that declarations are read as. -/
def readDeclarations : List DeclarationText → Option Environment
  | [] => some []
  | d :: rest =>
    match readForm d.form with
    | some body => (readDeclarations rest).map ((String.ofList d.name, body) :: ·)
    | none => none

/-! ## Names -/

mutual
/-- The names that an expression uses. -/
def TypeExpr.names : TypeExpr → List String
  | .named name => [name]
  | .array t => t.names
  | .record t => t.names
  | .union ts => TypeExpr.namesOfAll ts
  | _ => []

/-- The names that the expressions use. -/
def TypeExpr.namesOfAll : List TypeExpr → List String
  | [] => []
  | t :: rest => t.names ++ TypeExpr.namesOfAll rest
end

/-- The names that a declared type uses. -/
def TypeBody.names : TypeBody → List String
  | .object fields _ => fields.flatMap (·.type.names)
  | .alias t => t.names

/-- Whether all used names are declared. -/
def Environment.IsClosed (env : Environment) : Prop :=
  ∀ name body, (name, body) ∈ env → ∀ used ∈ body.names, used ∈ env.keys

/-! ## Unfolding -/

section
variable (look : String → Option Shape)

mutual
/-- The type that an expression stands for if names stand for what `look` gives. -/
def TypeExpr.unfold : TypeExpr → Option Shape
  | .any => some [.any]
  | .null => some [.null]
  | .primitive kind => some [.primitive kind]
  | .literal value => some [.ofLiteral value]
  | .emptyObject => some [.object [] false]
  | .named name => look name
  | .array t => t.unfold.map fun s => [.array s]
  | .record t => t.unfold.map fun s => [.record s]
  | .union ts => TypeExpr.unfoldAll ts

/-- The variants of all the expressions. -/
def TypeExpr.unfoldAll : List TypeExpr → Option Shape
  | [] => some []
  | t :: rest =>
    match t.unfold with
    | some s => (TypeExpr.unfoldAll rest).map (s ++ ·)
    | none => none
end

/-- The fields with their types. -/
def unfoldFields : List (Member TypeExpr) → Option (List (Member Shape))
  | [] => some []
  | ⟨name, optional, type⟩ :: rest =>
    match type.unfold look with
    | some s => (unfoldFields rest).map (⟨name, optional, s⟩ :: ·)
    | none => none

/-- The type that a declared type stands for. -/
def TypeBody.unfold : TypeBody → Option Shape
  | .object fields isOpen => (unfoldFields look fields).map fun fs => [.object fs isOpen]
  | .alias t => t.unfold look

end

namespace Environment

/-- The type that a name stands for.  The first argument bounds how many names there may be inside
one another. -/
def unfoldName (env : Environment) : Nat → String → Option Shape
  | 0, _ => none
  | steps + 1, name =>
    match env.get? name with
    | some body => body.unfold (unfoldName env steps)
    | none => none

/-- The type that the first declared name stands for.  Names that stand for themselves have none, so
that no more can be inside one another than are declared. -/
def unfoldFirst (env : Environment) : Option Shape :=
  match env with
  | [] => none
  | (name, _) :: _ => env.unfoldName env.length name

end Environment

/-! ## Flat expressions -/

namespace TypeExpr

theorem unfoldAll_append (look : String → Option Shape) (ts us : List TypeExpr) :
    unfoldAll look (ts ++ us) =
      (unfoldAll look ts).bind fun s => (unfoldAll look us).map (s ++ ·) := by
  induction ts with
  | nil => simp [unfoldAll]
  | cons t rest ih =>
    rw [List.cons_append, unfoldAll, unfoldAll, ih]
    cases t.unfold look with
    | none => rfl
    | some s =>
      cases unfoldAll look rest with
      | none => rfl
      | some s' => simp [Option.map_map, Function.comp_def]

theorem unfoldAll_singleton (look : String → Option Shape) (t : TypeExpr) :
    unfoldAll look [t] = t.unfold look := by
  rw [unfoldAll, unfoldAll]
  cases t.unfold look with
  | none => rfl
  | some s => simp

theorem unfold_ofParts (look : String → Option Shape) (ts : List TypeExpr) :
    (ofParts ts).unfold look = unfoldAll look ts := by
  unfold ofParts
  split
  · exact (unfoldAll_singleton look _).symm
  · rfl

theorem unfoldAll_parts (look : String → Option Shape) (t : TypeExpr) :
    unfoldAll look t.parts = t.unfold look := by
  cases t with
  | union ts => rfl
  | _ => exact unfoldAll_singleton look _

mutual
/-- Taking unions in unions apart does not change the type. -/
theorem unfold_flat (look : String → Option Shape) : (t : TypeExpr) →
    t.flat.unfold look = t.unfold look
  | .array t => by rw [flat, unfold, unfold, unfold_flat look t]
  | .record t => by rw [flat, unfold, unfold, unfold_flat look t]
  | .union ts => by rw [flat, unfold_ofParts, unfold, unfoldAll_flatAll look ts]
  | .literal .null => rfl
  | .literal (.bool _) | .literal (.int _) | .literal (.float _) | .literal (.str _)
  | .literal (.arr _) | .literal (.obj _) => rfl
  | .any | .null | .primitive _ | .emptyObject | .named _ => rfl

theorem unfoldAll_flatAll (look : String → Option Shape) : (ts : List TypeExpr) →
    unfoldAll look (flatAll ts) = unfoldAll look ts
  | [] => rfl
  | t :: rest => by
    rw [flatAll, unfoldAll_append, unfoldAll_parts, unfold_flat look t,
      unfoldAll_flatAll look rest, unfoldAll]
    cases t.unfold look <;> rfl
end

theorem namesOfAll_append (ts us : List TypeExpr) :
    namesOfAll (ts ++ us) = namesOfAll ts ++ namesOfAll us := by
  induction ts with
  | nil => rfl
  | cons t rest ih => rw [List.cons_append, namesOfAll, ih, namesOfAll, List.append_assoc]

theorem names_ofParts (ts : List TypeExpr) : (ofParts ts).names = namesOfAll ts := by
  unfold ofParts
  split
  · rw [namesOfAll, namesOfAll, List.append_nil]
  · rfl

theorem namesOfAll_parts (t : TypeExpr) : namesOfAll t.parts = t.names := by
  cases t with
  | union ts => rfl
  | _ => exact List.append_nil _

mutual
/-- Taking unions in unions apart does not change which names are used. -/
theorem names_flat : (t : TypeExpr) → t.flat.names = t.names
  | .array t => by rw [flat, names, names, names_flat t]
  | .record t => by rw [flat, names, names, names_flat t]
  | .union ts => by rw [flat, names_ofParts, names, namesOfAll_flatAll ts]
  | .literal .null => rfl
  | .literal (.bool _) | .literal (.int _) | .literal (.float _) | .literal (.str _)
  | .literal (.arr _) | .literal (.obj _) => rfl
  | .any | .null | .primitive _ | .emptyObject | .named _ => rfl

theorem namesOfAll_flatAll : (ts : List TypeExpr) → namesOfAll (flatAll ts) = namesOfAll ts
  | [] => rfl
  | t :: rest => by
    rw [flatAll, namesOfAll_append, namesOfAll_parts, names_flat t, namesOfAll_flatAll rest,
      namesOfAll]
end

theorem mem_namesOfAll {ts : List TypeExpr} {name : String} :
    name ∈ namesOfAll ts ↔ ∃ t ∈ ts, name ∈ t.names := by
  induction ts with
  | nil => simp [namesOfAll]
  | cons t rest ih => simp [namesOfAll, ih]

end TypeExpr

/-! ## Declarations -/

/-- The name that a field's key is read as. -/
def fieldNameAsRead (name : String) : String := String.ofList (Naming.nameAsRead name.toList)

/-- The field that a property is meant to be read as. -/
def Property.read (p : Property) : Member TypeExpr :=
  ⟨fieldNameAsRead p.name, p.optional, p.type.flat⟩

/-- What a declaration is meant to be read as. -/
def DeclarationBody.read : DeclarationBody → TypeBody
  | .interface properties isOpen => .object (properties.map Property.read) isOpen
  | .alias t => .alias t.flat

/-- The entry of an environment that a declaration is meant to be read as. -/
def Declaration.read (d : Declaration) : String × TypeBody := (d.name, d.body.read)

/-- The expressions of a declaration. -/
def DeclarationBody.types : DeclarationBody → List TypeExpr
  | .interface properties _ => properties.map Property.type
  | .alias t => [t]

theorem names_read (body : DeclarationBody) :
    body.read.names = body.types.flatMap TypeExpr.names := by
  rcases body with ⟨properties, isOpen⟩ | t
  · rw [DeclarationBody.read, TypeBody.names, DeclarationBody.types, List.flatMap_map,
      List.flatMap_map]
    exact List.flatMap_congr fun p _ => TypeExpr.names_flat p.type
  · rw [DeclarationBody.read, TypeBody.names, DeclarationBody.types, TypeExpr.names_flat,
      List.flatMap_singleton]

variable {config : Config}

theorem readProperties_of_propertyTexts {properties : List Property} {texts : List PropertyText}
    (hreadable : ∀ p ∈ properties, p.type.IsReadable)
    (h : propertyTexts config properties = .ok texts) :
    readProperties texts = some (properties.map Property.read) := by
  induction properties generalizing texts with
  | nil =>
    cases h
    rfl
  | cons p rest ih =>
    rw [List.forall_mem_cons] at hreadable
    obtain ⟨doc, more, -, hmore, rfl⟩ := exists_of_propertyTexts_cons h
    have hkey : Naming.readKey '\'' (Naming.propertyKey p.name).toList =
        some (Naming.nameAsRead p.name.toList) := by
      rw [Naming.propertyKey, String.toList_ofList]
      exact Naming.readKey_propertyKeyChars (.inl rfl) p.name.toList
    rw [readProperties, readProperty, hkey, TypeExpr.read_chars hreadable.1]
    simp only
    rw [ih hreadable.2 hmore]
    rfl

/-- A declaration with readable expressions is read as what it is meant for. -/
theorem readForm_of_declarationText {doc : List Line} {d : Declaration} {text : DeclarationText}
    (hreadable : ∀ t ∈ d.body.types, t.IsReadable)
    (h : declarationText config doc d = .ok text) :
    String.ofList text.name = d.name ∧ readForm text.form = some d.body.read := by
  obtain ⟨form, rfl, ⟨properties, isOpen, texts, hbody, htexts, rfl⟩ | ⟨t, hbody, rfl⟩⟩ :=
    exists_of_declarationText h
  · rw [hbody] at hreadable ⊢
    refine ⟨String.ofList_toList, ?_⟩
    have hfields := readProperties_of_propertyTexts (by simpa [DeclarationBody.types] using hreadable)
      htexts
    have hindex : readIndex (openIndex? isOpen) = some isOpen := by
      cases isOpen with
      | false => rfl
      | true =>
        have hread : TypeExpr.read "any".toList = some .any := TypeExpr.read_chars (t := .any) trivial
        rw [openIndex?, if_pos rfl, readIndex, hread]
    rw [readForm, readObject, hfields, hindex]
    rfl
  · rw [hbody] at hreadable ⊢
    refine ⟨String.ofList_toList, ?_⟩
    rw [readForm, TypeExpr.read_chars (hreadable t (List.mem_singleton_self t))]
    rfl

/-- Declarations with readable expressions are read as what they are meant for. -/
theorem readDeclarations_of_declarationTexts {doc : List Line} {ds : List Declaration}
    {texts : List DeclarationText} (hreadable : ∀ d ∈ ds, ∀ t ∈ d.body.types, t.IsReadable)
    (h : declarationTexts config doc ds = .ok texts) :
    readDeclarations texts = some (ds.map Declaration.read) := by
  induction ds generalizing doc texts with
  | nil =>
    cases h
    rfl
  | cons d rest ih =>
    rw [List.forall_mem_cons] at hreadable
    obtain ⟨text, more, htext, hmore, rfl⟩ := exists_of_declarationTexts_cons h
    obtain ⟨hname, hform⟩ := readForm_of_declarationText hreadable.1 htext
    rw [readDeclarations, hform]
    simp only
    rw [ih hreadable.2 hmore, hname]
    rfl

/-- Declarations are written under their names. -/
theorem names_declarationTexts {lines : List Line} {ds : List Declaration}
    {texts : List DeclarationText} (h : declarationTexts config lines ds = .ok texts) :
    texts.map (fun d => String.ofList d.name) = ds.map Declaration.name := by
  induction ds generalizing lines texts with
  | nil =>
    cases h
    rfl
  | cons d rest ih =>
    obtain ⟨text, more, htext, hmore, rfl⟩ := exists_of_declarationTexts_cons h
    obtain ⟨form, rfl, -⟩ := exists_of_declarationText htext
    rw [List.map_cons, List.map_cons, ih hmore, String.ofList_toList]

end SchemaTypings.Typescript
