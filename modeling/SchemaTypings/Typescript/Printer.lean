/-
  SchemaTypings.Typescript.Printer

  The source text of declarations: documentation, head, one property a line, a blank line between
  two declarations.
-/
import SchemaTypings.Naming.PropertyKey
import SchemaTypings.Typescript.Comment
import SchemaTypings.Typescript.Declaration

namespace SchemaTypings.Typescript

/-- A property with its texts. -/
structure PropertyText where
  doc : List Line
  key : Line
  optional : Bool
  type : Line

/-- How a declaration is introduced and what it declares.  An object type may have the type of an
index signature. -/
inductive DeclarationForm where
  | interface (properties : List PropertyText) (index? : Option Line)
  /-- An object type under a type alias. -/
  | objectAlias (properties : List PropertyText) (index? : Option Line)
  | alias (type : Line)

/-- A declaration with its texts. -/
structure DeclarationText where
  doc : List Line
  name : Line
  form : DeclarationForm

/-! ## Lines -/

/-- The lines of a property. -/
def PropertyText.lines (indent : Line) (p : PropertyText) : List Line :=
  ((docBlock p.doc).map (indent ++ ·)) ++
    [indent ++ p.key ++ (if p.optional then ['?'] else []) ++ ':' :: ' ' :: p.type]

/-- The lines of an object type behind its head; without members it closes on the same line. -/
def objectLines (head indent : Line) (properties : List PropertyText) (index? : Option Line) :
    List Line :=
  if properties.isEmpty && index?.isNone then [head ++ ['\x7b', '\x7d']]
  else
    (head ++ ['\x7b']) :: properties.flatMap (·.lines indent) ++
      (index?.map fun type => indent ++ "[k: string]: ".toList ++ type).toList ++ [['\x7d']]

/-- The lines of a declaration. -/
def DeclarationText.lines (indent : Line) (d : DeclarationText) : List Line :=
  docBlock d.doc ++
    match d.form with
    | .interface properties index? =>
      objectLines ("export interface ".toList ++ d.name ++ [' ']) indent properties index?
    | .objectAlias properties index? =>
      objectLines ("export type ".toList ++ d.name ++ " = ".toList) indent properties index?
    | .alias type => ["export type ".toList ++ d.name ++ " = ".toList ++ type]

/-- Lines with a line feed behind each. -/
def endLines (ls : List Line) : List Char := ls.flatMap (· ++ ['\n'])

/-- The lines of declarations, with an empty line between two. -/
def declarationLines (indent : Line) : List DeclarationText → List Line
  | [] => []
  | [d] => d.lines indent
  | d :: next :: rest => d.lines indent ++ [] :: declarationLines indent (next :: rest)

/-- The source text of declarations. -/
def declarationSource (indent : Line) (ds : List DeclarationText) : List Char :=
  endLines (declarationLines indent ds)

/-! ## Texts -/

/-- The texts of properties. -/
def propertyTexts (config : Config) : List Property → Except Fault (List PropertyText)
  | [] => .ok []
  | p :: rest =>
    match noteLines config p.note with
    | .error e => .error e
    | .ok doc =>
      (propertyTexts config rest).map
        (⟨doc, (Naming.propertyKey p.name).toList, p.optional, p.type.chars⟩ :: ·)

/-- The type of the index signature of an open object. -/
def openIndex? (isOpen : Bool) : Option Line := if isOpen then some "any".toList else none

/-- The texts of a declaration with the given documentation. -/
def declarationText (config : Config) (doc : List Line) (d : Declaration) :
    Except Fault DeclarationText :=
  match d.body with
  | .interface properties isOpen =>
    (propertyTexts config properties).map fun ps =>
      ⟨doc, d.name.toList, .interface ps (openIndex? isOpen)⟩
  | .alias type => .ok ⟨doc, d.name.toList, .alias type.chars⟩

/-- The texts of declarations; the documentation belongs to the first. -/
def declarationTexts (config : Config) (doc : List Line) :
    List Declaration → Except Fault (List DeclarationText)
  | [] => .ok []
  | d :: rest =>
    match declarationText config doc d with
    | .error e => .error e
    | .ok text => (declarationTexts config [] rest).map (text :: ·)

/-- The source of the declarations for a node, its own one named `name` and documented by the node's
note and the extra lines.  Integers of any size are spelled out. -/
def nodeSource (config : Config) (node : SchemaNode) (name : String) (doc : List String) :
    Except Fault String :=
  match noteLines config node.note with
  | .error e => .error e
  | .ok lines =>
    match declarationTexts config (lines ++ extraLines config doc) (declarations node name) with
    | .error e => .error e
    | .ok texts => config.indent.map fun indent => String.ofList (declarationSource indent texts)

/-! ## What cannot be written -/

/-- The failure of a literal type, if it has no text. -/
def checkLiteral (value : Json) : Except Fault Unit := (formatLiteral value).map fun _ => ()

/-- The failure of a note, if its lines cannot be written. -/
def checkNote (config : Config) (note : Note) : Except Fault Unit :=
  match noteLines config note with
  | .error e => .error e
  | .ok _ =>
    if config.writesComments && !note.constraints.all fun e => e.2.isWritable then
      .error .numeralTooLong
    else .ok ()

mutual
/-- The first failure in a node, in the order in which its parts are written: of a field the type
comes before the note. -/
def checkNode (config : Config) : SchemaNode → Except Fault Unit
  | .literal value _ => checkLiteral value
  | .object fields _ _ => checkFields config fields
  | .array items _ => checkNode config items
  | .record values _ => checkNode config values
  | .union members _ => checkMembers config members
  | _ => .ok ()

/-- The first failure in fields. -/
def checkFields (config : Config) : List (Member SchemaNode) → Except Fault Unit
  | [] => .ok ()
  | field :: rest =>
    match checkField config field with
    | .error e => .error e
    | .ok _ => checkFields config rest

/-- The first failure in a field. -/
def checkField (config : Config) : Member SchemaNode → Except Fault Unit
  | ⟨_, _, node⟩ =>
    match checkNode config node with
    | .error e => .error e
    | .ok _ => checkNote config node.note

/-- The first failure in the members of a union. -/
def checkMembers (config : Config) : List SchemaNode → Except Fault Unit
  | [] => .ok ()
  | member :: rest =>
    match checkNode config member with
    | .error e => .error e
    | .ok _ => checkMembers config rest
end

/-- The source that is written for a node: its declarations, where its literals and notes can be
written. -/
def typeSource (config : Config) (node : SchemaNode) (name : String) (doc : List String) :
    Except Fault String :=
  match checkNote config node.note with
  | .error e => .error e
  | .ok _ =>
    match checkNode config node with
    | .error e => .error e
    | .ok _ => nodeSource config node name doc

/-- The source of an object type whose members refer to named types. -/
def objectTypeSource (config : Config) (name : String) (members : List (String × String))
    (doc : List String) : Except Fault String :=
  config.indent.map fun indent =>
    let properties := members.map fun (key, type) =>
      (⟨[], (Naming.propertyKey key).toList, false, type.toList⟩ : PropertyText)
    String.ofList (declarationSource indent
      [⟨extraLines config doc, name.toList, .objectAlias properties none⟩])

/-! ## What was written -/

section
variable {config : Config} {doc : List Line}

/-- Texts of properties are that of the first and those of the rest. -/
theorem exists_of_propertyTexts_cons {p : Property} {rest : List Property}
    {texts : List PropertyText} (h : propertyTexts config (p :: rest) = .ok texts) :
    ∃ doc more, noteLines config p.note = .ok doc ∧ propertyTexts config rest = .ok more ∧
      texts = ⟨doc, (Naming.propertyKey p.name).toList, p.optional, p.type.chars⟩ :: more := by
  rw [propertyTexts] at h
  split at h
  · cases h
  · next doc hdoc =>
    obtain ⟨more, hmore, rfl⟩ := exists_of_map_eq_ok h
    exact ⟨doc, more, hdoc, hmore, rfl⟩

theorem eq_any_of_mem_openIndex? {isOpen : Bool} {type : Line} (h : type ∈ openIndex? isOpen) :
    type = "any".toList := by
  cases isOpen with
  | true => exact (Option.some.inj h).symm
  | false => cases h

/-- The text of a declaration has the form of the body. -/
theorem exists_of_declarationText {d : Declaration} {text : DeclarationText}
    (h : declarationText config doc d = .ok text) :
    ∃ form, text = ⟨doc, d.name.toList, form⟩ ∧
      ((∃ properties isOpen texts, d.body = .interface properties isOpen ∧
          propertyTexts config properties = .ok texts ∧
          form = .interface texts (openIndex? isOpen)) ∨
        ∃ type, d.body = .alias type ∧ form = .alias type.chars) := by
  rw [declarationText] at h
  split at h
  · next properties isOpen hbody =>
    obtain ⟨texts, htexts, rfl⟩ := exists_of_map_eq_ok h
    exact ⟨_, rfl, .inl ⟨properties, isOpen, texts, hbody, htexts, rfl⟩⟩
  · next type hbody =>
    cases h
    exact ⟨_, rfl, .inr ⟨type, hbody, rfl⟩⟩

/-- Texts of declarations are that of the first, which has the documentation, and those of the
rest. -/
theorem exists_of_declarationTexts_cons {d : Declaration} {rest : List Declaration}
    {texts : List DeclarationText} (h : declarationTexts config doc (d :: rest) = .ok texts) :
    ∃ text more, declarationText config doc d = .ok text ∧
      declarationTexts config [] rest = .ok more ∧ texts = text :: more := by
  rw [declarationTexts] at h
  split at h
  · cases h
  · next text htext =>
    obtain ⟨more, hmore, rfl⟩ := exists_of_map_eq_ok h
    exact ⟨text, more, htext, hmore, rfl⟩

/-- The source of a node is that of the texts of its declarations. -/
theorem exists_of_nodeSource {node : SchemaNode} {name source : String} {doc : List String}
    (h : nodeSource config node name doc = .ok source) :
    ∃ lines texts indent, noteLines config node.note = .ok lines ∧
      declarationTexts config (lines ++ extraLines config doc) (declarations node name) = .ok texts ∧
      config.indent = .ok indent ∧ source = String.ofList (declarationSource indent texts) := by
  rw [nodeSource] at h
  split at h
  · cases h
  · next lines hlines =>
    split at h
    · cases h
    · next texts htexts =>
      obtain ⟨indent, hindent, rfl⟩ := exists_of_map_eq_ok h
      exact ⟨lines, texts, indent, hlines, htexts, hindent, rfl⟩

/-- What is written for a node is the source of its declarations, and all in it can be written. -/
theorem typeSource_eq_ok_iff {node : SchemaNode} {name source : String} {doc : List String} :
    typeSource config node name doc = .ok source ↔
      checkNote config node.note = .ok () ∧ checkNode config node = .ok () ∧
        nodeSource config node name doc = .ok source := by
  rw [typeSource]
  cases checkNote config node.note with
  | error e => simp
  | ok _ =>
    cases checkNode config node with
    | error e => simp
    | ok _ => simp

end

end SchemaTypings.Typescript
