/-
  SchemaTypings.Template.Shipped

  The page templates that come with the generator, rendered from a context of plain values.  They
  give the pages as they are before formatting.
-/
import SchemaTypings.Typescript.Page

namespace SchemaTypings.Template

open Typescript (Line Import InstanceImport PropertyText DeclarationText)

/-- The variables that a template is rendered with. -/
abbrev Context := Entries Json

/-- Why a template is not rendered. -/
inductive RenderError where
  | missingTemplate (name : String)
  /-- The template library tells the cause. -/
  | failed (cause : String)
  | fault (fault : Fault)

/-- The page templates. -/
inductive Shipped where
  | botIndex
  | declarations
  | integrationIndex
  | moduleIndex
  | secrets
deriving DecidableEq

namespace Shipped

/-- All page templates. -/
def all : List Shipped := [botIndex, declarations, integrationIndex, moduleIndex, secrets]

/-- The name of a page template. -/
def name : Shipped → String
  | .botIndex => "bot_index.ts.j2"
  | .declarations => "declarations.ts.j2"
  | .integrationIndex => "integration_index.ts.j2"
  | .moduleIndex => "module_index.ts.j2"
  | .secrets => "secrets.ts.j2"

/-! ## Values of the context -/

/-- The value of a variable. -/
def variableOf (context : Context) (name : String) : Except RenderError Json :=
  match context.get? name with
  | some value => .ok value
  | none => .error (.failed (Text.shown name ++ " is undefined"))

/-- The text of a variable. -/
def textOf (context : Context) (name : String) : Except RenderError Line :=
  (variableOf context name).map fun value => value.plain.toList

/-- The failure at a value without a part. -/
def withoutPart (value : Json) (name : String) : RenderError :=
  let owner := match value with
    | .null => "None"
    | _ => value.typeName ++ " object"
  .failed ("'" ++ owner ++ "' has no attribute '" ++ name ++ "'")

/-- A part of a value. -/
def partOf (value : Json) (name : String) : Except RenderError Json :=
  match value with
  | .obj entries =>
    match Entries.get? entries name with
    | some part => .ok part
    | none => .error (withoutPart value name)
  | _ => .error (withoutPart value name)

/-- The text of a part of a value. -/
def partText (value : Json) (name : String) : Except RenderError String :=
  (partOf value name).map Json.plain

/-- The members that a value is walked through by. -/
def members (value : Json) : Except RenderError (List Json) :=
  match value with
  | .arr items => .ok items
  | .obj entries => .ok (entries.map fun e => .str e.1)
  | .str s => .ok (s.toList.map fun c => .str (String.ofList [c]))
  | _ => .error (.fault .unfitOperand)

/-- The members of a variable. -/
def membersOf (context : Context) (name : String) : Except RenderError (List Json) := do
  members (← variableOf context name)

/-- The members of a value that may be empty. -/
def membersIfAny (value : Json) : Except RenderError (List Json) :=
  if value.isTruthy then members value else .ok []

/-- The texts of the members of a value that may be empty. -/
def textsIfAny (value : Json) : Except RenderError (List Line) :=
  (membersIfAny value).map fun items => items.map fun item => item.plain.toList

/-! ## Pages -/

/-- A property of a declaration. -/
def property (value : Json) : Except RenderError PropertyText := do
  let doc ← textsIfAny (← partOf value "doc")
  let key ← partText value "key"
  let optional ← partOf value "optional"
  let type ← partText value "type"
  return ⟨doc, key.toList, optional.isTruthy, type.toList⟩

/-- A declaration. -/
def declaration (value : Json) : Except RenderError DeclarationText := do
  let doc ← textsIfAny (← partOf value "doc")
  let kind ← partText value "kind"
  let name ← partText value "name"
  if kind = "alias" then
    let type ← partText value "type"
    return ⟨doc, name.toList, .alias type.toList⟩
  else
    let properties ← (← membersIfAny (← partOf value "fields")).mapM property
    let index ← partOf value "index_type"
    let index? := if index.isTruthy then some index.plain.toList else none
    return ⟨doc, name.toList,
      if kind = "interface" then .interface properties index? else .objectAlias properties index?⟩

/-- The source of declarations. -/
def renderDeclarations (context : Context) : Except RenderError (List Char) := do
  match ← membersOf context "declarations" with
  | [] => return []
  | values =>
    let texts ← values.mapM declaration
    return Typescript.declarationSource (← textOf context "indent") texts

/-- The index of an integration package. -/
def renderIntegrationIndex (context : Context) : Except RenderError (List Char) := do
  let header ← textOf context "header"
  let exports ← membersOf context "exports"
  return Typescript.endLines (Typescript.integrationIndexLines header (exports.map Json.plain))

/-- The accessor of secrets. -/
def renderSecrets (context : Context) : Except RenderError (List Char) := do
  let header ← textOf context "header"
  let indent ← textOf context "indent"
  let secrets ← (← membersOf context "secrets").mapM fun secret => do
    return (← partText secret "name", ← partText secret "env")
  return Text.unlines (Typescript.secretLines header indent secrets)

/-- The index of a bot. -/
def renderBotIndex (context : Context) : Except RenderError (List Char) := do
  let header ← textOf context "header"
  let sdkPackage ← textOf context "sdk_package"
  let implementation ← textOf context "implementation"
  let instances ← (← membersOf context "instances").mapM fun i => do
    return (⟨← partText i "ident", ← partText i "path",
      ← partText i "type_name"⟩ : InstanceImport)
  let indent ← textOf context "indent"
  return Text.unlines (Typescript.botIndexLines header indent sdkPackage implementation instances)

/-- An aggregate type. -/
def aggregate (value : Json) : Except RenderError DeclarationText := do
  let doc ← textsIfAny (← partOf value "doc")
  let entries ← partOf value "entries"
  let name ← partText value "name"
  let pairs ← (← membersIfAny entries).mapM fun e => do
    return ((← partText e "key").toList, (← partText e "type").toList)
  return Typescript.aggregateText doc name.toList pairs

/-- The index of a directory. -/
def renderModuleIndex (context : Context) : Except RenderError (List Char) := do
  let header ← textOf context "header"
  let imports ← (← membersIfAny (← variableOf context "imports")).mapM fun i => do
    return (⟨← partText i "name", ← partText i "path"⟩ : Import)
  let content ← variableOf context "content"
  let exports ← membersIfAny (← variableOf context "exports")
  let value ← variableOf context "aggregate"
  let aggregate? ← if value.isTruthy then (aggregate value).map some else .ok none
  let indent ← match aggregate? with
    | some _ => textOf context "indent"
    | none => .ok []
  return Typescript.endLines (Typescript.indexLines header indent imports
    (if content.isTruthy then content.plain.toList else []) (exports.map Json.plain) aggregate?)

/-- A page rendered from a context. -/
def render (t : Shipped) (context : Context) : Except RenderError String :=
  (match t with
    | .botIndex => renderBotIndex context
    | .declarations => renderDeclarations context
    | .integrationIndex => renderIntegrationIndex context
    | .moduleIndex => renderModuleIndex context
    | .secrets => renderSecrets context).map String.ofList

end Shipped
end SchemaTypings.Template
