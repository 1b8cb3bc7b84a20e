/-
  SchemaTypings.Typescript.Page

  Whole source files: clean line ends and blank lines, the header, and the pages that are composed
  by hand, such as indexes and the accessor of secrets.
-/
import SchemaTypings.Typescript.Printer

namespace SchemaTypings.Typescript

/-! ## Formatting -/

/-- Lines without white space at their ends, and of several blank ones in a row the first. -/
def squeeze : Bool → List Line → List Line
  | _, [] => []
  | afterBlank, line :: rest =>
    match Text.trimEnd line with
    | [] => if afterBlank then squeeze true rest else [] :: squeeze true rest
    | trimmed => trimmed :: squeeze false rest

/-- A source text with clean line ends, single blank lines, none at either end, and one line feed at
the end. -/
def formatChars (code : List Char) : List Char :=
  Text.trimNewlines (Text.unlines (squeeze false (Text.lines code))) ++ ['\n']

/-- A source text in clean format. -/
def format (code : String) : String := String.ofList (formatChars code.toList)

/-- A body under the header; a header that is there has to be a text. -/
def file (config : Config) (body : String) : Except Fault String :=
  if config.header.isTruthy then
    match config.header with
    | .str header => .ok (String.ofList (formatChars
        (Text.trimNewlines header.toList ++ '\n' :: '\n' :: Text.trimNewlines body.toList)))
    | _ => .error .noSuchOperation
  else .ok (String.ofList (formatChars (Text.trimNewlines body.toList)))

/-! ## Index pages -/

/-- A named import. -/
structure Import where
  name : String
  specifier : String
deriving DecidableEq

/-- A member of an aggregate type. -/
structure AggregateEntry where
  key : String
  typeName : String
deriving DecidableEq

/-- All that is needed to write an index: own content, imports, exported modules, and the aggregate
type with its members and documentation. -/
structure IndexView where
  path : String
  exportName : String
  content? : Option String := none
  exports : List String := []
  imports : List Import := []
  aggregate? : Option String := none
  entries : List AggregateEntry := []
  doc : List String := []

/-- An empty line and the lines, if there are any. -/
def paragraph (ls : List Line) : List Line := if ls = [] then [] else [] :: ls

/-- The line that imports a type from another module. -/
def importLine (i : Import) : Line :=
  "import type \x7b ".toList ++ i.name.toList ++ " \x7d from '".toList ++ i.specifier.toList ++ ['\'']

/-- The line that exports all of another module. -/
def exportLine (specifier : String) : Line :=
  "export * from '".toList ++ specifier.toList ++ ['\'']

/-- The texts of an aggregate type with the given members. -/
def aggregateText (doc : List Line) (name : Line) (entries : List (Line × Line)) :
    DeclarationText :=
  { doc, name
    form := .objectAlias (entries.map fun (key, type) => ⟨[], key, false, type⟩) none }

/-- The lines of an index; each part that has any stands behind an empty line. -/
def indexLines (header indent : Line) (imports : List Import) (content : List Char)
    (exports : List String) (aggregate? : Option DeclarationText) : List Line :=
  header :: paragraph (imports.map importLine) ++
    paragraph (if content = [] then [] else [content]) ++
    paragraph (exports.map exportLine) ++
    paragraph ((aggregate?.map (·.lines indent)).getD [])

/-- The aggregate type of an index. -/
def aggregateOf? (config : Config) (view : IndexView) : Option DeclarationText :=
  view.aggregate?.map fun name =>
    aggregateText (extraLines config view.doc) name.toList
      (view.entries.map fun e => ((Naming.propertyKey e.key).toList, e.typeName.toList))

/-- The source of an index. -/
def indexPage (config : Config) (view : IndexView) : Except Fault String :=
  config.indent.map fun indent =>
    String.ofList (formatChars (endLines (indexLines config.header.plain.toList indent view.imports
      (Text.trimNewlines (view.content?.getD "").toList) view.exports (aggregateOf? config view))))

/-! ## Pages composed by hand -/

/-- The lines of the accessor of secrets, before they are formatted. -/
def secretLines (header indent : Line) (secrets : Entries String) : List Line :=
  [header, [],
    "const getSecret = (envVar: string): string => \x7b".toList,
    indent ++ "const value = process.env[envVar]".toList,
    indent ++ "if (value === undefined) \x7b".toList,
    indent ++ indent ++ ("throw new Error(`Missing secret: environment variable " ++
      "$\x7benvVar\x7d is not set`)").toList,
    indent ++ ['\x7d'],
    indent ++ "return value".toList,
    ['\x7d'], [],
    "export const secrets = \x7b".toList] ++
  secrets.flatMap (fun (name, env) =>
    [indent ++ "get ".toList ++ name.toList ++ "(): string \x7b".toList,
      indent ++ indent ++ "return getSecret('".toList ++ env.toList ++ "')".toList,
      indent ++ "\x7d,".toList]) ++
  [['\x7d'], [], "export type Secret = keyof typeof secrets".toList]

/-- The source of the accessor of secrets, which reads each from its environment variable. -/
def secretsPage (config : Config) (secrets : Entries String) : Except Fault String :=
  config.indent.map fun indent =>
    String.ofList (formatChars
      (Text.unlines (secretLines config.header.plain.toList indent secrets)))

/-- An installed integration as the index of a bot sees it. -/
structure InstanceImport where
  identifier : String
  specifier : String
  typeName : String
deriving DecidableEq

/-- The lines of the index of a bot, before they are formatted. -/
def botIndexLines (header indent sdkPackage implementation : Line)
    (instances : List InstanceImport) : List Line :=
  let namespaceLine (i : InstanceImport) : Line :=
    i.identifier.toList ++ " from '".toList ++ i.specifier.toList ++ ['\'']
  [header, [],
    "import * as sdk from '".toList ++ sdkPackage ++ ['\''],
    "import type * as implementation from '".toList ++ implementation ++ ['\'']] ++
  instances.map (fun i => "import type * as ".toList ++ namespaceLine i) ++
  paragraph (instances.map fun i => "export * as ".toList ++ namespaceLine i) ++
  [[], "export type TBot = \x7b".toList, indent ++ "integrations: \x7b".toList] ++
  instances.map (fun i => indent ++ indent ++ i.identifier.toList ++ ": ".toList ++
    i.identifier.toList ++ '.' :: i.typeName.toList) ++
  [indent ++ ['\x7d'],
    indent ++ "configuration: implementation.Configuration".toList,
    indent ++ "states: implementation.States".toList,
    indent ++ "events: implementation.Events".toList,
    ['\x7d'], [],
    "export class Bot extends sdk.Bot<TBot> \x7b\x7d".toList]

/-- The source of the index of a bot. -/
def botIndexPage (config : Config) (implementation : String) (instances : List InstanceImport) :
    Except Fault String :=
  config.indent.map fun indent =>
    String.ofList (formatChars (Text.unlines (botIndexLines config.header.plain.toList indent
      config.sdkPackage.plain.toList implementation.toList instances)))

/-- The lines of the index of an integration package, before they are formatted. -/
def integrationIndexLines (header : Line) (exports : List String) : List Line :=
  header :: [] :: exports.map exportLine

/-- The source of the index of an integration package. -/
def integrationIndexPage (config : Config) (exports : List String) : String :=
  String.ofList (formatChars
    (endLines (integrationIndexLines config.header.plain.toList exports)))

/-- A constant that an installed integration declares about itself. -/
def constantLine (name : String) (value : Json) : Line :=
  "export const ".toList ++ name.toList ++ " = ".toList ++ value.chars

/-- The constants that an installed integration declares about itself. -/
def metadataSource (name version id : String) : String :=
  String.ofList (Text.unlines [constantLine "name" (.str name), constantLine "version" (.str version),
    constantLine "id" (.str id)])

end SchemaTypings.Typescript
