/-
  SchemaTypings.Config

  The settings of a generation run.  Three layers make them up: the defaults, a configuration file
  and overrides, of which the later wins key by key; keys that are no setting go to the custom
  settings.  Values keep the form in which they were given and are read where they are used.
-/
import SchemaTypings.Fault
import SchemaTypings.Json.Display
import SchemaTypings.Json.Keyed
import SchemaTypings.Json.Parser

namespace SchemaTypings

/-- The header that generated files begin with by default. -/
def defaultHeader : String :=
  "/* eslint-disable */\n/* tslint:disable */\n// This file is generated. Do not edit it manually."

/-- Custom settings. -/
inductive CustomSettings where
  | entries (entries : KeyedEntries)
  /-- A value of another form, kept as it was given. -/
  | other (value : Json)

/-- The settings of a generation run. -/
structure Config where
  header : Json := .str defaultHeader
  indexFile : String := "index.ts"
  fileExtension : String := ".ts"
  indentSize : Json := .int 2
  addComments : Json := .bool true
  maxRefDepth : Json := .int 16
  secretEnvPrefix : Json := .str "SECRET_"
  sdkPackage : Json := .str "@botpress/sdk"
  instanceMetadataFile : Json := .str "integration.json"
  custom : CustomSettings := .entries []

namespace Config

/-! ## Reading the settings -/

/-- The white space of one level: as many spaces as the indent size says, none below zero. -/
def indent (c : Config) : Except Fault (List Char) :=
  match c.indentSize with
  | .int n =>
    if n ≥ 1 <<< 63 ∨ n < -1 <<< 63 then .error .outOfRange
    else if n ≥ 1 <<< 30 then .error .outOfMemory
    else .ok (List.replicate n.toNat ' ')
  | .bool b => .ok (List.replicate b.toNat ' ')
  | _ => .error .unfitOperand

/-- Whether documentation is written. -/
def writesComments (c : Config) : Bool := c.addComments.isTruthy

/-- The default settings. -/
def default : Config := {}

/-! ## Layers -/

/-- The settings that the defaults layer lists. -/
def defaultEntries : Entries Json :=
  [("header", .str defaultHeader), ("index_file", .str "index.ts"), ("file_extension", .str ".ts"),
    ("indent_size", .int 2), ("add_comments", .bool true), ("max_ref_depth", .int 16),
    ("secret_env_prefix", .str "SECRET_")]

/-- The names of the settings. -/
def settingNames : List String :=
  ["header", "index_file", "file_extension", "indent_size", "add_comments", "max_ref_depth",
    "secret_env_prefix", "sdk_package", "instance_metadata_file", "custom"]

/-- What stands where a configuration file is looked for. -/
inductive FileState where
  | missing
  | directory
  | bytes (content : ByteArray)

/-- Why settings cannot be loaded. -/
inductive LoadError where
  | notFound (file : String)
  /-- The name does not end in `.json`. -/
  | notJsonFile (file : String)
  | isDirectory (file : String)
  | invalidJson (file : String)
  | notAnObject (file : String)
  /-- The bytes of the file are no text. -/
  | notText
  /-- An integer in the file has more digits than are read. -/
  | numeralTooLong
  /-- A list of custom settings has a member that is no pair. -/
  | notAPair
  | fault (fault : Fault)

/-- What is said about a failure that concerns the file as a whole. -/
def LoadError.message : LoadError → String
  | .notFound file => "Configuration file not found: " ++ file
  | .notJsonFile file => "Configuration file must be JSON: " ++ file
  | .isDirectory file =>
    "Failed to load configuration file " ++ file ++ ": [Errno 21] Is a directory: " ++ Text.shown file
  | .invalidJson file => "Invalid JSON in configuration file " ++ file
  | .notAnObject file => "Configuration file must contain a JSON object: " ++ file
  | _ => ""

/-- The extension of a file name: its last full stop and what follows, if something stands on
either side. -/
def extension (file : List Char) : List Char :=
  let after := (file.reverse.takeWhile (· ≠ '.')).reverse
  if after.length + 1 < file.length ∧ after ≠ [] then '.' :: after else []

/-- The settings in a file. -/
def readFile (file : String) (state : FileState) : Except LoadError (Entries Json) :=
  match state with
  | .missing => .error (.notFound file)
  | .directory =>
    if Text.lower (extension file.toList) = ".json".toList then .error (.isDirectory file)
    else .error (.notJsonFile file)
  | .bytes content =>
    if Text.lower (extension file.toList) = ".json".toList then
      match String.fromUTF8? content with
      | none => .error .notText
      | some text =>
        match Json.parse text with
        | .error .malformed => .error (.invalidJson file)
        | .error .numeralTooLong => .error .numeralTooLong
        | .ok (.obj entries) => .ok entries
        | .ok _ => .error (.notAnObject file)
    else .error (.notJsonFile file)

/-! ## Custom settings -/

/-- The key and value that a member of a list of pairs stands for. -/
def pairOf (member : Json) : Except LoadError (Json × Json) :=
  match member with
  | .arr [key, value] =>
    if key.isScalar then .ok (key, value) else .error (.fault .unfitOperand)
  | .obj [(key, _), (value, _)] => .ok (.str key, .str value)
  | .arr _ | .obj _ => .error .notAPair
  | .str s =>
    match s.toList with
    | [key, value] => .ok (.str (String.ofList [key]), .str (String.ofList [value]))
    | _ => .error .notAPair
  | _ => .error (.fault .unfitOperand)

/-- The custom settings with the entries of no other setting put in. -/
def withUnknown (given : Json) (unknown : KeyedEntries) : Except LoadError CustomSettings :=
  match given, unknown with
  | .obj entries, _ => .ok (.entries ((KeyedEntries.ofEntries entries).insertAll unknown))
  | value, [] => .ok (.other value)
  | .arr members, _ =>
    (members.mapM pairOf).map fun pairs => .entries (KeyedEntries.insertAll [] (pairs ++ unknown))
  | .str s, _ => if s = "" then .ok (.entries unknown) else .error .notAPair
  | _, _ => .error (.fault .unfitOperand)

/-- Whether a key is the name of no setting. -/
def isUnknown (key : Json) : Bool :=
  match key with
  | .str name => !settingNames.contains name
  | _ => true

/-- The custom settings of layered entries. -/
def collectCustom (layered : KeyedEntries) : Except LoadError CustomSettings :=
  withUnknown ((layered.get? "custom").getD (.obj [])) (layered.filter fun e => isUnknown e.1)

/-! ## Reading layered entries -/

/-- A setting that has to be a text. -/
def textSetting (value : Json) : Except LoadError String :=
  match value with
  | .str s => .ok s
  | _ => .error (.fault .noSuchOperation)

/-- Whether a setting that has to be a number is below one. -/
def isBelowOne (value : Json) : Except LoadError Bool :=
  match value with
  | .int n => .ok (n < 1)
  | .bool b => .ok !b
  | .float x => .ok x.isBelowOne
  | _ => .error (.fault .unfitOperand)

/-- Whether a prefix fits into the name of an environment variable. -/
def isFitPrefix (value : Json) : Except LoadError Bool :=
  if value.isTruthy then
    match value with
    | .str s =>
      let rest := s.toList.filter (· ≠ '_')
      .ok (!rest.isEmpty && rest.all Text.isAlphanumeric)
    | _ => .error (.fault .noSuchOperation)
  else .ok true

/-- What is said about a setting that has to be a number, if it is below one. -/
def belowOneWarning (words : String) (value : Json) : Except LoadError (List String) := do
  if ← isBelowOne value then
    return [words ++ (← value.said.mapError .fault)]
  else return []

/-- What looks wrong about the settings. -/
def warnings (c : Config) : Except LoadError (List String) := do
  let indent ← belowOneWarning "Invalid indent_size: " c.indentSize
  let depth ← belowOneWarning "max_ref_depth below 1 rejects every $ref: " c.maxRefDepth
  let fitPrefix ← isFitPrefix c.secretEnvPrefix
  let warn (condition : Bool) (text : String) : List String := if condition then [text] else []
  return warn (c.fileExtension.toList.head? ≠ some '.')
      ("file_extension should start with '.': " ++ c.fileExtension) ++
    warn (!c.fileExtension.toList.isSuffixOf c.indexFile.toList)
      ("index_file '" ++ c.indexFile ++ "' does not use extension '" ++ c.fileExtension ++ "'") ++
    indent ++ depth ++
    warn (!fitPrefix)
      ("secret_env_prefix is not a valid env var prefix: " ++ c.secretEnvPrefix.plain)

/-- The settings that layered entries stand for. -/
def ofEntries (layered : KeyedEntries) : Except LoadError Config := do
  let setting (name : String) (fallback : Json) : Json := (layered.get? name).getD fallback
  let custom ← collectCustom layered
  let fileExtension ← textSetting (setting "file_extension" (.str default.fileExtension))
  let indexFile ← textSetting (setting "index_file" (.str default.indexFile))
  let config : Config :=
    { header := setting "header" default.header
      indexFile
      fileExtension
      indentSize := setting "indent_size" default.indentSize
      addComments := setting "add_comments" default.addComments
      maxRefDepth := setting "max_ref_depth" default.maxRefDepth
      secretEnvPrefix := setting "secret_env_prefix" default.secretEnvPrefix
      sdkPackage := setting "sdk_package" default.sdkPackage
      instanceMetadataFile := setting "instance_metadata_file" default.instanceMetadataFile
      custom }
  let _ ← config.warnings
  return config

/-- The overrides that a value stands for: an object, or a list of pairs. -/
def overridesOf (value : Json) : Except LoadError KeyedEntries :=
  if !value.isTruthy then .ok []
  else
    match value with
    | .obj entries => .ok (KeyedEntries.ofEntries entries)
    | .arr members => members.mapM pairOf
    | .str _ => .error .notAPair
    | _ => .error (.fault .unfitOperand)

/-- The settings of a layer of defaults, a file if there is one, and overrides. -/
def ofLayers (defaults : Entries Json) (file? : Option (String × FileState)) (overrides : Json) :
    Except LoadError Config := do
  let fromFile ← match file? with
    | some (file, state) => readFile file state
    | none => .ok []
  let base := KeyedEntries.ofEntries (defaults.insertAll fromFile)
  ofEntries (base.insertAll (← overridesOf overrides))

/-- What settings are loaded with, again and again: the layer of defaults. -/
structure Loader where
  defaults : Entries Json := defaultEntries

/-- The settings of the loader's defaults, a file if there is one, and overrides.  The other layers
are laid over a copy of the defaults. -/
def Loader.load (file? : Option (String × FileState)) (overrides : Json) :
    StateM Loader (Except LoadError Config) := do
  return ofLayers (← get).defaults file? overrides

/-- The settings that a new loader gives. -/
def load (file? : Option (String × FileState)) (overrides : Json) : Except LoadError Config :=
  ((Loader.load file? overrides).run {}).1

/-! ## Showing the settings -/

/-- The settings by name, without the custom ones. -/
def entries (c : Config) : Entries Json :=
  [("header", c.header), ("index_file", .str c.indexFile), ("file_extension", .str c.fileExtension),
    ("indent_size", c.indentSize), ("add_comments", c.addComments),
    ("max_ref_depth", c.maxRefDepth), ("secret_env_prefix", c.secretEnvPrefix),
    ("sdk_package", c.sdkPackage), ("instance_metadata_file", c.instanceMetadataFile)]

/-- The custom settings with their keys. -/
def customSettings (c : Config) : Except Fault KeyedEntries :=
  match c.custom with
  | .entries entries => .ok entries
  | .other _ => .error .noSuchOperation

end Config
end SchemaTypings
