/-
  SchemaTypings.Template.Engine

  Templates by name.  An engine serves the files of a directory or templates of its own; adding one
  of its own to an engine that serves files makes it serve its own alone.

  What a template says is up to the template library, which is a parameter of rendering.  It is given
  the whole environment, since a template may include or extend others by their names.
-/
import SchemaTypings.Naming.Sanitizer
import SchemaTypings.Template.Shipped

namespace SchemaTypings.Template

/-- What a template is rendered from. -/
inductive Source where
  /-- A page template. -/
  | page (template : Shipped)
  | text (content : String)

/-- The generator's own filters, which spell a text as a name. -/
def filterOf? (name : String) : Option Naming.Spelling :=
  match name with
  | "snake_case" => some .snake
  | "camel_case" => some .camel
  | "pascal_case" => some .pascal
  | "kebab_case" => some .kebab
  | _ => none

/-- What the template library works with. -/
structure Environment where
  /-- What the loader finds under a name. -/
  source? : String → Option Source
  filter? : String → Option Naming.Spelling := filterOf?

/-- A template library: it renders a template, which may have a name, in a context. -/
abbrev Library :=
  Environment → Option String → Source → Context → Except RenderError String

/-- The path that a name leads to; empty components and full stops lead nowhere. -/
def filePath (name : String) : String :=
  String.ofList (Text.joinWith ['/']
    ((Text.splitAt '/' name.toList).filter fun c => c ≠ [] ∧ c ≠ ['.']))

/-- Where an engine has its templates from. -/
inductive Engine where
  /-- The files of a directory, by their paths in it. -/
  | directory (files : Entries Source)
  /-- Texts in memory. -/
  | memory (templates : Entries String)

namespace Engine

/-- An engine without templates. -/
def empty : Engine := .memory []

/-- An engine that serves the page templates. -/
def shipped : Engine := .directory (Shipped.all.map fun t => (t.name, .page t))

/-- Whether a template with this name is listed. -/
def has (engine : Engine) (name : String) : Bool :=
  match engine with
  | .directory files => files.has name
  | .memory templates => templates.has name

/-- The engine with a template in memory. -/
def add (engine : Engine) (name text : String) : Engine :=
  match engine with
  | .directory _ => .memory [(name, text)]
  | .memory templates => .memory (templates.insert name text)

/-- What the template that a name leads to is rendered from. -/
def source? (engine : Engine) (name : String) : Option Source :=
  match engine with
  | .directory files => files.get? (filePath name)
  | .memory templates => (templates.get? name).map .text

/-- The environment that templates are rendered in. -/
def environment (engine : Engine) : Environment := { source? := engine.source? }

/-- The text of the template under a name. -/
def render (library : Library) (engine : Engine) (name : String) (context : Context) :
    Except RenderError String :=
  match engine.source? name with
  | some source => library engine.environment (some name) source context
  | none => .error (.missingTemplate name)

/-- The text of a template without a name. -/
def renderString (library : Library) (engine : Engine) (text : String) (context : Context) :
    Except RenderError String :=
  library engine.environment none (.text text) context

end Engine

/-- What is said about a failure to render; `subject` is the template. -/
def RenderError.message (subject : String) : RenderError → String
  | .missingTemplate _ => "Failed to render template " ++ subject
  | .failed cause => "Failed to render template " ++ subject ++ ": " ++ cause
  | .fault _ => ""

end SchemaTypings.Template
