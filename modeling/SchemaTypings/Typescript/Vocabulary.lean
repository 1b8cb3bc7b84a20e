/-
  SchemaTypings.Typescript.Vocabulary

  The words that a declared type name must not be, and the names of definition entries as types.
-/
import SchemaTypings.Naming.Sanitizer

namespace SchemaTypings.Typescript

/-- Reserved words, those of strict mode included. -/
def reservedWords : List String :=
  ["break", "case", "catch", "class", "const", "continue", "debugger", "default", "delete", "do",
    "else", "enum", "export", "extends", "false", "finally", "for", "function", "if", "import",
    "in", "instanceof", "new", "null", "return", "super", "switch", "this", "throw", "true", "try",
    "typeof", "var", "void", "while", "with", "implements", "interface", "let", "package",
    "private", "protected", "public", "static", "yield"]

/-- Built-in and global types that a declaration must not shadow. -/
def builtinTypes : List String :=
  ["any", "unknown", "never", "object", "string", "number", "boolean", "symbol", "bigint",
    "undefined", "array", "record", "partial", "required", "readonly", "pick", "omit", "promise",
    "date", "error", "function", "map", "set"]

/-- All words that a declared name must not be. -/
def vocabulary : Naming.Vocabulary := ⟨reservedWords, builtinTypes⟩

/-- A sanitizer that has handed out nothing. -/
def sanitizer : Naming.Sanitizer := { vocabulary }

/-- The name of the type declared for a definition entry: `message-created` becomes
`MessageCreated`. -/
def typeName (name : String) : String := Naming.sanitize vocabulary name .pascal

end SchemaTypings.Typescript
