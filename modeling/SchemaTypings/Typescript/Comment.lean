/-
  SchemaTypings.Typescript.Comment

  Documentation blocks: the lines of a schema's note, made safe to stand in a comment.
-/
import SchemaTypings.Config
import SchemaTypings.Schema.Node
import SchemaTypings.Text.Blank
import SchemaTypings.Text.Split

namespace SchemaTypings.Typescript

/-- A line of text. -/
abbrev Line := List Char

/-- A text with a backslash inside each comment end. -/
def breakCommentEnds : List Char → List Char
  | '*' :: '/' :: rest => '*' :: '\\' :: '/' :: breakCommentEnds rest
  | c :: rest => c :: breakCommentEnds rest
  | [] => []

/-- A line that can stand in a comment, without white space at its end. -/
def commentLine (line : Line) : Line := Text.trimEnd (breakCommentEnds line)

/-- The line of a constraint: its keyword alone if it is `true`, a text other than a default as it
is, and any other value as JSON text. -/
def constraintLine (keyword : String) (value : Json) : Line :=
  match value with
  | .bool true => '@' :: keyword.toList
  | .str s =>
    if keyword = "default" then commentLine ('@' :: keyword.toList ++ ' ' :: value.chars)
    else commentLine ('@' :: keyword.toList ++ ' ' :: s.toList)
  | _ => commentLine ('@' :: keyword.toList ++ ' ' :: value.chars)

/-- The lines of a description; one that is there has to be a text. -/
def descriptionLines (description : Json) : Except Fault (List Line) :=
  if description.isTruthy then
    match description with
    | .str s => .ok ((Text.lines (Text.trim s.toList)).map commentLine)
    | _ => .error .noSuchOperation
  else .ok []

/-- The documentation lines of a note: its description, then its constraints. -/
def noteLines (config : Config) (note : Note) : Except Fault (List Line) :=
  if config.writesComments then
    (descriptionLines note.description).map
      (· ++ note.constraints.map fun (keyword, value) => constraintLine keyword value)
  else .ok []

/-- Extra documentation lines. -/
def extraLines (config : Config) (doc : List String) : List Line :=
  if config.writesComments then doc.map fun line => commentLine line.toList else []

/-- A line inside a documentation block. -/
def blockLine (line : Line) : Line := if line = [] then [' ', '*'] else ' ' :: '*' :: ' ' :: line

/-- A documentation block; without lines there is none. -/
def docBlock (doc : List Line) : List Line :=
  if doc = [] then [] else ['/', '*', '*'] :: doc.map blockLine ++ [[' ', '*', '/']]

end SchemaTypings.Typescript
