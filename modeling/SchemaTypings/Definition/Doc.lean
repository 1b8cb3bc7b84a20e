/-
  SchemaTypings.Definition.Doc

  The documentation lines that definition entries give to their types.
-/
import SchemaTypings.Definition.Basic
import SchemaTypings.Number.Text
import SchemaTypings.Text.Blank
import SchemaTypings.Text.Split

namespace SchemaTypings

/-- A text that is there and not empty. -/
def presentText? (text? : Option String) : Option String := text?.filter (· ≠ "")

/-- The lines of a caption: the title, and after an empty line the lines of the description. -/
def Caption.lines (c : Caption) : List String :=
  let title := (presentText? c.title?).toList
  match presentText? c.description? with
  | none => title
  | some description =>
    title ++ (if title = [] then [] else [""]) ++
      (Text.lines (Text.trim description.toList)).map String.ofList

/-- The lines of a state: its caption, and after an empty line its scope and expiry. -/
def StateDefinition.docLines (s : StateDefinition) : List String :=
  s.caption.lines ++ (if s.caption.lines = [] then [] else [""]) ++
    ["@scope " ++ s.scope.name] ++ (s.expiry?.map fun n => "@expiry " ++ natText n).toList

/-- One line for each tag: its label and name, and its title or else its description. -/
def tagLines (label : String) (tags : Entries Caption) : List String :=
  tags.map fun (name, tag) =>
    match presentText? tag.title? <|> presentText? tag.description? with
    | some text => "@" ++ label ++ " " ++ name ++ " - " ++ text
    | none => "@" ++ label ++ " " ++ name

/-- The lines of a channel: the tags of itself, its conversations and its messages. -/
def ChannelDefinition.docLines (c : ChannelDefinition) : List String :=
  tagLines "tag" c.tags ++ tagLines "conversationTag" c.conversationTags ++
    tagLines "messageTag" c.messageTags

end SchemaTypings
