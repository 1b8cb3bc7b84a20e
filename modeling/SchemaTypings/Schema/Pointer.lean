/-
  SchemaTypings.Schema.Pointer

  Local references: a fragment whose tokens lead from the root of a document to one of its values.
-/
import SchemaTypings.Fault
import SchemaTypings.Json.Parser
import SchemaTypings.Text.Class
import SchemaTypings.Text.Split

namespace SchemaTypings.Pointer

/-- A token with `~1` read as a slash and `~0` as a tilde. -/
def unescape : List Char → List Char
  | '~' :: '1' :: rest => '/' :: unescape rest
  | '~' :: '0' :: rest => '~' :: unescape rest
  | c :: rest => c :: unescape rest
  | [] => []

/-- A step written as a token. -/
def escape : List Char → List Char
  | [] => []
  | '~' :: rest => '~' :: '0' :: escape rest
  | '/' :: rest => '~' :: '1' :: escape rest
  | c :: rest => c :: escape rest

/-- The tokens of a fragment behind its `#`; empty ones lead nowhere and are passed over. -/
def tokens (fragment : List Char) : List (List Char) :=
  ((Text.splitAt '/' (fragment.drop 1)).filter (· ≠ [])).map unescape

/-- The index that a token stands for in a list, `none` if it is not made of digits. -/
def index? (token : List Char) : Except Fault (Option Nat) :=
  if token ≠ [] ∧ token.all Text.isAnyDigit then
    if token.length > Json.maxIntegerDigits then .error .unreadableNumber
    else
      match Text.numberOfDigits? token with
      | some n => .ok (some n)
      | none => .error .unreadableNumber
  else .ok none

/-- One step down: to the value of a key or to a member of a list; `none` if there is none. -/
def step (target : Json) (token : List Char) : Except Fault (Option Json) :=
  match target with
  | .obj entries => .ok (Entries.get? entries (String.ofList token))
  | .arr items => (index? token).map fun i? => i?.bind fun i => items[i]?
  | _ => .ok none

/-- The value at the end of the tokens. -/
def walk (target : Json) : List (List Char) → Except Fault (Option Json)
  | [] => .ok (some target)
  | token :: rest =>
    match step target token with
    | .error e => .error e
    | .ok none => .ok none
    | .ok (some next) => walk next rest

/-- The value that a fragment leads to. -/
def resolve (root : Json) (fragment : String) : Except Fault (Option Json) :=
  walk root (tokens fragment.toList)

end SchemaTypings.Pointer
