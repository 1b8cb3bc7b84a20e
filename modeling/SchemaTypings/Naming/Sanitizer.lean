/-
  SchemaTypings.Naming.Sanitizer

  Identifiers out of arbitrary names.  Sanitising is pure; claiming hands out each identifier once,
  with the least free counter behind one that is taken.
-/
import SchemaTypings.Naming.Words
import SchemaTypings.Number.Text

namespace SchemaTypings.Naming

/-- The spellings a name can be given. -/
inductive Spelling where
  | snake
  | camel
  | pascal
  | kebab
  | screamingSnake
deriving DecidableEq

/-- A name in a spelling. -/
def Spelling.apply : Spelling → List Char → List Char
  | .snake, name => Naming.snake name
  | .camel, name => Naming.camel name
  | .pascal, name => Naming.pascal name
  | .kebab, name => Naming.kebab name
  | .screamingSnake, name => Text.upper (Naming.snake name)

/-- The words that no identifier may equal, in lower case. -/
structure Vocabulary where
  reserved : List String
  builtins : List String

/-- A vocabulary of words in any case. -/
def Vocabulary.ofWords (reserved builtins : List String) : Vocabulary :=
  ⟨reserved.map Text.lowerString, builtins.map Text.lowerString⟩

/-- Whether a word is in the vocabulary, in any case. -/
def Vocabulary.has (v : Vocabulary) (word : List Char) : Bool :=
  let lowered := String.ofList (Text.lower word)
  v.reserved.contains lowered || v.builtins.contains lowered

/-! ## Sanitising -/

/-- A character that is kept as it is. -/
def isPlainChar (c : Char) : Bool := c.isAlphanum || c = '_' || c = '-'

/-- Other characters become underscores, and underscores and hyphens at the ends go. -/
def clean (name : List Char) : List Char :=
  Text.trimBoth (fun c => c = '_' || c = '-') (name.map fun c => if isPlainChar c then c else '_')

/-- A name that is not empty and does not begin with a digit. -/
def anchor : List Char → List Char
  | [] => ['f', 'i', 'e', 'l', 'd']
  | c :: rest => if c.isDigit then '_' :: c :: rest else c :: rest

/-- The identifier for a name; one that is in the vocabulary gets the suffix. -/
def sanitizeChars (v : Vocabulary) (spelling : Spelling) (suffix name : List Char) : List Char :=
  let word := anchor (spelling.apply (clean name))
  if v.has word then word ++ suffix else word

/-- The identifier for a name. -/
def sanitize (v : Vocabulary) (name : String) (spelling : Spelling := .snake)
    (suffix : String := "_") : String :=
  String.ofList (sanitizeChars v spelling suffix.toList name.toList)

/-! ## Claiming -/

/-- A word with a counter behind it. -/
def numbered (word : String) (n : Nat) : String := word ++ natText n

/-- The word itself if it is free, else the word with the least counter from two that is free. -/
def firstFree (used : List String) (word : String) : String :=
  if word ∈ used then
    ((((List.range used.length).map (· + 2)).map (numbered word)).find? (· ∉ used)).getD
      (numbered word (used.length + 2))
  else word

/-- A sanitizer that remembers the identifiers it has handed out. -/
structure Sanitizer where
  vocabulary : Vocabulary
  used : List String := []

namespace Sanitizer

/-- The identifier for a name, not handed out before, and the sanitizer that remembers it. -/
def claim (s : Sanitizer) (name : String) (spelling : Spelling := .pascal) : String × Sanitizer :=
  let word := firstFree s.used (sanitize s.vocabulary name spelling)
  (word, { s with used := word :: s.used })

/-- The sanitizer with nothing handed out. -/
def reset (s : Sanitizer) : Sanitizer := { s with used := [] }

end Sanitizer
end SchemaTypings.Naming
