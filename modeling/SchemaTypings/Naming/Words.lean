/-
  SchemaTypings.Naming.Words

  The words of a name and its spellings.  A name is cut into lower-case words at separators and
  where a capital begins a word; snake, kebab, camel and pascal case are four ways to write them.
-/
import SchemaTypings.Text.Case
import SchemaTypings.Text.Blank
import SchemaTypings.Text.Split

namespace SchemaTypings.Naming

/-! ## Where words begin -/

/-- A character that stands between words: white space, a hyphen, a full stop. -/
def isSeparator (c : Char) : Bool := c = '-' || c = '.' || Text.isBlank c

/-- Separators become underscores. -/
def unifySeparators (cs : List Char) : List Char :=
  cs.map fun c => if isSeparator c then '_' else c

/-- Whether a word begins at `y`, which stands after `x` and before `next?`: a capital begins one
after a small letter or digit, and the last of a row of capitals begins one before a small letter. -/
def beginsWord (x y : Char) (next? : Option Char) : Bool :=
  y.isUpper && (x.isLower || x.isDigit || (x.isUpper && (next?.map Char.isLower).getD false))

/-- An underscore in front of each capital that begins a word. -/
def markWords : List Char → List Char
  | x :: y :: rest =>
    if beginsWord x y rest.head? then x :: '_' :: markWords (y :: rest)
    else x :: markWords (y :: rest)
  | cs => cs

/-- The lower-case words of a name. -/
def words (name : List Char) : List (List Char) :=
  (Text.splitAt '_' (Text.lower (markWords (unifySeparators name)))).filter (· ≠ [])

/-! ## Spellings -/

/-- `user_name` -/
def snake (name : List Char) : List Char := Text.joinWith ['_'] (words name)

/-- `user-name` -/
def kebab (name : List Char) : List Char := Text.joinWith ['-'] (words name)

/-- `UserName` -/
def pascal (name : List Char) : List Char := (words name).flatMap Text.capitalize

/-- `userName`; a name without words stays as it is. -/
def camel (name : List Char) : List Char :=
  match words name with
  | [] => name
  | first :: rest => Text.lower first ++ rest.flatMap Text.capitalize

/-- The name in `snake_case`. -/
def snakeCase (name : String) : String := String.ofList (snake name.toList)

/-- The name in `kebab-case`. -/
def kebabCase (name : String) : String := String.ofList (kebab name.toList)

/-- The name in `PascalCase`. -/
def pascalCase (name : String) : String := String.ofList (pascal name.toList)

/-- The name in `camelCase`. -/
def camelCase (name : String) : String := String.ofList (camel name.toList)

theorem ne_nil_of_mem_words {name word : List Char} (h : word ∈ words name) : word ≠ [] := by
  have := (List.mem_filter.mp h).2
  simpa using this

theorem underscore_not_mem_of_mem_words {name word : List Char} (h : word ∈ words name) :
    '_' ∉ word :=
  Text.not_mem_of_mem_splitAt '_' _ word (List.mem_filter.mp h).1

/-! ## Lexical classes -/

/-- The text without one final line feed. -/
def dropFinalNewline (cs : List Char) : List Char :=
  if cs.getLast? = some '\n' then cs.dropLast else cs

/-- A character of an upper-case group. -/
def isScreamingChar (c : Char) : Bool := c.isUpper || c.isDigit

/-- Groups of capitals and digits joined by single underscores, the first beginning with a capital;
one final line feed is let through. -/
def isScreaming (name : List Char) : Bool :=
  let groups := Text.splitAt '_' (dropFinalNewline name)
  groups.all (fun group => !group.isEmpty && group.all isScreamingChar) &&
    ((groups.head?.bind List.head?).map Char.isUpper).getD false

/-- A character that an identifier may begin with. -/
def isIdentifierStart (c : Char) : Bool := c.isAlpha || c = '_' || c = '$'

/-- A character that an identifier may go on with. -/
def isIdentifierPart (c : Char) : Bool := isIdentifierStart c || c.isDigit

/-- An ASCII identifier; one final line feed is let through. -/
def isIdentifier (name : List Char) : Bool :=
  match dropFinalNewline name with
  | [] => false
  | first :: rest => isIdentifierStart first && rest.all isIdentifierPart

/-- Whether a name is in `SCREAMING_SNAKE_CASE`. -/
def isScreamingSnakeCase (name : String) : Bool := isScreaming name.toList

end SchemaTypings.Naming
