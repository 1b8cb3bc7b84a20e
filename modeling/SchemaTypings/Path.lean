/-
  SchemaTypings.Path

  Slash-separated paths: the lexical walk through their components, joining, relative module
  specifiers.  A path is a list of characters; its components are what stands between the slashes.
-/
import SchemaTypings.Text.Blank
import SchemaTypings.Text.Split

namespace SchemaTypings.Path

/-- One component of a path. -/
abbrev Component := List Char

/-- The component that leads to the directory itself. -/
def here : Component := ['.']

/-- The component that leads to the directory above. -/
def above : Component := ['.', '.']

/-- What stands between the slashes. -/
def components (path : List Char) : List Component := Text.splitAt '/' path

/-- Whether the path begins with a slash. -/
def isRooted (path : List Char) : Bool := path.head? = some '/'

/-- The path with backslashes read as slashes. -/
def withSlashes (path : List Char) : List Char := path.map fun c => if c = '\\' then '/' else c

/-! ## The lexical walk -/

/-- One step of the walk; the place reached is a stack with the innermost directory on top.  Empty
and `.` components stay, `..` goes up; at the top of a rooted path it stays, and from the start of a
relative one it climbs. -/
def step (rooted : Bool) (place : List Component) (c : Component) : List Component :=
  if c = [] ∨ c = here then place
  else if c = above then
    match place with
    | [] => if rooted then [] else [above]
    | top :: rest => if top = above then above :: place else rest
  else c :: place

/-- The components of the place that the walk reaches, outermost first. -/
def walk (rooted : Bool) (cs : List Component) : List Component :=
  (cs.foldl (step rooted) []).reverse

/-- The components of a path taken from the root, where nothing lies above. -/
def fromRoot (path : List Char) : List Component := walk true (components path)

/-! ## Normal form -/

/-- The path in normal form, without a slash in front; `none` if it climbs above its start. -/
def normalize? (path : List Char) : Option (List Char) :=
  let cs := withSlashes path
  match walk (isRooted cs) (components cs) with
  | [] => some (if isRooted cs then [] else here)
  | c :: rest => if c = above then none else some (Text.joinWith ['/'] (c :: rest))

/-- The path in normal form, without slashes in front; it may climb above its start.  A path that
leads nowhere is a full stop, or nothing if it is rooted. -/
def collapse (path : List Char) : List Char :=
  match walk (isRooted path) (components path) with
  | [] => if isRooted path then [] else here
  | c :: rest => Text.joinWith ['/'] (c :: rest)

/-! ## Joining and cutting -/

/-- A path behind a directory; a rooted one stands alone. -/
def append (directory path : List Char) : List Char :=
  if isRooted path then path
  else if directory = [] ∨ directory.getLast? = some '/' then directory ++ path
  else directory ++ '/' :: path

/-- A path behind a row of directories. -/
def join (directories : List (List Char)) (path : List Char) : List Char :=
  match directories with
  | [] => path
  | first :: rest => append (rest.foldl append first) path

/-- The part behind the last slash. -/
def fileName (path : List Char) : List Char := (path.reverse.takeWhile (· ≠ '/')).reverse

/-- The part up to the last slash, without slashes at its end unless it is all slashes. -/
def directory (path : List Char) : List Char :=
  let head := path.take (path.length - (fileName path).length)
  if head.all (· = '/') then head else Text.dropEndWhile (· = '/') head

/-- A file name up to its last full stop; full stops in front do not count. -/
def stem (name : List Char) : List Char :=
  let dots := name.takeWhile (· = '.')
  let rest := name.dropWhile (· = '.')
  if '.' ∈ rest then
    dots ++ ((rest.reverse.dropWhile (· ≠ '.')).drop 1).reverse
  else name

/-- A path without the extension of its file name. -/
def withoutExtension (path : List Char) : List Char :=
  let name := fileName path
  path.take (path.length - name.length) ++ stem name

/-! ## Relative specifiers -/

/-- Both lists without their common beginning. -/
def dropCommon : List Component → List Component → List Component × List Component
  | a :: as, b :: bs => if a = b then dropCommon as bs else (a :: as, b :: bs)
  | as, bs => (as, bs)

/-- The path from a directory to a target, both taken from the root. -/
def relative (target start : List Char) : List Char :=
  let (up, down) := dropCommon (fromRoot start) (fromRoot target)
  match List.replicate up.length above ++ down with
  | [] => here
  | steps => Text.joinWith ['/'] steps

/-- Whether a specifier says by its beginning that it is relative. -/
def isExplicit (specifier : List Char) : Bool :=
  (here ++ ['/']).isPrefixOf specifier || (above ++ ['/']).isPrefixOf specifier

/-- The module specifier of the file `target` as seen from the file `source`: relative, explicitly
so, and without the extension. -/
def specifier (source target : List Char) : List Char :=
  let stem := withoutExtension (relative target (directory source))
  if isExplicit stem then stem else here ++ '/' :: stem

/-! ## Strings -/

/-- A string path behind a row of directories. -/
def joinStrings (directories : List String) (path : String) : String :=
  String.ofList (join (directories.map String.toList) path.toList)

/-- The module specifier of one file as seen from another. -/
def specifierString (source target : String) : String :=
  String.ofList (specifier source.toList target.toList)

/-- The module specifier of one file as seen from another; there is none for an empty target. -/
def specifierString? (source target : String) : Option String :=
  if target = "" then none else some (specifierString source target)

/-- A string path in normal form; `none` if it climbs above its start. -/
def normalizeString? (path : String) : Option String :=
  (normalize? path.toList).map String.ofList

end SchemaTypings.Path
