/-
  SchemaTypings.Registry

  Section builders by the name of their section.  Names count in lower case; the first builder of a
  name stays unless it is replaced.
-/
import SchemaTypings.Section.Build
import SchemaTypings.Text.Case

namespace SchemaTypings

/-- A builder: of one kind of section, in a directory, or a blank that builds none. -/
inductive SectionBuilder where
  | ofKind (kind : SectionKind) (directory : String)
  | blank
deriving DecidableEq

namespace SectionBuilder

/-- The builder of a kind in the directory of the section's name. -/
def standard (kind : SectionKind) : SectionBuilder := .ofKind kind kind.name

/-- The directory that the section is placed under. -/
def directory : SectionBuilder → String
  | .ofKind _ directory => directory
  | .blank => ""

/-- The section that is built; a blank cannot be put to work. -/
def kind : SectionBuilder → Except Fault SectionKind
  | .ofKind kind _ => .ok kind
  | .blank => .error .unfitOperand

end SectionBuilder

/-- Builders under lower-case names. -/
structure Registry where
  builders : Entries SectionBuilder := []

namespace Registry

/-- The form in which names are kept. -/
def key (name : String) : String := Text.lowerString name

/-- The registry with a builder under a name; one that is there stays unless it is replaced. What is
no builder is refused. -/
def register (r : Registry) (name : String) (candidate? : Option SectionBuilder) (replace : Bool) :
    Except RegistryError Registry :=
  match candidate? with
  | none => .error .notABuilder
  | some builder =>
    if r.builders.has (key name) && !replace then .ok r
    else .ok ⟨r.builders.insert (key name) builder⟩

/-- The registry without a name. -/
def unregister (r : Registry) (name : String) : Registry := ⟨r.builders.erase (key name)⟩

/-- The names, sorted. -/
def names (r : Registry) : List String := r.builders.keys.mergeSort

/-- Whether there is a builder under a name. -/
def isSupported (r : Registry) (name : String) : Bool := r.builders.has (key name)

/-- The builder under a name. -/
def get (r : Registry) (name : String) : Except RegistryError SectionBuilder :=
  match r.builders.get? (key name) with
  | some builder => .ok builder
  | none => .error (.unknownSection name r.names)

/-- The registry with a standard builder for every kind of section. -/
def standard : Registry :=
  ⟨[SectionKind.configuration, .events, .states, .actions, .channels, .secrets].map fun kind =>
    (kind.name, .standard kind)⟩

end Registry
end SchemaTypings
