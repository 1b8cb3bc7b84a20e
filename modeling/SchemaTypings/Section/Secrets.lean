/-
  SchemaTypings.Section.Secrets

  Secrets reach an integration through environment variables.  Names are checked for their form
  first and for repetition second; the variable of a secret is its name behind a prefix.
-/
import SchemaTypings.Error
import SchemaTypings.Naming.Words

namespace SchemaTypings.Secrets

/-- The variable through which a secret is injected. -/
def variableName (namePrefix secret : String) : String := namePrefix ++ secret

/-- The first name that is not in upper-case groups. -/
def firstMalformed? (secrets : List String) : Option String :=
  secrets.find? fun secret => !Naming.isScreamingSnakeCase secret

/-- The first name that occurs more than once. -/
def firstRepeated? (secrets : List String) : Option String :=
  secrets.find? fun secret => 1 < secrets.count secret

/-- Checks that each name is in upper-case groups. -/
def checkForms (secrets : List String) : Except GenerationError Unit :=
  match firstMalformed? secrets with
  | some secret => .error (.invalidSecret secret)
  | none => .ok ()

/-- Checks that no name is repeated. -/
def checkDistinct (secrets : List String) : Except GenerationError Unit :=
  match firstRepeated? secrets with
  | some secret => .error (.duplicateSecret secret (secrets.count secret))
  | none => .ok ()

/-- Checks the names of secrets: their forms first, then that they are distinct. -/
def validate (secrets : List String) : Except GenerationError Unit :=
  (checkForms secrets).bind fun _ => checkDistinct secrets

/-- Each secret with its variable, in the order of the secrets. -/
def environment (namePrefix : String) (secrets : List String) :
    Except GenerationError (Entries String) :=
  (validate secrets).map fun _ => secrets.map fun secret => (secret, variableName namePrefix secret)

end SchemaTypings.Secrets
