import SchemaTypings.Output.Store
import SchemaTypings.Package
import SchemaTypings.Typescript.Exports
import SchemaTypings.Schema.Convert
import SchemaTypings.Definition.Load
import SchemaTypings.Definition.Doc
import SchemaTypings.Template.Engine
import SchemaTypings.Logging
import SchemaTypings.Proofs.Store.History
import SchemaTypings.Proofs.Schema.Soundness
import SchemaTypings.Proofs.Typescript.RoundTrip
import SchemaTypings.Proofs.Naming.Letters
import SchemaTypings.Proofs.Output.Flattened
import SchemaTypings.Proofs.Package.Closure
import SchemaTypings.Proofs.Path.Place
import SchemaTypings.Proofs.Path.Specifier
import SchemaTypings.Proofs.Output.Files
import SchemaTypings.Proofs.Output.Site
import SchemaTypings.Proofs.Store.Layout
import SchemaTypings.Proofs.Output.Relocation
import SchemaTypings.Proofs.Store.Relocation
import SchemaTypings.Proofs.Output.Reexport
import SchemaTypings.Proofs.Store.Reexport
import SchemaTypings.Proofs.Typescript.Pages
import SchemaTypings.Proofs.Naming.Kebab
import SchemaTypings.Proofs.Path.Directory
import SchemaTypings.Proofs.Package.Trees
import SchemaTypings.Proofs.Package.Confinement
import SchemaTypings.Proofs.Package.Pointing
import SchemaTypings.Proofs.Package.Unambiguous
import SchemaTypings.Proofs.Schema.External
import SchemaTypings.Proofs.Schema.Intersection
import SchemaTypings.Proofs.Schema.Blame
import SchemaTypings.Proofs.Store.Collision
import SchemaTypings.Proofs.Typescript.Scraped
import SchemaTypings.Proofs.Section.SchemaFault
import SchemaTypings.Proofs.Naming.PropertyKey
import SchemaTypings.Proofs.Section.SecretNames
import SchemaTypings.Proofs.Package.Record
import SchemaTypings.Proofs.Typescript.Nulls
import SchemaTypings.Proofs.Typescript.NullableField
import SchemaTypings.Proofs.Store.Cells
import SchemaTypings.Proofs.Store.Heap
import SchemaTypings.Proofs.Store.Written
import SchemaTypings.Proofs.Store.Replay
import SchemaTypings.Proofs.Package.Quoting
import SchemaTypings.Proofs.Package.BotIndex
import SchemaTypings.Proofs.Schema.LocalReference
import SchemaTypings.Proofs.Schema.Nesting
import SchemaTypings.Proofs.Schema.Descent
import SchemaTypings.Proofs.Typescript.References
import SchemaTypings.Proofs.Schema.Grouping
import SchemaTypings.Proofs.Typescript.NullSpelling
import SchemaTypings.Proofs.Typescript.RawSource
import SchemaTypings.Proofs.Typescript.DocBlock
import SchemaTypings.Proofs.Typescript.Allocation
import SchemaTypings.Proofs.Path.Return
import SchemaTypings.Proofs.Path.Lexical
import SchemaTypings.Proofs.Package.Independence
import SchemaTypings.Proofs.Typescript.Format
import SchemaTypings.Proofs.Typescript.Literal
import SchemaTypings.Proofs.Typescript.NestedName
import SchemaTypings.Proofs.Definition.RoundTrip
import SchemaTypings.Proofs.Naming.Respelled
import SchemaTypings.Proofs.Section.Registrations
import SchemaTypings.Proofs.Template.Additions
import SchemaTypings.Proofs.Config.Layers
