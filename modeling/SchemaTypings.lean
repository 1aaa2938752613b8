import SchemaTypings.Main
import SchemaTypings.Schema.Registry
import SchemaTypings.Writer
import SchemaTypings.Declaration.Grammar
import SchemaTypings.Proofs.Derivation.Soundness
import SchemaTypings.Proofs.Derivation.Completeness
import SchemaTypings.Proofs.Lexing.Pieces
import SchemaTypings.Proofs.Derivation.Files
import SchemaTypings.Proofs.Derivation.Move
import SchemaTypings.Proofs.Lexing.Locality
import SchemaTypings.Proofs.Derivation.Hole
import SchemaTypings.Proofs.Lexing.Placement
import SchemaTypings.Proofs.Editing.TypeText
import SchemaTypings.Proofs.Editing.SetType
import SchemaTypings.Proofs.Editing.Spans
import SchemaTypings.Proofs.Editing.Edits
import SchemaTypings.Proofs.Trees.Flattening
import SchemaTypings.Proofs.Trees.Frame
import SchemaTypings.Proofs.Trees.Binding
import SchemaTypings.Proofs.Shapes.Agreement
import SchemaTypings.Proofs.Naming
import SchemaTypings.Proofs.Shapes.Declarations
import SchemaTypings.Proofs.Json.Quoting
import SchemaTypings.Proofs.Writing.Spelling
import SchemaTypings.Proofs.Writing.Types
import SchemaTypings.Proofs.Writing.Keys
import SchemaTypings.Proofs.Writing.Members
import SchemaTypings.Proofs.Writing.Rendering
import SchemaTypings.Proofs.Writing.Sections
import SchemaTypings.Proofs.Writing.Signatures
import SchemaTypings.Proofs.Writing.Statements
import SchemaTypings.Proofs.Writing.Comments
import SchemaTypings.Proofs.Editing.Splices
import SchemaTypings.Proofs.Editing.Patching
import SchemaTypings.Proofs.Trees.Substitution
import SchemaTypings.Proofs.Schemas.Construction
import SchemaTypings.Proofs.Schemas.Plain
import SchemaTypings.Proofs.Schemas.Intact
import SchemaTypings.Proofs.Schemas.Embedding
import SchemaTypings.Proofs.Lexing.Padding
import SchemaTypings.Proofs.Writing.Lines
import SchemaTypings.Proofs.Writing.Layout
import SchemaTypings.Proofs.Writing.Identifiers
import SchemaTypings.Proofs.Generation.Items
import SchemaTypings.Proofs.Generation.Reading
import SchemaTypings.Proofs.Generation.Fields
import SchemaTypings.Proofs.Generation.Writable
import SchemaTypings.Proofs.Generation.Outline
import SchemaTypings.Proofs.Generation.Augmented
import SchemaTypings.Proofs.Generation.Names
import SchemaTypings.Proofs.Quoted
import SchemaTypings.Proofs.Derivation.Prefixes
import SchemaTypings.Proofs.Derivation.Faults
import SchemaTypings.Proofs.Editing.Likeness
import SchemaTypings.Proofs.Editing.Repetition
import SchemaTypings.Proofs.Generation.Nesting
import SchemaTypings.Proofs.Derivation.Concatenation
import SchemaTypings.Proofs.Editing.Concatenation
import SchemaTypings.Proofs.Generation.Bodies
import SchemaTypings.Proofs.Generation.Hiding
import SchemaTypings.Proofs.Generation.Independence
import SchemaTypings.Proofs.Schemas.Implicit
import SchemaTypings.Proofs.Shapes.Hoisting
import SchemaTypings.Proofs.Writing.Capitals
import SchemaTypings.Proofs.Generation.References
import SchemaTypings.Proofs.Schemas.PlainDefinition
import SchemaTypings.Proofs.Generation.DocumentIds
import SchemaTypings.Proofs.Schemas.Occurrence
import SchemaTypings.Proofs.Schemas.Replacements
import SchemaTypings.Proofs.Generation.Embedded
import SchemaTypings.Proofs.Editing.FailedAppend
import SchemaTypings.Proofs.Generation.Containers
import SchemaTypings.Proofs.Generation.Virtuals
import SchemaTypings.Proofs.Generation.Labels
import SchemaTypings.Proofs.Generation.FieldNames
import SchemaTypings.Proofs.Lexing.Coverage
import SchemaTypings.Proofs.Editing.LastWrite
import SchemaTypings.Proofs.Editing.Appending
import SchemaTypings.Proofs.Json.Verbatim
import SchemaTypings.Proofs.Generation.Unions
import SchemaTypings.Proofs.Signatures.Splitting
import SchemaTypings.Proofs.Signatures.Receivers
import SchemaTypings.Proofs.Generation.Requirements
import SchemaTypings.Proofs.Derivation.Depth
import SchemaTypings.Proofs.Writing.Expressions
import SchemaTypings.Proofs.Writing.Numbers
import SchemaTypings.Proofs.Annotations.Parts
import SchemaTypings.Proofs.Signatures.Functions
import SchemaTypings.Proofs.Annotations.Types
import SchemaTypings.Proofs.Editing.Overwriting
import SchemaTypings.Proofs.Annotations.Promises
import SchemaTypings.Proofs.Annotations.Respelling
import SchemaTypings.Proofs.Derivation.FaultyNames
import SchemaTypings.Proofs.Trees.RoundTrip
import SchemaTypings.Proofs.Schemas.NormalForms
import SchemaTypings.Proofs.CommandLine.Configuration
import SchemaTypings.Proofs.Generation.Imports
import SchemaTypings.Proofs.CommandLine.Outcomes
import SchemaTypings.Proofs.CommandLine.Quiet
import SchemaTypings.Proofs.CommandLine.AllOrNothing
