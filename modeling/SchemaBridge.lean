import SchemaBridge.Adapter.Basic
import SchemaBridge.Adapter.Error
import SchemaBridge.Compile.Assembly
import SchemaBridge.Compile.Chain
import SchemaBridge.Compile.Document
import SchemaBridge.Compile.Failure
import SchemaBridge.Compile.Ledger
import SchemaBridge.Compile.Plan
import SchemaBridge.Compile.Structure
import SchemaBridge.Constraints
import SchemaBridge.Describe.Adapter
import SchemaBridge.Describe.Document
import SchemaBridge.Describe.Validation
import SchemaBridge.Draft07.Acceptance
import SchemaBridge.Draft07.Pointer
import SchemaBridge.Draft07.Position
import SchemaBridge.Event
import SchemaBridge.Fluent.Adapter
import SchemaBridge.Fluent.Basic
import SchemaBridge.Fluent.Builder
import SchemaBridge.Fluent.Stock
import SchemaBridge.Fluent.Validation
import SchemaBridge.Json.Basic
import SchemaBridge.Json.Decode
import SchemaBridge.Json.Numeral
import SchemaBridge.Json.Printer
import SchemaBridge.Json.Records
import SchemaBridge.Json.Source
import SchemaBridge.Node
import SchemaBridge.Number.Binary64
import SchemaBridge.Number.Power
import SchemaBridge.Number.Shortest
import SchemaBridge.Number.Style
import SchemaBridge.Options.Basic
import SchemaBridge.Options.Document
import SchemaBridge.Options.Error
import SchemaBridge.Options.Variables
import SchemaBridge.Options.Yaml
import SchemaBridge.Policy
import SchemaBridge.Predicate
import SchemaBridge.Registry
import SchemaBridge.Schema
import SchemaBridge.Scripted.Adapter
import SchemaBridge.Scripted.Basic
import SchemaBridge.Shared
import SchemaBridge.Table
import SchemaBridge.Text.Blank
import SchemaBridge.Text.Hexadecimal
import SchemaBridge.Text.Quoted
import SchemaBridge.Text.Visible
import SchemaBridge.Validation.Path
import SchemaBridge.Validation.Report
import SchemaBridge.Validation.Run
import SchemaBridge.Yaml.Entries
import SchemaBridge.Yaml.Glyph
import SchemaBridge.Yaml.Scalar
import SchemaBridge.Yaml.Tag
import SchemaBridge.Yaml.Token
import SchemaBridge.Proofs.Ledger.Naming
import SchemaBridge.Proofs.Plan.Outcome
import SchemaBridge.Proofs.Ledger.Books
import SchemaBridge.Proofs.Chain.Unwrapping
import SchemaBridge.Proofs.Compile.Outcome
import SchemaBridge.Proofs.Ledger.Work
import SchemaBridge.Proofs.Compile.Description
import SchemaBridge.Proofs.Compile.Soundness
import SchemaBridge.Proofs.Draft07.Closure
import SchemaBridge.Proofs.Compile.Vocabulary
import SchemaBridge.Proofs.Compile.References
import SchemaBridge.Proofs.Compile.Calls
import SchemaBridge.Proofs.Compile.Definitions
import SchemaBridge.Proofs.Plain.Acyclic
import SchemaBridge.Proofs.Plain.Recursion
import SchemaBridge.Proofs.Plain.Simulation
import SchemaBridge.Proofs.Plain.Unfolding
import SchemaBridge.Proofs.Plain.Documents
import SchemaBridge.Proofs.Compile.Acceptance
import SchemaBridge.Proofs.Compile.Agreement
import SchemaBridge.Proofs.Fluent.Grants
import SchemaBridge.Proofs.Fluent.Graphs
import SchemaBridge.Proofs.Fluent.Likeness
import SchemaBridge.Proofs.Json.Equality
import SchemaBridge.Proofs.Number.Exact
import SchemaBridge.Proofs.Compile.Naming
import SchemaBridge.Proofs.Compile.Reentries
import SchemaBridge.Proofs.Compile.Required
import SchemaBridge.Proofs.Compile.Runs
import SchemaBridge.Proofs.Compile.Walks
import SchemaBridge.Proofs.Draft07.Keywords
import SchemaBridge.Proofs.Draft07.Structures
import SchemaBridge.Proofs.Fluent.Accepting
import SchemaBridge.Proofs.Fluent.Inside
import SchemaBridge.Proofs.Fluent.Outputs
import SchemaBridge.Proofs.Fluent.Passing
import SchemaBridge.Proofs.Fluent.Structures
import SchemaBridge.Proofs.Fluent.Trails
import SchemaBridge.Proofs.Plan.Parts
import SchemaBridge.Proofs.Table.LastEntries
import SchemaBridge.Proofs.Vendors
import SchemaBridge.Proofs.Compile.Completion
import SchemaBridge.Proofs.Fluent.Settling
import SchemaBridge.Proofs.Fluent.Rejecting
import SchemaBridge.Proofs.Describe.Answers
import SchemaBridge.Proofs.Describe.Consistency
import SchemaBridge.Proofs.Describe.Structures
import SchemaBridge.Proofs.Describe.Accepting
import SchemaBridge.Proofs.Validation.Accessor
import SchemaBridge.Proofs.Validation.Delimited
import SchemaBridge.Proofs.Validation.Positions
import SchemaBridge.Proofs.Validation.Spellings
import SchemaBridge.Proofs.Compile.Termination
import SchemaBridge.Proofs.Compile.WellFormed
import SchemaBridge.Proofs.Mirror.Graphs
import SchemaBridge.Proofs.Mirror.Plans
import SchemaBridge.Proofs.Mirror.Books
import SchemaBridge.Proofs.Mirror.Runs
import SchemaBridge.Proofs.Plan.Shapes
import SchemaBridge.Proofs.Compile.Limits
import SchemaBridge.Proofs.Draft07.Resolution
import SchemaBridge.Proofs.Compile.Productive
import SchemaBridge.Proofs.Draft07.Citations
import SchemaBridge.Proofs.Plan.Answers
import SchemaBridge.Proofs.Compile.Citations
import SchemaBridge.Proofs.Draft07.Widening
import SchemaBridge.Proofs.Plan.Widening
import SchemaBridge.Proofs.Chain.Families
import SchemaBridge.Proofs.Compile.Entries
import SchemaBridge.Proofs.Compile.Widening
import SchemaBridge.Proofs.Plain.Graphs
import SchemaBridge.Proofs.Fluent.Unfolding
import SchemaBridge.Proofs.Compile.Shortening
import SchemaBridge.Proofs.Compile.Registration
import SchemaBridge.Proofs.Compile.Bounds
import SchemaBridge.Proofs.Compile.ReferenceBounds
import SchemaBridge.Proofs.Mirror.Built
import SchemaBridge.Proofs.Vendors.Built
import SchemaBridge.Proofs.Compile.StandIns
import SchemaBridge.Proofs.Compile.Failures
import SchemaBridge.Proofs.Vendors.Failures
import SchemaBridge.Proofs.Fluent.Repeating
import SchemaBridge.Proofs.Fluent.Enclosing
import SchemaBridge.Proofs.Fluent.Defaults
import SchemaBridge.Proofs.Fluent.Bounds
import SchemaBridge.Proofs.Compile.Arity
import SchemaBridge.Proofs.Describe.Predicates
import SchemaBridge.Proofs.Draft07.Writing
import SchemaBridge.Proofs.Draft07.Parts
import SchemaBridge.Proofs.Draft07.Reading
import SchemaBridge.Proofs.Plan.Own
import SchemaBridge.Proofs.Compile.Shadowing
import SchemaBridge.Proofs.Compile.Nullable
import SchemaBridge.Proofs.Compile.Annotations
import SchemaBridge.Proofs.Describe.Peeling
import SchemaBridge.Proofs.Describe.Elements
import SchemaBridge.Proofs.Compile.PlainNames
import SchemaBridge.Proofs.Draft07.LegalBounds
import SchemaBridge.Proofs.Compile.StatedBounds
import SchemaBridge.Proofs.Compile.Moments
import SchemaBridge.Proofs.Compile.Framing
