import RecordCuration.Annotation
import RecordCuration.CommandLine.Arguments
import RecordCuration.CommandLine.Run
import RecordCuration.CommandLine.Settings
import RecordCuration.Decimal.Double
import RecordCuration.Decimal.Numeral
import RecordCuration.Decimal.Shortest
import RecordCuration.Draft7.Check
import RecordCuration.Draft7.Fault
import RecordCuration.Draft7.MetaSchema
import RecordCuration.Draft7.Reference
import RecordCuration.Draft7.Schema
import RecordCuration.Draft7.SchemaReader
import RecordCuration.Engine
import RecordCuration.File.Name
import RecordCuration.File.Tree
import RecordCuration.File.View
import RecordCuration.Format.DateTime
import RecordCuration.Format.Duration
import RecordCuration.Format.Uri
import RecordCuration.Frame
import RecordCuration.Graph.Basic
import RecordCuration.Graph.Document
import RecordCuration.Graph.Error
import RecordCuration.Issue
import RecordCuration.Json.Basic
import RecordCuration.Json.Fault
import RecordCuration.Json.Members
import RecordCuration.Json.Parser
import RecordCuration.Json.Printer
import RecordCuration.Json.Source
import RecordCuration.JsonSchema
import RecordCuration.Main
import RecordCuration.Model.Basic
import RecordCuration.Model.Error
import RecordCuration.Model.Library
import RecordCuration.Model.Reader
import RecordCuration.Model.Types
import RecordCuration.Model.Version
import RecordCuration.Model.Walk
import RecordCuration.Path.Basic
import RecordCuration.Path.Cursor
import RecordCuration.Proofs.Annotation.Typed
import RecordCuration.Proofs.Annotation.Untyped
import RecordCuration.Proofs.CommandLine.Revalidation
import RecordCuration.Proofs.Draft7.Depth
import RecordCuration.Proofs.Draft7.Emitted
import RecordCuration.Proofs.Draft7.Fragment
import RecordCuration.Proofs.Draft7.Library
import RecordCuration.Proofs.Draft7.Location
import RecordCuration.Proofs.Draft7.Pointing
import RecordCuration.Proofs.Envelope
import RecordCuration.Proofs.ErrorTable
import RecordCuration.Proofs.Format.Duration
import RecordCuration.Proofs.Frame
import RecordCuration.Proofs.Graph.Built
import RecordCuration.Proofs.Graph.FrameDocument
import RecordCuration.Proofs.Graph.Ids
import RecordCuration.Proofs.Graph.OfModel
import RecordCuration.Proofs.Graph.Saved
import RecordCuration.Proofs.Json.Fault
import RecordCuration.Proofs.Json.Read
import RecordCuration.Proofs.Json.Same
import RecordCuration.Proofs.Json.Size
import RecordCuration.Proofs.Json.WellFormed
import RecordCuration.Proofs.JsonSchema.Accounts
import RecordCuration.Proofs.JsonSchema.Compile
import RecordCuration.Proofs.JsonSchema.Conformance
import RecordCuration.Proofs.JsonSchema.Emission
import RecordCuration.Proofs.JsonSchema.Existence
import RecordCuration.Proofs.JsonSchema.Faults
import RecordCuration.Proofs.JsonSchema.Omission
import RecordCuration.Proofs.JsonSchema.Order
import RecordCuration.Proofs.JsonSchema.Pool
import RecordCuration.Proofs.JsonSchema.Reference
import RecordCuration.Proofs.JsonSchema.Reloaded
import RecordCuration.Proofs.JsonSchema.Repetition
import RecordCuration.Proofs.JsonSchema.Targets
import RecordCuration.Proofs.Model.Completeness
import RecordCuration.Proofs.Model.Consistency
import RecordCuration.Proofs.Model.Discovery
import RecordCuration.Proofs.Model.Library
import RecordCuration.Proofs.Model.Meaning
import RecordCuration.Proofs.Model.Repetition
import RecordCuration.Proofs.Model.Reread
import RecordCuration.Proofs.Model.Search
import RecordCuration.Proofs.Model.Version
import RecordCuration.Proofs.Model.Walk
import RecordCuration.Proofs.Model.Written
import RecordCuration.Proofs.Outcome
import RecordCuration.Proofs.Path.Alike
import RecordCuration.Proofs.Path.Frame
import RecordCuration.Proofs.Path.Lens
import RecordCuration.Proofs.Path.Navigation
import RecordCuration.Proofs.Path.Numeral
import RecordCuration.Proofs.Path.Place
import RecordCuration.Proofs.Path.Pointer
import RecordCuration.Proofs.Path.Relative
import RecordCuration.Proofs.Path.RoundTrip
import RecordCuration.Proofs.Path.Walk
import RecordCuration.Proofs.Repair.Account
import RecordCuration.Proofs.Repair.Budget
import RecordCuration.Proofs.Repair.Convergence
import RecordCuration.Proofs.Repair.Course
import RecordCuration.Proofs.Repair.Dates
import RecordCuration.Proofs.Repair.Debt
import RecordCuration.Proofs.Repair.Ending
import RecordCuration.Proofs.Repair.Failure
import RecordCuration.Proofs.Repair.Idempotence
import RecordCuration.Proofs.Repair.Mend
import RecordCuration.Proofs.Repair.Priority
import RecordCuration.Proofs.Repair.Recovery
import RecordCuration.Proofs.Repair.Restoration
import RecordCuration.Proofs.Repair.Run
import RecordCuration.Proofs.Repair.Shorn
import RecordCuration.Proofs.Repair.Spot
import RecordCuration.Proofs.Repair.Tally
import RecordCuration.Proofs.Repair.Under
import RecordCuration.Proofs.Sample
import RecordCuration.Proofs.Store.Bookkeeping
import RecordCuration.Proofs.Store.Built
import RecordCuration.Proofs.Store.Ingest
import RecordCuration.Record
import RecordCuration.Repair.Pass
import RecordCuration.Repair.Rule
import RecordCuration.Repair.Run
import RecordCuration.Report
import RecordCuration.Store.Basic
import RecordCuration.Store.Ingest
import RecordCuration.Table
import RecordCuration.Text.CombiningMark
import RecordCuration.Text.DecimalDigit
import RecordCuration.Text.Delimited
import RecordCuration.Text.Digit
import RecordCuration.Text.Hidden
import RecordCuration.Text.Quoted
import RecordCuration.Text.Split
import RecordCuration.Validator
import RecordCuration.Yaml.Node
import RecordCuration.Yaml.Reader
import RecordCuration.Yaml.Scalar
