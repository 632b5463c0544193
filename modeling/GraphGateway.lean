import GraphGateway.Checked
import GraphGateway.CommandLine.Arguments
import GraphGateway.CommandLine.Help
import GraphGateway.CommandLine.Run
import GraphGateway.Config.Basic
import GraphGateway.Config.FieldTest
import GraphGateway.Config.LogFilter
import GraphGateway.Config.LogRule
import GraphGateway.Digest.Md5
import GraphGateway.Document.Basic
import GraphGateway.Document.BlockString
import GraphGateway.Document.Lexeme
import GraphGateway.Document.Literal
import GraphGateway.Document.Parse
import GraphGateway.Document.Position
import GraphGateway.Document.Scan
import GraphGateway.Document.SyntaxError
import GraphGateway.Document.Token
import GraphGateway.Double.Basic
import GraphGateway.Double.Literal
import GraphGateway.Double.Shortest
import GraphGateway.Execution.Failure
import GraphGateway.Execution.Run
import GraphGateway.Execution.Schedule
import GraphGateway.Execution.Task
import GraphGateway.Execution.Unfold
import GraphGateway.Gateway.Basic
import GraphGateway.Gateway.Counters
import GraphGateway.Gateway.Envelope
import GraphGateway.Gateway.Event
import GraphGateway.Gateway.PlanCache
import GraphGateway.Gateway.RequestId
import GraphGateway.Gateway.Session
import GraphGateway.Http.Message
import GraphGateway.Http.Origin
import GraphGateway.Http.Router
import GraphGateway.Http.SocketAddress
import GraphGateway.Json.Basic
import GraphGateway.Json.Cursor
import GraphGateway.Json.Fault
import GraphGateway.Json.Printer
import GraphGateway.Json.Reader
import GraphGateway.Json.Shape
import GraphGateway.Json.Skip
import GraphGateway.Library.Authors
import GraphGateway.Library.Schema
import GraphGateway.Main
import GraphGateway.Ordered
import GraphGateway.Pattern.Basic
import GraphGateway.Pattern.CharSet
import GraphGateway.Pattern.Parse
import GraphGateway.Plan.Basic
import GraphGateway.Plan.Compile
import GraphGateway.Plan.CompileError
import GraphGateway.Plan.Conflict
import GraphGateway.Plan.FieldGroup
import GraphGateway.Plan.Variables
import GraphGateway.Response
import GraphGateway.Response.Reading
import GraphGateway.Result
import GraphGateway.Schema.Basic
import GraphGateway.Schema.Build
import GraphGateway.Schema.Coercion
import GraphGateway.Schema.Resolver
import GraphGateway.Schema.Scalar
import GraphGateway.Text.Alphanumeric
import GraphGateway.Text.Blank
import GraphGateway.Text.CharTable
import GraphGateway.Text.Combining
import GraphGateway.Text.Pieces
import GraphGateway.Text.Quoted
import GraphGateway.Text.Unprintable
import GraphGateway.Text.Utf8
import GraphGateway.TypeRef
import GraphGateway.Proofs.Gateway.CacheContents
import GraphGateway.Proofs.Gateway.Preparation
import GraphGateway.Proofs.Execution.Journal
import GraphGateway.Proofs.Execution.Progress
import GraphGateway.Proofs.Gateway.Transparency
import GraphGateway.Proofs.Plan.Groups
import GraphGateway.Proofs.Plan.Heads
import GraphGateway.Proofs.Execution.Unfolded
import GraphGateway.Proofs.Execution.Delays
import GraphGateway.Proofs.Plan.MapHeads
import GraphGateway.Proofs.Plan.MappedSets
import GraphGateway.Proofs.Execution.DelayedPlan
import GraphGateway.Proofs.Execution.Accounting
import GraphGateway.Proofs.Execution.NullPropagation
import GraphGateway.Proofs.Document.Grammar
import GraphGateway.Proofs.Document.Reads
import GraphGateway.Proofs.Document.Values
import GraphGateway.Proofs.Document.Printing
import GraphGateway.Proofs.Document.RoundTrip
import GraphGateway.Proofs.Plan.Acceptance
import GraphGateway.Proofs.Plan.Templates
import GraphGateway.Proofs.Plan.Declarations
import GraphGateway.Proofs.Execution.Invocations
import GraphGateway.Proofs.Execution.ResolverArguments
import GraphGateway.Proofs.Gateway.Course
import GraphGateway.Proofs.Gateway.Conservation
import GraphGateway.Proofs.Gateway.FailedPreparation
import GraphGateway.Proofs.Gateway.Memory
import GraphGateway.Proofs.Gateway.SingleCompilation
import GraphGateway.Proofs.Plan.ArgumentEquality
import GraphGateway.Proofs.Plan.Placed
import GraphGateway.Proofs.Plan.Merging
import GraphGateway.Proofs.Execution.Leads
import GraphGateway.Proofs.Response.Encoding
import GraphGateway.Proofs.Plan.DelayedSchema
import GraphGateway.Proofs.Gateway.ResolverModes
import GraphGateway.Proofs.Execution.Panics
import GraphGateway.Proofs.Gateway.ResponseClasses
import GraphGateway.Proofs.Json.Progress
import GraphGateway.Proofs.Json.Records
import GraphGateway.Proofs.Gateway.EnvelopeReading
import GraphGateway.Proofs.Http.Queries
import GraphGateway.Proofs.Document.Fragments
import GraphGateway.Proofs.Plan.Faultless
import GraphGateway.Proofs.Plan.InlinedSets
import GraphGateway.Proofs.Plan.Walk
import GraphGateway.Proofs.Plan.FragmentCycles
import GraphGateway.Proofs.Plan.UsedVariables
import GraphGateway.Proofs.Plan.Nesting
import GraphGateway.Proofs.Plan.Environment
import GraphGateway.Proofs.Plan.Inlining
import GraphGateway.Proofs.Plan.Flags
import GraphGateway.Proofs.Plan.Literals
import GraphGateway.Proofs.Plan.RequestVariables
import GraphGateway.Proofs.Execution.Reduced
import GraphGateway.Proofs.Plan.Folding
import GraphGateway.Proofs.Plan.CompiledFields
import GraphGateway.Proofs.Plan.ResponseKeys
import GraphGateway.Proofs.Plan.Siblings
import GraphGateway.Proofs.Execution.Siblings
import GraphGateway.Proofs.Execution.Sites
import GraphGateway.Proofs.Plan.MergedSelections
import GraphGateway.Proofs.Plan.MergedFields
import GraphGateway.Proofs.Execution.InvocationSites
import GraphGateway.Proofs.Execution.InvocationPaths
import GraphGateway.Proofs.Execution.MergedFields
import GraphGateway.Proofs.Plan.ArgumentOutcomes
import GraphGateway.Proofs.Plan.WrittenFields
import GraphGateway.Proofs.Execution.ExecutedFields
import GraphGateway.Proofs.Execution.ExecutedTasks
import GraphGateway.Proofs.Execution.ArgumentDefaults
import GraphGateway.Proofs.Plan.SentLiterals
import GraphGateway.Proofs.Plan.Substitution
import GraphGateway.Proofs.Plan.DroppedVariables
import GraphGateway.Proofs.Plan.SubstitutedPlans
import GraphGateway.Proofs.Execution.ReadVariables
import GraphGateway.Proofs.Execution.Substitution
import GraphGateway.Proofs.Schema.Consistency
import GraphGateway.Proofs.Document.Lexemes
import GraphGateway.Proofs.Document.Alternation
import GraphGateway.Proofs.Gateway.Recency
import GraphGateway.Proofs.Execution.Frame
import GraphGateway.Proofs.Execution.InTurn
import GraphGateway.Proofs.Document.Foresight
import GraphGateway.Proofs.Document.Continuations
import GraphGateway.Proofs.Document.FirstImpossible
import GraphGateway.Proofs.Document.Dedent
import GraphGateway.Proofs.Schema.Scalars
import GraphGateway.Proofs.Plan.Faults
import GraphGateway.Proofs.Plan.LiteralConditions
import GraphGateway.Proofs.Plan.ReachedFragments
import GraphGateway.Proofs.Plan.ConstantArguments
import GraphGateway.Proofs.Execution.Objects
import GraphGateway.Proofs.Http.Routes
import GraphGateway.Proofs.Library.AuthorLookup
import GraphGateway.Proofs.Library.NameDigests
import GraphGateway.Proofs.Document.Slices
import GraphGateway.Proofs.Document.Descent
import GraphGateway.Proofs.Document.Bounds
import GraphGateway.Proofs.Document.Progress
