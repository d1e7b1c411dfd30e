import PhaseFlow.Json.Access
import PhaseFlow.Json.Reader
import PhaseFlow.Json.Writer
import PhaseFlow.Time.Instant
import PhaseFlow.Identifier
import PhaseFlow.Cancellation
import PhaseFlow.Executor.Registry
import PhaseFlow.Log.Line
import PhaseFlow.Phase.Execution
import PhaseFlow.Graph.Adjacency
import PhaseFlow.Schedule.Levels
import PhaseFlow.Schedule.Lifecycle
import PhaseFlow.Run.Batch
import PhaseFlow.Document.Import
import PhaseFlow.Job.Watch
import PhaseFlow.Definition.Reader
import PhaseFlow.Definition.Build
import PhaseFlow.CommandLine.World
import PhaseFlow.CommandLine.Program
import PhaseFlow.Main
import PhaseFlow.Proofs.Graph.Operation
import PhaseFlow.Proofs.Graph.WellFormed
import PhaseFlow.Proofs.Graph.EdgeIdentity
import PhaseFlow.Proofs.Schedule.Kahn
import PhaseFlow.Proofs.Schedule.Layers
import PhaseFlow.Proofs.Phase.Shift
import PhaseFlow.Proofs.Run.Answer
import PhaseFlow.Proofs.Run.Account
import PhaseFlow.Proofs.Run.Course
import PhaseFlow.Proofs.Run.Dataflow
import PhaseFlow.Proofs.Run.Modes
import PhaseFlow.Proofs.Document.RoundTrip
import PhaseFlow.Proofs.Json.Quoted
import PhaseFlow.Proofs.Number.Rounding
import PhaseFlow.Proofs.Json.Number
import PhaseFlow.Proofs.Json.RoundTrip
import PhaseFlow.Proofs.Json.Canonical
import PhaseFlow.Proofs.Document.Restore
import PhaseFlow.Proofs.Schedule.Cycle
import PhaseFlow.Proofs.Schedule.Least
import PhaseFlow.Proofs.Run.Record
import PhaseFlow.Proofs.Run.Abort
import PhaseFlow.Proofs.Run.History
import PhaseFlow.Proofs.Phase.Script
import PhaseFlow.Proofs.Run.Summary
import PhaseFlow.Proofs.Run.Influence
import PhaseFlow.Proofs.Schedule.Tables
import PhaseFlow.Proofs.Graph.Origin
import PhaseFlow.Proofs.Job.Career
import PhaseFlow.Proofs.Job.Site
import PhaseFlow.Proofs.Job.Joining
import PhaseFlow.Proofs.Job.Lifecycle
import PhaseFlow.Proofs.Job.Bookkeeping
import PhaseFlow.Proofs.Job.Working
import PhaseFlow.Proofs.Job.Watching
import PhaseFlow.Proofs.Definition.Reading
import PhaseFlow.Proofs.Definition.Building
import PhaseFlow.Proofs.Document.Faults
import PhaseFlow.Proofs.Run.Ending
import PhaseFlow.Proofs.Graph.InPlace
import PhaseFlow.Proofs.Run.Refusal
import PhaseFlow.Proofs.Definition.Expansion
import PhaseFlow.Proofs.Definition.Stamps
import PhaseFlow.Proofs.CommandLine.Files
import PhaseFlow.Proofs.CommandLine.Performing
import PhaseFlow.Proofs.CommandLine.Running
import PhaseFlow.Proofs.CommandLine.ExitCodes
import PhaseFlow.Proofs.CommandLine.Validation
import PhaseFlow.Proofs.Phase.Floor
import PhaseFlow.Proofs.Run.Merging
import PhaseFlow.Proofs.Schedule.Depth
import PhaseFlow.Proofs.Log.Reading
import PhaseFlow.Proofs.Log.Records
import PhaseFlow.Proofs.Phase.Settings
import PhaseFlow.Proofs.Text.Encoding
import PhaseFlow.Proofs.Json.TextObject
import PhaseFlow.Proofs.Log.Encoding
import PhaseFlow.Proofs.Definition.References
import PhaseFlow.Proofs.Run.Indifference
import PhaseFlow.Proofs.Run.Observers
import PhaseFlow.Proofs.Phase.Logging
import PhaseFlow.Proofs.CommandLine.Arguments
import PhaseFlow.Proofs.Text.Cutting
import PhaseFlow.Proofs.Log.Previews
import PhaseFlow.Proofs.Run.Closing
import PhaseFlow.Proofs.Definition.Batches
import PhaseFlow.Proofs.Job.Refusals
import PhaseFlow.Proofs.Run.Relaying
import PhaseFlow.Proofs.Time.Timestamps
import PhaseFlow.Proofs.Schedule.Rounds
