import ChangeFeed.Applier
import ChangeFeed.Calendar.Basic
import ChangeFeed.Calendar.Read
import ChangeFeed.Calendar.Write
import ChangeFeed.Channel
import ChangeFeed.Checkpoint.Basic
import ChangeFeed.Checkpoint.Persister
import ChangeFeed.Checkpoint.Store
import ChangeFeed.ColumnType.Basic
import ChangeFeed.ColumnType.Name
import ChangeFeed.Command.Answer
import ChangeFeed.Command.Arguments
import ChangeFeed.Command.Basic
import ChangeFeed.Command.Host
import ChangeFeed.Connection.Address
import ChangeFeed.Connection.Redacted
import ChangeFeed.Connection.Settings
import ChangeFeed.Connection.Target
import ChangeFeed.DataSource
import ChangeFeed.Digest.Sha256
import ChangeFeed.Duration
import ChangeFeed.Event.Basic
import ChangeFeed.Event.Document
import ChangeFeed.Failure
import ChangeFeed.Feed.Fault
import ChangeFeed.Feed.Lifecycle
import ChangeFeed.Feed.Loop
import ChangeFeed.Feed.Settings
import ChangeFeed.Files.Basic
import ChangeFeed.Job.Pipeline
import ChangeFeed.Job.Run
import ChangeFeed.Job.Schedule
import ChangeFeed.Job.Settings
import ChangeFeed.Json.Basic
import ChangeFeed.Json.Canonical
import ChangeFeed.Json.Numeral
import ChangeFeed.Json.Read
import ChangeFeed.Json.Shape
import ChangeFeed.Json.Write
import ChangeFeed.Main
import ChangeFeed.Number.Binary
import ChangeFeed.Number.Decimal
import ChangeFeed.Number.Hex
import ChangeFeed.Number.Integer
import ChangeFeed.Number.Shortest
import ChangeFeed.Plugin.Basic
import ChangeFeed.Plugin.Fault
import ChangeFeed.Plugin.LineForm
import ChangeFeed.Plugin.Literal
import ChangeFeed.Plugin.RowForm
import ChangeFeed.Position
import ChangeFeed.Proofs.Applier.Batches
import ChangeFeed.Proofs.Applier.Course
import ChangeFeed.Proofs.Applier.Lines
import ChangeFeed.Proofs.Applier.Transition
import ChangeFeed.Proofs.Calendar.Count
import ChangeFeed.Proofs.Calendar.Literal
import ChangeFeed.Proofs.Calendar.Stored
import ChangeFeed.Proofs.Channel.Interleaving
import ChangeFeed.Proofs.Channel.Order
import ChangeFeed.Proofs.Checkpoint.Crash
import ChangeFeed.Proofs.Checkpoint.Directory
import ChangeFeed.Proofs.Checkpoint.Document
import ChangeFeed.Proofs.Checkpoint.Isolation
import ChangeFeed.Proofs.Checkpoint.Ownership
import ChangeFeed.Proofs.Checkpoint.Persister
import ChangeFeed.Proofs.ColumnType.Marks
import ChangeFeed.Proofs.ColumnType.Modifiers
import ChangeFeed.Proofs.ColumnType.Spelling
import ChangeFeed.Proofs.ColumnType.Words
import ChangeFeed.Proofs.Connection.Redacted
import ChangeFeed.Proofs.Duration
import ChangeFeed.Proofs.Except
import ChangeFeed.Proofs.Feed.Batch
import ChangeFeed.Proofs.Feed.Confirming
import ChangeFeed.Proofs.Feed.Coverage
import ChangeFeed.Proofs.Feed.Ending
import ChangeFeed.Proofs.Feed.Framing
import ChangeFeed.Proofs.Feed.Grouping
import ChangeFeed.Proofs.Feed.History
import ChangeFeed.Proofs.Feed.Life
import ChangeFeed.Proofs.Feed.Midway
import ChangeFeed.Proofs.Feed.Outcome
import ChangeFeed.Proofs.Feed.Reconnect
import ChangeFeed.Proofs.Feed.Replay
import ChangeFeed.Proofs.Feed.Resumption
import ChangeFeed.Proofs.Feed.Stopping
import ChangeFeed.Proofs.Feed.Trail
import ChangeFeed.Proofs.Feed.Turn
import ChangeFeed.Proofs.Feed.Wholeness
import ChangeFeed.Proofs.Files.Path
import ChangeFeed.Proofs.Files.Tree
import ChangeFeed.Proofs.Job.Accounts
import ChangeFeed.Proofs.Job.Custody
import ChangeFeed.Proofs.Job.Deployment
import ChangeFeed.Proofs.Job.Handover
import ChangeFeed.Proofs.Job.Rules
import ChangeFeed.Proofs.Job.Startable
import ChangeFeed.Proofs.Job.Stopped
import ChangeFeed.Proofs.Job.Turns
import ChangeFeed.Proofs.Job.World
import ChangeFeed.Proofs.Json.Accuracy
import ChangeFeed.Proofs.Json.Completeness
import ChangeFeed.Proofs.Json.Grammar
import ChangeFeed.Proofs.Json.Leaf
import ChangeFeed.Proofs.Json.Line
import ChangeFeed.Proofs.Json.Numeral
import ChangeFeed.Proofs.Json.Real
import ChangeFeed.Proofs.Json.RoundTrip
import ChangeFeed.Proofs.Json.Scaling
import ChangeFeed.Proofs.Json.Shape
import ChangeFeed.Proofs.Json.Soundness
import ChangeFeed.Proofs.Json.Transcript
import ChangeFeed.Proofs.Number.Decimal
import ChangeFeed.Proofs.Number.DecimalRounding
import ChangeFeed.Proofs.Number.DecimalText
import ChangeFeed.Proofs.Number.Digits
import ChangeFeed.Proofs.Number.Hex
import ChangeFeed.Proofs.Number.IntegerText
import ChangeFeed.Proofs.Number.Magnitude
import ChangeFeed.Proofs.Number.Nearness
import ChangeFeed.Proofs.Number.Positional
import ChangeFeed.Proofs.Number.Rounding
import ChangeFeed.Proofs.Number.Shortest
import ChangeFeed.Proofs.Number.TwoRoundings
import ChangeFeed.Proofs.Plugin.Position
import ChangeFeed.Proofs.Plugin.RowDocument
import ChangeFeed.Proofs.Plugin.RowLine
import ChangeFeed.Proofs.Plugin.Spelling
import ChangeFeed.Proofs.Plugin.Truncation
import ChangeFeed.Proofs.Position.Order
import ChangeFeed.Proofs.Position.Spelling
import ChangeFeed.Proofs.Position.Text
import ChangeFeed.Proofs.Record.Document
import ChangeFeed.Proofs.Record.Identity
import ChangeFeed.Proofs.Record.Tracking
import ChangeFeed.Proofs.Record.Typing
import ChangeFeed.Proofs.Schema.Document
import ChangeFeed.Proofs.Schema.Edits
import ChangeFeed.Proofs.Schema.Lookup
import ChangeFeed.Proofs.Session.Agreement
import ChangeFeed.Proofs.Session.Bookkeeping
import ChangeFeed.Proofs.Session.Delivery
import ChangeFeed.Proofs.Session.Refusal
import ChangeFeed.Proofs.Session.Release
import ChangeFeed.Proofs.Session.SlotName
import ChangeFeed.Proofs.Session.SlotServer
import ChangeFeed.Proofs.Session.Tally
import ChangeFeed.Proofs.Text.Case
import ChangeFeed.Proofs.Text.Cut
import ChangeFeed.Proofs.Text.Trim
import ChangeFeed.Proofs.Text.Utf8
import ChangeFeed.Proofs.Text.Words
import ChangeFeed.Proofs.Uuid
import ChangeFeed.Proofs.Value.ArrayLiteral
import ChangeFeed.Proofs.Value.Document
import ChangeFeed.Proofs.Value.FloatingPoint
import ChangeFeed.Proofs.Value.JsonNumber
import ChangeFeed.Proofs.Value.Literal
import ChangeFeed.Proofs.Value.SinglePrecision
import ChangeFeed.Proofs.Value.Temporal
import ChangeFeed.Proofs.Value.Typing
import ChangeFeed.RateLimit
import ChangeFeed.Record.Basic
import ChangeFeed.Record.Converter
import ChangeFeed.Record.Document
import ChangeFeed.Rehearsal.Applier
import ChangeFeed.Rehearsal.Channel
import ChangeFeed.Rehearsal.Clock
import ChangeFeed.Rehearsal.Feed
import ChangeFeed.Rehearsal.Job
import ChangeFeed.Rehearsal.Persister
import ChangeFeed.Rehearsal.Site
import ChangeFeed.Schema.Basic
import ChangeFeed.Schema.Document
import ChangeFeed.Schema.Lookup
import ChangeFeed.Session.Basic
import ChangeFeed.Session.DeliveryLog
import ChangeFeed.Session.Fault
import ChangeFeed.Session.SlotName
import ChangeFeed.Session.Statement
import ChangeFeed.Text.Blank
import ChangeFeed.Text.Cut
import ChangeFeed.Text.Quoted
import ChangeFeed.Text.Unshown
import ChangeFeed.Text.Utf8
import ChangeFeed.Toml.Numeral
import ChangeFeed.Toml.Read
import ChangeFeed.Toml.Table
import ChangeFeed.Toml.Text
import ChangeFeed.TransactionBuffer
import ChangeFeed.Uuid
import ChangeFeed.Value.ArrayLiteral
import ChangeFeed.Value.Basic
import ChangeFeed.Value.Document
import ChangeFeed.Value.Read
