import SpanRelay.Attribute.Limits
import SpanRelay.Attribute.Value
import SpanRelay.Backlog
import SpanRelay.Backlog.Contention
import SpanRelay.Backlog.Links
import SpanRelay.Callback
import SpanRelay.Clock
import SpanRelay.Config
import SpanRelay.ContextStack
import SpanRelay.Delivery.Http
import SpanRelay.Delivery.Outcome
import SpanRelay.Delivery.ProbabilityHeader
import SpanRelay.Dictionary
import SpanRelay.Event
import SpanRelay.Hold
import SpanRelay.Json.Number
import SpanRelay.Json.Printer
import SpanRelay.Json.Reader
import SpanRelay.Json.Value
import SpanRelay.Number.Binary64
import SpanRelay.Number.DecimalText
import SpanRelay.Number.Layout
import SpanRelay.Number.Shortest
import SpanRelay.Payload.Basic
import SpanRelay.Payload.Encoder
import SpanRelay.Payload.Reports
import SpanRelay.Payload.Wire
import SpanRelay.Platform.Crc32
import SpanRelay.Platform.NameHash
import SpanRelay.Platform.Sha1
import SpanRelay.Platform.Standard
import SpanRelay.Platform.StoredGzip
import SpanRelay.Plugin
import SpanRelay.Proofs.Attribute.Clamping
import SpanRelay.Proofs.Backlog.Contest
import SpanRelay.Proofs.Backlog.Fifo
import SpanRelay.Proofs.Backlog.Links
import SpanRelay.Proofs.Callback
import SpanRelay.Proofs.Calls
import SpanRelay.Proofs.ContextStack
import SpanRelay.Proofs.Dictionary
import SpanRelay.Proofs.Dictionary.History
import SpanRelay.Proofs.Hold
import SpanRelay.Proofs.Json.Cuts
import SpanRelay.Proofs.Json.Documents
import SpanRelay.Proofs.Json.Integers
import SpanRelay.Proofs.Json.Numbers
import SpanRelay.Proofs.Json.Strings
import SpanRelay.Proofs.Number.DecimalText
import SpanRelay.Proofs.Number.Numerals
import SpanRelay.Proofs.Number.Rounding
import SpanRelay.Proofs.Number.Shortest
import SpanRelay.Proofs.Payload.Census
import SpanRelay.Proofs.Payload.Ends
import SpanRelay.Proofs.Payload.Headers
import SpanRelay.Proofs.Payload.Lossless
import SpanRelay.Proofs.Payload.Stored
import SpanRelay.Proofs.Platform.StoredGzip
import SpanRelay.Proofs.Plugin
import SpanRelay.Proofs.Recorder.Batching
import SpanRelay.Proofs.Recorder.Contexts
import SpanRelay.Proofs.Recorder.Deadlines
import SpanRelay.Proofs.Recorder.Demand
import SpanRelay.Proofs.Recorder.Descent
import SpanRelay.Proofs.Recorder.EndTimes
import SpanRelay.Proofs.Recorder.Enrolment
import SpanRelay.Proofs.Recorder.HandOverOnce
import SpanRelay.Proofs.Recorder.HandOverSteps
import SpanRelay.Proofs.Recorder.Holds
import SpanRelay.Proofs.Recorder.Liveness
import SpanRelay.Proofs.Recorder.Moves
import SpanRelay.Proofs.Recorder.Nesting
import SpanRelay.Proofs.Recorder.Records
import SpanRelay.Proofs.Recorder.Runs
import SpanRelay.Proofs.Recorder.Sampling
import SpanRelay.Proofs.Recorder.Scheduling
import SpanRelay.Proofs.Recorder.Steps
import SpanRelay.Proofs.Recorder.Strides
import SpanRelay.Proofs.Recorder.Tokens
import SpanRelay.Proofs.Recorder.Touches
import SpanRelay.Proofs.Recorder.Traces
import SpanRelay.Proofs.Recorder.Tracking
import SpanRelay.Proofs.Recorder.Verdicts
import SpanRelay.Proofs.Registry
import SpanRelay.Proofs.Relay.Asides
import SpanRelay.Proofs.Relay.Flushes
import SpanRelay.Proofs.Relay.Keeping
import SpanRelay.Proofs.Relay.Ledger
import SpanRelay.Proofs.Relay.Probability
import SpanRelay.Proofs.Relay.Progress
import SpanRelay.Proofs.Relay.Redelivery
import SpanRelay.Proofs.Relay.Traffic
import SpanRelay.Proofs.Relay.Works
import SpanRelay.Proofs.Span
import SpanRelay.Proofs.Span.Alone
import SpanRelay.Proofs.Span.Budget
import SpanRelay.Proofs.Span.Contest
import SpanRelay.Proofs.Span.Counts
import SpanRelay.Proofs.Span.Exclusion
import SpanRelay.Proofs.Span.HandOff
import SpanRelay.Proofs.Storage.DeviceId
import SpanRelay.Proofs.Storage.Files
import SpanRelay.Proofs.Storage.RetryCut
import SpanRelay.Proofs.Storage.RetryDrain
import SpanRelay.Proofs.Storage.RetryFormat
import SpanRelay.Proofs.Storage.RetryGrammar
import SpanRelay.Proofs.Storage.RetryHistory
import SpanRelay.Proofs.Storage.RetryNames
import SpanRelay.Proofs.Storage.RetryStore
import SpanRelay.Proofs.Storage.RetryTurn
import SpanRelay.Proofs.Storage.StateFile
import SpanRelay.Proofs.Text.Hex
import SpanRelay.Proofs.Text.Utf8
import SpanRelay.Proofs.Worker.Launches
import SpanRelay.Proofs.Worker.Lifecycle
import SpanRelay.Proofs.Worker.Starts
import SpanRelay.Proofs.Worker.Stops
import SpanRelay.Proofs.Worker.Turns
import SpanRelay.Proofs.Worker.Wakes
import SpanRelay.Recorder.Basic
import SpanRelay.Recorder.Batches
import SpanRelay.Recorder.HandOver
import SpanRelay.Recorder.Lifecycle
import SpanRelay.Recorder.Moves
import SpanRelay.Recorder.Tokens
import SpanRelay.Registry
import SpanRelay.Relay.Basic
import SpanRelay.Relay.Contention
import SpanRelay.Relay.Delivery
import SpanRelay.Relay.Run
import SpanRelay.Relay.Tasks
import SpanRelay.Relay.Traffic
import SpanRelay.Relay.Works
import SpanRelay.Sampler
import SpanRelay.Span.Basic
import SpanRelay.Span.Contention
import SpanRelay.Span.Context
import SpanRelay.Span.Kind
import SpanRelay.Span.State
import SpanRelay.Storage.Address
import SpanRelay.Storage.Contention
import SpanRelay.Storage.DeviceId
import SpanRelay.Storage.Error
import SpanRelay.Storage.FileTree
import SpanRelay.Storage.RetryFile
import SpanRelay.Storage.RetryQueue
import SpanRelay.Storage.StateFile
import SpanRelay.Text.Blank
import SpanRelay.Text.Bytes
import SpanRelay.Text.Hex
import SpanRelay.Text.UpperCase
import SpanRelay.Worker.Launch
import SpanRelay.Worker.Machine
import SpanRelay.Worker.Moves
import SpanRelay.Worker.Rehearsal
import SpanRelay.Worker.Signals
