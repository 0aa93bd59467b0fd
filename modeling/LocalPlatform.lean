import LocalPlatform.Bootstrap.Agreement
import LocalPlatform.Bootstrap.Application
import LocalPlatform.Bootstrap.Artifacts
import LocalPlatform.Bootstrap.Documents
import LocalPlatform.Bootstrap.Environment
import LocalPlatform.Bootstrap.Exclusive
import LocalPlatform.Bootstrap.Guarantees
import LocalPlatform.Bootstrap.ReceiptText
import LocalPlatform.Bootstrap.Redaction
import LocalPlatform.Bootstrap.Representations
import LocalPlatform.Bootstrap.Rules
import LocalPlatform.Bootstrap.Safety
import LocalPlatform.Bootstrap.SecretScan
import LocalPlatform.Codec.Base64
import LocalPlatform.Codec.Bytes
import LocalPlatform.Codec.Cut
import LocalPlatform.Codec.Duration
import LocalPlatform.Codec.Escape
import LocalPlatform.Codec.Json.Compact
import LocalPlatform.Codec.Json.Denote
import LocalPlatform.Codec.Json.Indent
import LocalPlatform.Codec.Json.Nest
import LocalPlatform.Codec.Json.Object
import LocalPlatform.Codec.Json.Quote
import LocalPlatform.Codec.Json.Scan
import LocalPlatform.Codec.Json.Struct
import LocalPlatform.Codec.Replace
import LocalPlatform.Codec.Time
import LocalPlatform.Codec.TimeText
import LocalPlatform.Codec.Utf8
import LocalPlatform.Evidence.Carriers
import LocalPlatform.Evidence.Documents
import LocalPlatform.Evidence.Publication
import LocalPlatform.Evidence.Receipts
import LocalPlatform.LiveRun.Controller
import LocalPlatform.LiveRun.Discipline
import LocalPlatform.LiveRun.Escalation
import LocalPlatform.LiveRun.Executor
import LocalPlatform.LiveRun.FailedSummary
import LocalPlatform.LiveRun.History
import LocalPlatform.LiveRun.Session
import LocalPlatform.LiveRun.Stop
import LocalPlatform.LiveRun.Truthful
import LocalPlatform.LiveRun.Verdict
import LocalPlatform.Logic.Cursor
import LocalPlatform.Logic.Failing
import LocalPlatform.Logic.Findings
import LocalPlatform.Logic.Guards
import LocalPlatform.Logic.Interaction
import LocalPlatform.Logic.Interleave
import LocalPlatform.Logic.Processes
import LocalPlatform.Logic.Steady
import LocalPlatform.Logic.Transition
import LocalPlatform.Logic.Waiting
import LocalPlatform.Logic.Window
import LocalPlatform.Logic.Worklist
import LocalPlatform.Metrics.Gauge
import LocalPlatform.Metrics.Lag
import LocalPlatform.Metrics.Series
import LocalPlatform.Metrics.Snapshot
import LocalPlatform.Numeric.Rounding
import LocalPlatform.Preflight.Hourly
import LocalPlatform.Preflight.Overlooked
import LocalPlatform.Preflight.Scan
import LocalPlatform.Preflight.Soundness
import LocalPlatform.Preflight.Terraform
import LocalPlatform.Preflight.Walk
import LocalPlatform.Python.DateTime
import LocalPlatform.Python.Decimal
import LocalPlatform.Python.Double
import LocalPlatform.Python.Encoding
import LocalPlatform.Python.Files
import LocalPlatform.Python.Json
import LocalPlatform.Python.JsonFloat
import LocalPlatform.Python.JsonHook
import LocalPlatform.Python.Shlex
import LocalPlatform.Python.Text
import LocalPlatform.Python.Value
import LocalPlatform.Relay.Delivery.Attempts
import LocalPlatform.Relay.Delivery.Consumer
import LocalPlatform.Relay.Delivery.DeadLetter
import LocalPlatform.Relay.Delivery.Deliver
import LocalPlatform.Relay.Delivery.Envelope
import LocalPlatform.Relay.Delivery.Group
import LocalPlatform.Relay.Delivery.Poison
import LocalPlatform.Relay.Delivery.Readiness
import LocalPlatform.Relay.Delivery.Reading
import LocalPlatform.Relay.Delivery.Recordable
import LocalPlatform.Relay.Delivery.Replay
import LocalPlatform.Relay.Delivery.Schedule
import LocalPlatform.Relay.Delivery.Sign
import LocalPlatform.Relay.Delivery.Size
import LocalPlatform.Relay.EndToEnd
import LocalPlatform.Relay.Error
import LocalPlatform.Relay.Event
import LocalPlatform.Relay.History.AcceptEvent
import LocalPlatform.Relay.History.Attempt
import LocalPlatform.Relay.History.Capacity
import LocalPlatform.Relay.History.Isolation
import LocalPlatform.Relay.History.RecordAttempt
import LocalPlatform.Relay.History.Sequence
import LocalPlatform.Relay.History.Store
import LocalPlatform.Relay.Identifiers
import LocalPlatform.Relay.Ingest
import LocalPlatform.Relay.Kafka
import LocalPlatform.Relay.RequestBody
import LocalPlatform.Relay.Reset
import LocalPlatform.Relay.RoundTrip
import LocalPlatform.Relay.Shutdown
import LocalPlatform.Relay.Storable
import LocalPlatform.Relay.Subscriptions
import LocalPlatform.Relay.TraceHeaders
import LocalPlatform.Sink.Agreement
import LocalPlatform.Sink.Control
import LocalPlatform.Sink.Latch
import LocalPlatform.Sink.Retention
import LocalPlatform.Sink.Verify
import LocalPlatform.Stage.Inventory
import LocalPlatform.Stage.Plan
import LocalPlatform.Stage.PlanReview
import LocalPlatform.Stage.Price
import LocalPlatform.Stage.PriceReceipt
import LocalPlatform.Stage.Release
