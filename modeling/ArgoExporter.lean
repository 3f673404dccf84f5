import ArgoExporter.Lib.Binary64
import ArgoExporter.Lib.Calendar
import ArgoExporter.Lib.FixedWidth
import ArgoExporter.Lib.Grouping
import ArgoExporter.Lib.OrderedDict
import ArgoExporter.Lib.WhileLoop
import ArgoExporter.Py.Exc
import ArgoExporter.Py.Json
import ArgoExporter.Py.Text
import ArgoExporter.Py.Datetime
import ArgoExporter.Py.Stamp
import ArgoExporter.Py.Isoformat
import ArgoExporter.Py.Number
import ArgoExporter.Py.Platform
import ArgoExporter.ParquetIo
import ArgoExporter.Config
import ArgoExporter.S3io
import ArgoExporter.K8sApi
import ArgoExporter.FailureTaxonomy
import ArgoExporter.Workflows
import ArgoExporter.Ledger
import ArgoExporter.ParquetRoundTrip
import ArgoExporter.Reference
import ArgoExporter.MetaSchema
import ArgoExporter.MetaSchema.Rules
import ArgoExporter.MetaSchema.Identity
import ArgoExporter.MetaSchema.Names
import ArgoExporter.MetaSchema.Contract
import ArgoExporter.MetaSchema.ErrorClasses
import ArgoExporter.Consumer
import ArgoExporter.Main
import ArgoExporter.Generation
import ArgoExporter.Main.Atomicity
import ArgoExporter.Workflows.Validation
import ArgoExporter.Workflows.FailedStep
import ArgoExporter.Workflows.RowTypes
import ArgoExporter.Workflows.Collection
import ArgoExporter.K8sApi.Paging
import ArgoExporter.K8sApi.Listing
import ArgoExporter.Workflows.Containment
import ArgoExporter.Config.Accepted
import ArgoExporter.Workflows.Collected
import ArgoExporter.Main.Sidecar
import ArgoExporter.Consumer.Selection
import ArgoExporter.Ledger.Merged
import ArgoExporter.Main.Acceptance
import ArgoExporter.Main.Parity
import ArgoExporter.Lib.Provenance
import ArgoExporter.Lib.Regex
import ArgoExporter.Lib.RegexMatches
import ArgoExporter.Lib.RegexWords
import ArgoExporter.Lib.RegexSyntax
import ArgoExporter.SharedPrefix
import ArgoExporter.SharedPrefix.Isolation
import ArgoExporter.SharedPrefix.SingleExporter
import ArgoExporter.Lib.ExpiringRegister
import ArgoExporter.Ledger.History
import ArgoExporter.Main.LedgerHistory
import ArgoExporter.Lib.SerialSchedule
import ArgoExporter.PollLoop
import ArgoExporter.PollLoop.Progress
import ArgoExporter.PollLoop.Observation
import ArgoExporter.PollLoop.Freshness
import ArgoExporter.Ledger.Spec
import ArgoExporter.Ledger.Retention
import ArgoExporter.Ledger.Lookups
import ArgoExporter.Ledger.Locality
import ArgoExporter.Config.Reordering
import ArgoExporter.Main.ClusterOrder
import ArgoExporter.Consumer.Freshness
import ArgoExporter.Consumer.StoredReads
import ArgoExporter.Consumer.StoredBytes
import ArgoExporter.Consumer.SelectionPaths
import ArgoExporter.Consumer.Keys
import ArgoExporter.K8sApi.Termination
import ArgoExporter.SharedPrefix.Linearization
import ArgoExporter.SharedPrefix.TornReads
import ArgoExporter.Workflows.NotFailed
import ArgoExporter.Workflows.Timestamps
import ArgoExporter.Workflows.StepOrder
import ArgoExporter.Workflows.NormalizedTimes
import ArgoExporter.Workflows.ReadFields
import ArgoExporter.Workflows.CompressedNodes
import ArgoExporter.Workflows.NodeMaps
import ArgoExporter.Workflows.UnreadLabels
import ArgoExporter.Consumer.Trends
import ArgoExporter.Consumer.Reconciliation
import ArgoExporter.Consumer.DurationHistory
import ArgoExporter.FailureTaxonomy.Patterns
import ArgoExporter.FailureTaxonomy.Context
import ArgoExporter.FailureTaxonomy.Tokens
import ArgoExporter.FailureTaxonomy.Segments
import ArgoExporter.FailureTaxonomy.Durations
import ArgoExporter.FailureTaxonomy.PodNames
import ArgoExporter.FailureTaxonomy.Fingerprint
import ArgoExporter.Consumer.Metrics
import ArgoExporter.Health
import ArgoExporter.Health.Snapshots
import ArgoExporter.PollLoop.Health
import ArgoExporter.PollLoop.HealthyHeartbeat
import ArgoExporter.PollLoop.Shutdown
import ArgoExporter.Workflows.RowShape
import ArgoExporter.Workflows.Credentials
import ArgoExporter.Main.StoredRows
import ArgoExporter.Main.Dashboards
import ArgoExporter.ParquetReleases
import ArgoExporter.Main.Upgrade
import ArgoExporter.SharedBucket
import ArgoExporter.SharedBucket.Serial
import ArgoExporter.SharedBucket.Concurrent
import ArgoExporter.Consumer.Answers
import ArgoExporter.Consumer.ClusterView
import ArgoExporter.Main.Influence
import ArgoExporter.PollLoop.LedgerSize
import ArgoExporter.FailureTaxonomy.Lines
