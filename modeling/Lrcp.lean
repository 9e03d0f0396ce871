import Lrcp.Framework.Program
import Lrcp.Framework.Triple
import Lrcp.Framework.Termination
import Lrcp.Framework.Pool
import Lrcp.Wal.Crc32
import Lrcp.Wal.Record
import Lrcp.Wal.Reader
import Lrcp.Otlp.Attributes
import Lrcp.Otlp.Rows
import Lrcp.Store.Operation
import Lrcp.Gateway.Durability
import Lrcp.Gateway.Session
import Lrcp.Store.Discipline
import Lrcp.Store.ParquetRules
import Lrcp.Store.SegmentRules
import Lrcp.Store.MaterializeRules
import Lrcp.Store.CompactRules
import Lrcp.Store.LockRules
import Lrcp.Store.CleanupRules
import Lrcp.Store.Visible
import Lrcp.Store.Coverage
import Lrcp.Store.Sequential
import Lrcp.Store.Runs
import Lrcp.Store.ExactlyOnce
import Lrcp.Store.NoLoss
import Lrcp.Framework.Remainder
import Lrcp.Wal.Checksum
import Lrcp.Wal.Format
import Lrcp.Wal.Generator
import Lrcp.Gateway.Naming
import Lrcp.Api.Projects
import Lrcp.Store.Trial
import Lrcp.Store.Compaction
import Lrcp.Store.CompactionFailure
import Lrcp.Store.CompactionRuns
import Lrcp.Store.Alongside
import Lrcp.Store.SafeCleanup
import Lrcp.Store.Retention
import Lrcp.Framework.Sql
import Lrcp.Api.Isolation
import Lrcp.Store.Completion
import Lrcp.Framework.Only
import Lrcp.Store.AutoCleanup
import Lrcp.Store.Release
import Lrcp.Store.Containment
import Lrcp.Store.Schedule
import Lrcp.Framework.Unfolding
import Lrcp.Viewer.TraceViewer
import Lrcp.Viewer.Forest
import Lrcp.Viewer.Coverage
import Lrcp.Gateway.Connection
import Lrcp.Store.Quarantine
import Lrcp.Store.Batching
import Lrcp.Api.Durations
import Lrcp.Otlp.Fidelity
import Lrcp.Store.Restoring
import Lrcp.Gateway.FileSize
import Lrcp.Store.Provenance
import Lrcp.Store.Parallel
import Lrcp.Store.Snapshot
import Lrcp.Store.Concurrent
import Lrcp.Store.Delivery
import Lrcp.Gateway.Requests
import Lrcp.Pipeline.Serving
import Lrcp.Pipeline.Ingestion
import Lrcp.Pipeline.EndToEnd
import Lrcp.Wal.Complete
import Lrcp.Store.Settled
import Lrcp.Api.Agreement
import Lrcp.Api.Moment
import Lrcp.Api.Server
import Lrcp.Pipeline.Polling
import Lrcp.Pipeline.Queries
import Lrcp.Framework.Halts
import Lrcp.Store.Halting
import Lrcp.Gateway.Workers
import Lrcp.Gateway.Progress
