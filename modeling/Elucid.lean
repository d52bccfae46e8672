import Elucid.BigEndian
import Elucid.SpoolModel
import Elucid.Frame
import Elucid.Recovery
import Elucid.CutRecovery
import Elucid.FrameCodec
import Elucid.OutputRecord
import Elucid.Checkpoint
import Elucid.Transition
import Elucid.SpoolAccounting
import Elucid.LiveSpool
import Elucid.LiveSpoolSafety
import Elucid.Json
import Elucid.Catalog
import Elucid.Normalization
import Elucid.RowEstimate
import Elucid.SegmentBuilders
import Elucid.SegmentMoves
import Elucid.SegmentRuns
import Elucid.SegmentAccounting
import Elucid.TextEncoding
import Elucid.DeadLetterObject
import Elucid.ManagedKeys
import Elucid.Admission
import Elucid.BatchCapacity
import Elucid.Table
import Elucid.Metastore
import Elucid.Processing
import Elucid.EventTimeRange
import Elucid.Effect
import Elucid.OutputLifecycle
import Elucid.MetastoreRuns
import Elucid.World
import Elucid.Worker
import Elucid.WorldInvariant
import Elucid.WorkerOperations
import Elucid.WorkerProcessing
import Elucid.WorkerBatches
import Elucid.WorkerLoop
import Elucid.WorkerSessions
import Elucid.ExactlyOnce
import Elucid.LogReclamation
import Elucid.OutputRebuild
import Elucid.Backlog
import Elucid.FloatFormat
import Elucid.NumberText
import Elucid.QuerySyntax
import Elucid.EngineRuntime
import Elucid.JsonCast
import Elucid.Remainder
import Elucid.HistoricalConversion
import Elucid.RemainderReaders
import Elucid.CatalogSchema
import Elucid.Arrow
import Elucid.QueryAnalysis
import Elucid.TimeExpressions
import Elucid.SegmentSelection
import Elucid.Aggregates
import Elucid.MergeRun
import Elucid.AggregateCounts
import Elucid.AggregateAverages
import Elucid.Lines
import Elucid.Framing
import Elucid.Calendar
import Elucid.TimeText
import Elucid.EventDays
import Elucid.Utf8
import Elucid.JsonGrammar
import Elucid.RecordParser
import Elucid.DecimalText
import Elucid.JsonDocument
import Elucid.RemainderCapture
import Elucid.BuilderAges
import Elucid.DeadLetterDocument
import Elucid.JsonPointer
import Elucid.CompactionSelection
import Elucid.CompactionClaim
import Elucid.CompactionMerge
import Elucid.ResultTruncation
import Elucid.Casts
import Elucid.CastRoundTrips
import Elucid.OperandSymmetry
