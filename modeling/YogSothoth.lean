import YogSothoth.Framework.OrdMap
import YogSothoth.Framework.Fallible
import YogSothoth.Framework.Keyset
import YogSothoth.Framework.KeysetWalk
import YogSothoth.Framework.Sha256
import YogSothoth.Framework.Borsh
import YogSothoth.Core.Types
import YogSothoth.Core.Text
import YogSothoth.Core.Page
import YogSothoth.Persistence.Pagination
import YogSothoth.Persistence.Signals
import YogSothoth.Persistence.SignalFeed
import YogSothoth.Persistence.SignalPages
import YogSothoth.Persistence.PositionChanges
import YogSothoth.Persistence.PositionPages
import YogSothoth.Persistence.PositionList
import YogSothoth.Api.Cursor
import YogSothoth.Api.CursorCodec
import YogSothoth.Framework.Base64
import YogSothoth.Framework.JsonText
import YogSothoth.Api.CursorBlob
import YogSothoth.Api.CursorLists
import YogSothoth.Api.CursorExclusive
import YogSothoth.Projection.PoolCurrentState
import YogSothoth.Projection.Order
import YogSothoth.Extraction.Events
import YogSothoth.Extraction.Translator
import YogSothoth.Extraction.Extractor
import YogSothoth.Extraction.Fates
import YogSothoth.Extraction.Numbering
import YogSothoth.Indexer.TransactionAdapter
import YogSothoth.Indexer.AdapterAgreement
import YogSothoth.Context.KeptPrices
import YogSothoth.Context.PriceWorker
import YogSothoth.Context.PriceSeries
import YogSothoth.Context.PriceRuns
import YogSothoth.Context.PriceCadence
import YogSothoth.Grpc.KnownSlots
import YogSothoth.Grpc.WaitingSlots
import YogSothoth.Grpc.SlotTimestampBuffer
import YogSothoth.Grpc.Accounting
import YogSothoth.Grpc.Bounds
import YogSothoth.Grpc.Messages
import YogSothoth.Grpc.Pairing
import YogSothoth.Grpc.ReceivedSlots
import YogSothoth.Grpc.Spans
import YogSothoth.Grpc.Session
import YogSothoth.Grpc.Progress
import YogSothoth.Grpc.SessionSpans
import YogSothoth.Grpc.Settled
import YogSothoth.Grpc.SlotsRecorder
import YogSothoth.Grpc.Recording
import YogSothoth.Grpc.RecordingSteps
import YogSothoth.Grpc.Recorded
import YogSothoth.Analytic.Cycle
import YogSothoth.Analytic.Run
import YogSothoth.Analytic.Planning
import YogSothoth.Live.Watermark
import YogSothoth.Live.Poller
import YogSothoth.Live.Holes
import YogSothoth.Live.Bursts
import YogSothoth.Resolver.PoolRow
import YogSothoth.Resolver.PoolRefresh
import YogSothoth.Framework.Islands
import YogSothoth.Framework.OrdTable
import YogSothoth.Analytic.RotationRuns
import YogSothoth.Framework.Aggregate
import YogSothoth.Analytic.RunDrawing
import YogSothoth.Analytic.RunCycles
import YogSothoth.Analytic.Hourly
import YogSothoth.Analytic.HourlySums
import YogSothoth.Analytic.HourlyCycle
import YogSothoth.Analytic.FrozenHours
import YogSothoth.Analytic.FrozenSums
import YogSothoth.Analytic.RunStarts
import YogSothoth.Analytic.RunSplit
import YogSothoth.Analytic.SplitSums
import YogSothoth.Analytic.SplitBars
import YogSothoth.Analytic.SplitRun
import YogSothoth.Persistence.RotationRunList
import YogSothoth.Api.RotationRunService
import YogSothoth.Api.RotationRunPages
import YogSothoth.Api.RotationRunWalk
import YogSothoth.Framework.Escalation
import YogSothoth.Signals.Engine
import YogSothoth.Signals.Escalation
import YogSothoth.Grpc.Enforced
import YogSothoth.Grpc.Twins
import YogSothoth.Grpc.Forgetting
import YogSothoth.Grpc.KnownWindow
import YogSothoth.Framework.Nullable
import YogSothoth.Analytic.TrancheValue
import YogSothoth.Analytic.TrancheFees
import YogSothoth.Analytic.SwapActivity
import YogSothoth.Analytic.SwapBuckets
import YogSothoth.Analytic.SwapFolds
import YogSothoth.Analytic.SwapFigures
import YogSothoth.Analytic.SwapReads
import YogSothoth.Analytic.SwapLevels
import YogSothoth.Core.Decimals
import YogSothoth.Framework.Isolation
import YogSothoth.Signals.Detectors
import YogSothoth.Signals.PoolsApart
import YogSothoth.Signals.PoolSignals
import YogSothoth.Framework.Paces
import YogSothoth.Context.PriceTurns
import YogSothoth.Context.LowValue
import YogSothoth.Context.UnpricedRuns
import YogSothoth.Context.UnpricedRetry
import YogSothoth.Amm.SchedulerCurve
import YogSothoth.Amm.Dlmm
import YogSothoth.Amm.ConstantProduct
import YogSothoth.Grpc.Bookkeeping
import YogSothoth.Extraction.FeeUpdates
import YogSothoth.Bootstrap.Scrubbing
import YogSothoth.Resolver.QueueProgress
import YogSothoth.Framework.Runs
import YogSothoth.Framework.Retries
import YogSothoth.Persistence.EventTables
import YogSothoth.Indexer.Persistor
import YogSothoth.Indexer.Worker
import YogSothoth.Indexer.WorkerRuns
import YogSothoth.Indexer.Recorded
import YogSothoth.Indexer.Ingested
import YogSothoth.Indexer.ReadModel
import YogSothoth.Indexer.ReadModelRuns
import YogSothoth.Grpc.RetryBudget
import YogSothoth.Grpc.Connector
import YogSothoth.Grpc.StreamReading
import YogSothoth.Grpc.Listener
import YogSothoth.Rpc.SubscriptionWorker
import YogSothoth.Rpc.Endpoint
import YogSothoth.Rpc.Fleet
import YogSothoth.Rpc.Stages
import YogSothoth.Rpc.Pipeline
import YogSothoth.Rpc.PipelineRuns
import YogSothoth.Framework.Hex
import YogSothoth.Auth.ApiKey
import YogSothoth.Auth.AuthDatabase
import YogSothoth.Auth.KeyRing
import YogSothoth.Auth.Commands
import YogSothoth.Auth.Service
import YogSothoth.Auth.Shown
import YogSothoth.Auth.KeyRingRuns
import YogSothoth.Framework.HeaderText
import YogSothoth.Framework.Spaced
import YogSothoth.Context.JupiterPrice
import YogSothoth.Context.JupiterRuns
