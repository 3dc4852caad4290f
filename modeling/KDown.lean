import KDown.Runs
import KDown.SortedMap
import KDown.Ownership
import KDown.IntervalSet
import KDown.Scheduler
import KDown.SchedulerLedger
import KDown.SchedulerPartition
import KDown.SchedulerCredit
import KDown.SchedulerDrain
import KDown.Validators
import KDown.Errors
import KDown.RangeResponse
import KDown.Redirect
import KDown.WriteFrontier
import KDown.Segmented
import KDown.SegmentedCoverage
import KDown.SeqLock
import KDown.LeaseProgress
import KDown.Checkpoint
import KDown.CoordinatedStore
import KDown.CoordinatedRuns
import KDown.ResumeAdmission
import KDown.Sequential
import KDown.CheckpointCoordinator
import KDown.CrashDisk
import KDown.FileStore
import KDown.FileStoreCrash
import KDown.FileStoreDelete
import KDown.HttpBody
import KDown.ReadIdle
import KDown.WatchSignal
import KDown.WorkerPool
import KDown.WorkerPoolSafety
import KDown.FifoHistory
import KDown.LedgerPool
import KDown.LedgerPoolBalance
import KDown.TransferLedger
import KDown.LedgerAdmission
import KDown.PipelineAdmission
import KDown.Tally
import KDown.WriteExecutor
import KDown.WriteExecutorInv
import KDown.WriteExecutorCalls
import KDown.WriteExecutorWake
import KDown.WriteExecutorSettle
import KDown.WriteExecutorAccept
import KDown.Publish
import KDown.Registry
import KDown.Supervisor
import KDown.SupervisorRuns
import KDown.SupervisorAttempts
import KDown.SupervisorQueue
import KDown.FairSemaphore
import KDown.ConnectionLimits
import KDown.JobStateMachine
import KDown.CancellationToken
import KDown.OriginRegistry
import KDown.OriginRegistryCapacity
import KDown.OriginRegistryThrottle
import KDown.Traced
import KDown.EngineConnector
import KDown.Credentials
import KDown.JobRun
import KDown.JobAgreement
import KDown.JobArtifacts
import KDown.SegmentedPipeline
import KDown.TransferAccounting
import KDown.SchedulerCoverage
import KDown.LeaseTracking
import KDown.LeaseTrackingSteps
import KDown.SegmentedAccounting
import KDown.Broadcast
import KDown.EventStream
import KDown.ControlVersions
import KDown.DownloadRoots
import KDown.RootUse
import KDown.JobView
import KDown.SnapshotCoalescer
import KDown.SupervisorLatch
import KDown.SupervisorViews
import KDown.PublishedViews
import KDown.StartupRecovery
import KDown.LiveSync
import KDown.DestinationLease
import KDown.SplitNotice
import KDown.IntervalSetWords
import KDown.FrontierHistory
import KDown.DurableRanges
import KDown.JsonText
import KDown.CheckpointJson
import KDown.CheckpointContent
import KDown.SchedulerCallbacks
import KDown.LedgerRefusals
import KDown.KeysetPages
import KDown.JobPages
import KDown.FileTree
import KDown.PathPolicy
import KDown.RangeNormalizers
import KDown.TextScan
import KDown.ContentRangeGrammar
import KDown.UriReference
import KDown.RedirectTargets
import KDown.PercentEncoding
import KDown.ContentDisposition
import KDown.SanitizeFilename
import KDown.RenameCandidates
import KDown.SegmentedRetries
import KDown.RetrySwitches
import KDown.RateLimit
import KDown.AdaptiveController
import KDown.TurnOrder
import KDown.WriteDispatch
import KDown.OutputSession
import KDown.SupervisorLaunch
import KDown.UrlRedaction
import KDown.OrderStatistics
import KDown.LatencyHistogram
import KDown.EngineConfig
import KDown.OriginIdentity
import KDown.PositionalWrite
import KDown.RenameSelection
import KDown.RenameSequential
import KDown.WriterLane
import KDown.ConcurrencyOverride
import KDown.BufferPool
import KDown.DirectoryTarget
import KDown.ApiSecurity
import KDown.OwnedOutput
