import NestPlayground.Core.LTS
import NestPlayground.Core.Traced
import NestPlayground.Core.Coroutine
import NestPlayground.Core.Sequential
import NestPlayground.Core.Throwing
import NestPlayground.Core.Line
import NestPlayground.Core.ZSet
import NestPlayground.Core.Rounding
import NestPlayground.Core.Template
import NestPlayground.Core.Slice
import NestPlayground.Core.RunningMean
import NestPlayground.Core.Pieces
import NestPlayground.Core.Chronicle
import NestPlayground.Core.Refinement
import NestPlayground.L1Model.Types
import NestPlayground.L1Model.Store
import NestPlayground.L1Model.Keys
import NestPlayground.L2Scripts.FairQueue
import NestPlayground.L2Scripts.Backpressure
import NestPlayground.L2Scripts.ReliableQueue
import NestPlayground.L2Scripts.Aggregation
import NestPlayground.L2Scripts.CongestionBooks
import NestPlayground.L3Services.StateMachine
import NestPlayground.L3Services.Redis
import NestPlayground.L3Services.Admission
import NestPlayground.L3Services.Finalize
import NestPlayground.L3Services.WithLock
import NestPlayground.L3Services.Worker
import NestPlayground.L3Services.Watcher
import NestPlayground.L3Services.Operations
import NestPlayground.L3Services.FairQueueService
import NestPlayground.L3Services.Idempotency
import NestPlayground.L3Services.Transaction
import NestPlayground.L3Services.CongestionStats
import NestPlayground.L3Services.HmacEncryption
import NestPlayground.L3Services.WebClient
import NestPlayground.L4Pipeline.Pipeline
import NestPlayground.L4Pipeline.Frames
import NestPlayground.L4Pipeline.InFlight
import NestPlayground.L4Pipeline.Books
import NestPlayground.L4Pipeline.Identity
import NestPlayground.L4Pipeline.Duties
import NestPlayground.L4Pipeline.Tokens
import NestPlayground.L4Pipeline.RetryCounts
import NestPlayground.L4Pipeline.Charges
import NestPlayground.L4Pipeline.Deadlines
import NestPlayground.L4Pipeline.Timed
import NestPlayground.L4Pipeline.Finalizing
import NestPlayground.L4Pipeline.Carrying
import NestPlayground.L4Pipeline.Provenance
import NestPlayground.L4Pipeline.Instance
import NestPlayground.L4Pipeline.Deeds
import NestPlayground.L5Properties.ExactlyOnce
import NestPlayground.L5Properties.AtLeastOnce
import NestPlayground.L5Properties.Admission
import NestPlayground.L5Properties.StatusProtocol
import NestPlayground.L5Properties.Completion
import NestPlayground.L5Properties.EndToEnd
import NestPlayground.L5Properties.Fencing
import NestPlayground.L5Properties.InFlightMeta
import NestPlayground.L5Properties.Heartbeat
import NestPlayground.L5Properties.InFlightBooks
import NestPlayground.L5Properties.DeadLetters
import NestPlayground.L5Properties.Orphans
import NestPlayground.L5Properties.Retries
import NestPlayground.L5Properties.Holders
import NestPlayground.L5Properties.RetryBound
import NestPlayground.L5Properties.ActiveGroups
import NestPlayground.L5Properties.FairQueue
import NestPlayground.L5Properties.RoundRobin
import NestPlayground.L5Properties.SingleFinalization
import NestPlayground.L5Properties.Aggregators
import NestPlayground.L5Properties.Isolation
import NestPlayground.L5Properties.Enrolment
import NestPlayground.L5Properties.WatchCycle
import NestPlayground.L5Properties.RateLimit
import NestPlayground.L5Properties.Lock
import NestPlayground.L5Properties.Registration
import NestPlayground.L5Properties.Capacity
import NestPlayground.L5Properties.Throughput
import NestPlayground.L5Properties.CongestionCount
import NestPlayground.L5Properties.Shutdown
import NestPlayground.L5Properties.KeySpace
import NestPlayground.L5Properties.Selection
import NestPlayground.L5Properties.PriorityFormula
import NestPlayground.L5Properties.Levels
import NestPlayground.L5Properties.Recovery
import NestPlayground.L5Properties.MoveToReady
import NestPlayground.L5Properties.Rejection
import NestPlayground.L5Properties.Batches
import NestPlayground.L5Properties.Idempotency
import NestPlayground.L5Properties.TransactionEvents
import NestPlayground.L5Properties.RatioOrder
import NestPlayground.L5Properties.History
import NestPlayground.L5Properties.RunningAverage
import NestPlayground.L5Properties.HmacCodes
import NestPlayground.L5Properties.StatsMirror
import NestPlayground.L5Properties.Backoff
import NestPlayground.L5Properties.Counted
import NestPlayground.L5Properties.Reports
import NestPlayground.L5Properties.Timeouts
import NestPlayground.L5Properties.Waiting
import NestPlayground.L5Properties.FairShare
import NestPlayground.L5Properties.Retrying
import NestPlayground.L5Properties.Clients
import NestPlayground.L5Properties.Lifecycle
import NestPlayground.L5Properties.Spread
import NestPlayground.L6Keyspace.Database
import NestPlayground.L6Keyspace.Scripts
import NestPlayground.L6Keyspace.Records
import NestPlayground.L6Keyspace.Calls
import NestPlayground.L6Keyspace.Represents
import NestPlayground.L6Keyspace.Commands
import NestPlayground.L6Keyspace.Simulations
import NestPlayground.L6Keyspace.Refinement
