import NestPlayground.Core.ZSet
import Mathlib.Data.Rat.Floor
import Mathlib.Logic.Function.Basic

/-!
# The values the queues and hashes hold

Ids and payloads are strings. A Redis hash is a record whose fields are all
optional (an absent key is the record with no field), so reading a missing
field and creating a hash by writing one field behave as in Redis. Payloads
and opaque results are kept as their JSON text. Clock readings are
milliseconds since the epoch; fair-queue scores are exact rationals.
-/
namespace NestPlayground.L1

abbrev JobId := String
abbrev GroupId := String

/-- mirrors libs/bulk-action/src/model/job/type/JobStatus.ts:1-6 -/
inductive JobStatus where
  | pending | processing | completed | failed
  deriving DecidableEq, Repr

/-- mirrors libs/bulk-action/src/model/job-group/type/GroupStatus.ts:1-8 -/
inductive GroupStatus where
  | created | dispatched | running | aggregating | completed | failed
  deriving DecidableEq, Repr

/-- mirrors libs/bulk-action/src/model/job-group/type/PriorityLevel.ts:1-5 -/
inductive PriorityLevel where
  | high | normal | low
  deriving DecidableEq, Repr

/-! ## Hashes -/

/-- The hash under `job:{jobId}`. -/
structure JobHash where
  id : Option JobId := none
  groupId : Option GroupId := none
  processorType : Option String := none
  payload : Option String := none
  status : Option JobStatus := none
  retryCount : Option Nat := none
  createdAt : Option Nat := none
  deriving DecidableEq, Repr

/-- The hashes name the same job: they agree on what `enqueue.lua` writes once. -/
structure JobHash.SameJob (h h' : JobHash) : Prop where
  id : h.id = h'.id
  groupId : h.groupId = h'.groupId
  processorType : h.processorType = h'.processorType
  payload : h.payload = h'.payload

theorem JobHash.SameJob.refl (h : JobHash) : h.SameJob h := ⟨rfl, rfl, rfl, rfl⟩

theorem JobHash.SameJob.trans {a b c : JobHash} (h : a.SameJob b) (h' : b.SameJob c) : a.SameJob c :=
  ⟨h.id.trans h'.id, h.groupId.trans h'.groupId, h.processorType.trans h'.processorType,
    h.payload.trans h'.payload⟩

/-- Rewriting one hash keeps every job when it keeps that one. -/
theorem JobHash.sameJob_update {jobs : JobId → JobHash} {j : JobId} {h : JobHash} (hs : h.SameJob (jobs j))
    (k : JobId) : (Function.update jobs j h k).SameJob (jobs k) := by
  rcases eq_or_ne k j with rfl | hk
  · rw [Function.update_self]
    exact hs
  · rw [Function.update_of_ne hk]
    exact .refl _

/-- The hash under `group:{groupId}:meta`. -/
structure GroupMeta where
  basePriority : Option ℚ := none
  priorityLevel : Option PriorityLevel := none
  totalJobs : Option Nat := none
  doneJobs : Option Nat := none
  successCount : Option Nat := none
  failedCount : Option Nat := none
  registeredJobs : Option Nat := none
  status : Option GroupStatus := none
  processorType : Option String := none
  createdAt : Option Nat := none
  firstJobStartedAt : Option Nat := none
  lastUpdatedAt : Option Nat := none
  aggregationStartAt : Option Nat := none
  completedAt : Option Nat := none
  failedAt : Option Nat := none
  timeoutAt : Option Nat := none
  deriving DecidableEq, Repr

/-- The hash under `in-flight:{jobId}`. -/
structure InFlightMeta where
  jobId : Option JobId := none
  workerId : Option String := none
  instanceId : Option String := none
  deadline : Option Nat := none
  dequeuedAt : Option Nat := none
  retryCount : Option Nat := none
  groupId : Option GroupId := none
  deriving DecidableEq, Repr

/-- The hash under `congestion:{groupId}:stats`. -/
structure CongestionStats where
  currentNonReadyCount : Option Nat := none
  lastBackoffMs : Option Nat := none
  rateLimitSpeed : Option Nat := none
  lastUpdatedMs : Option Nat := none
  deriving DecidableEq, Repr

/-! ## Jobs -/

/-- mirrors libs/bulk-action/src/model/job/Job.ts:4-11 -/
structure Job where
  id : JobId
  groupId : GroupId
  processorType : String
  payload : String
  status : JobStatus
  retryCount : Nat
  createdAt : Nat
  deriving DecidableEq, Repr

/-- `new Job(hash)`. `JSON.parse(undefined)` throws, so a hash without a
payload gives no job; a missing id or group id is passed on to Redis as the
empty string.
mirrors libs/bulk-action/src/model/job/Job.ts:13-25 -/
def Job.ofHash? (h : JobHash) : Option Job :=
  h.payload.map fun payload =>
    { id := h.id.getD ""
      groupId := h.groupId.getD ""
      processorType := h.processorType.getD ""
      payload
      status := h.status.getD .pending
      retryCount := h.retryCount.getD 0
      createdAt := h.createdAt.getD 0 }

structure JobError where
  message : String
  code : Option String := none
  retryable : Bool
  deriving DecidableEq, Repr

/-- mirrors libs/bulk-action/src/model/job-processor/dto/JobProcessorResponse.ts:1-13 -/
structure JobProcessorResponse where
  jobId : JobId
  groupId : GroupId
  success : Bool
  data : Option String := none
  error : Option JobError := none
  durationMs : Int
  processorType : Option String := none
  deriving DecidableEq, Repr

/-- mirrors libs/bulk-action/src/reliable-queue/DeadLetterService.ts:9-15 -/
structure DeadLetterEntry where
  jobId : JobId
  groupId : GroupId
  retryCount : Nat
  error : String
  failedAt : Nat
  deriving DecidableEq, Repr

/-! ## Requests -/

/-- The defaults are those of the destructuring in `FairQueueService.enqueue`.
mirrors libs/bulk-action/src/model/BulkActionRequest.ts:4-11 and
libs/bulk-action/src/fair-queue/FairQueueService.ts:29-37 -/
structure BulkActionRequest where
  jobGroupId : GroupId
  jobId : JobId
  jobProcessorType : String
  payload : String
  basePriority : ℚ := 0
  priorityLevel : PriorityLevel := .normal
  deriving DecidableEq, Repr

structure BulkJob where
  jobId : JobId
  payload : String
  deriving DecidableEq, Repr

/-- mirrors libs/bulk-action/src/model/GroupProgress.ts:17-23 -/
structure SubmitBulkJobsRequest where
  groupId : GroupId
  processorType : String
  jobs : List BulkJob
  basePriority : ℚ := 0
  priorityLevel : PriorityLevel := .normal
  deriving DecidableEq, Repr

/-- The `enqueue` options `submitBulkJobs` builds for one of its jobs.
mirrors libs/bulk-action/src/BulkActionService.ts:50-59 -/
def SubmitBulkJobsRequest.options (r : SubmitBulkJobsRequest) (job : BulkJob) : BulkActionRequest where
  jobGroupId := r.groupId
  jobId := job.jobId
  jobProcessorType := r.processorType
  payload := job.payload
  basePriority := r.basePriority
  priorityLevel := r.priorityLevel

/-! ## Aggregators -/

/-- mirrors libs/bulk-action/src/aggregator/AggregatorInterface.ts:1-6 -/
structure AggregationContext where
  groupId : GroupId
  totalJobs : Nat
  successCount : Nat
  failedCount : Nat
  deriving DecidableEq, Repr

/-- mirrors libs/bulk-action/src/aggregator/DefaultAggregator.ts:4-9 -/
structure DefaultMapResult where
  success : Bool
  durationMs : Int
  error : Option JobError
  jobId : JobId
  deriving DecidableEq, Repr

/-- mirrors libs/bulk-action/src/aggregator/DefaultAggregator.ts:11-17 -/
structure DefaultReduceResult where
  successCount : Nat
  failedCount : Nat
  totalJobs : Nat
  averageDurationMs : Int
  failedJobIds : List JobId
  deriving DecidableEq, Repr

/-- What an aggregator's `map` returns: `unknown` to the service. -/
inductive Mapped where
  | default (m : DefaultMapResult)
  | custom (json : String)
  deriving DecidableEq, Repr

/-- What an aggregator's `reduce` returns: `unknown` to the service. -/
inductive AggregatedResult where
  | default (r : DefaultReduceResult)
  | custom (json : String)
  deriving DecidableEq, Repr

/-- `map` and `reduce` may throw.
mirrors libs/bulk-action/src/aggregator/AggregatorInterface.ts:8-14 -/
structure Aggregator where
  type : String
  map : JobProcessorResponse → Option Mapped
  reduce : List Mapped → AggregationContext → Option AggregatedResult

namespace DefaultAggregator

/-- mirrors libs/bulk-action/src/aggregator/DefaultAggregator.ts:25-32 -/
def map (jobResult : JobProcessorResponse) : DefaultMapResult where
  success := jobResult.success
  durationMs := jobResult.durationMs
  error := jobResult.error
  jobId := jobResult.jobId

/-- mirrors libs/bulk-action/src/aggregator/DefaultAggregator.ts:34-57 -/
def reduce (mapped : List DefaultMapResult) (context : AggregationContext) : DefaultReduceResult where
  successCount := context.successCount
  failedCount := context.failedCount
  totalJobs := context.totalJobs
  averageDurationMs :=
    if mapped.length > 0 then (mapped.map (·.durationMs)).sum / (mapped.length : Int) else 0
  failedJobIds := (mapped.filter (!·.success)).map (·.jobId)

end DefaultAggregator

def Mapped.toDefault : Mapped → Option DefaultMapResult
  | .default m => some m
  | .custom _ => none

/-- The aggregator registered as `__default__`. It is only ever handed what its
own `map` returned. -/
def defaultAggregator : Aggregator where
  type := "__default__"
  map r := some (.default (DefaultAggregator.map r))
  reduce mapped context := some (.default (DefaultAggregator.reduce (mapped.filterMap Mapped.toDefault) context))

/-! ## Configuration -/

structure BulkActionRedisConfig where
  keyPrefix : Option String := none

/-- mirrors libs/bulk-action/src/config/BulkActionConfig.ts:9-11, 74-76 -/
structure FairQueueConfig where
  alpha : ℚ := 10000

/-- mirrors libs/bulk-action/src/config/BulkActionConfig.ts:13-22, 78-87 -/
structure BackpressureConfig where
  globalRps : Nat := 10000
  readyQueueMaxSize : Nat := 10000
  rateLimitWindowSec : Nat := 1
  rateLimitKeyTtlSec : Nat := 2
  dispatchBatchSize : Nat := 100

/-- mirrors libs/bulk-action/src/config/BulkActionConfig.ts:24-29, 89-94 -/
structure CongestionConfig where
  enabled : Bool := true
  baseBackoffMs : Nat := 1000
  maxBackoffMs : Nat := 120000

/-- mirrors libs/bulk-action/src/config/BulkActionConfig.ts:31-39, 96-104 -/
structure WorkerPoolConfig where
  fetchBatchSize : Nat := 50
  jobTimeoutMs : Nat := 30000
  maxRetryCount : Nat := 3

/-- mirrors libs/bulk-action/src/config/BulkActionConfig.ts:46-53, 111-118 -/
structure WatcherConfig where
  groupTimeoutMs : Nat := 3600000
  lockTtlMs : Nat := 30000
  lockRetryCount : Nat := 3
  staleGroupThresholdMs : Nat := 60000

/-- mirrors libs/bulk-action/src/config/BulkActionConfig.ts:55-63, 120-129 -/
structure ReliableQueueConfig where
  ackTimeoutMs : Nat := 40000
  orphanRecoveryBatchSize : Nat := 100
  maxRetryCount : Nat := 3
  deadLetterRetentionMs : Nat := 30 * 24 * 60 * 60 * 1000

/-- mirrors libs/bulk-action/src/config/BulkActionConfig.ts:65-74 -/
structure BulkActionConfig where
  redis : BulkActionRedisConfig := {}
  fairQueue : FairQueueConfig := {}
  backpressure : BackpressureConfig := {}
  congestion : CongestionConfig := {}
  workerPool : WorkerPoolConfig := {}
  watcher : WatcherConfig := {}
  reliableQueue : ReliableQueueConfig := {}

/-- What the module is put together from: the configuration, the types of the
registered processors and the registered aggregators. -/
structure Registry where
  config : BulkActionConfig := {}
  processors : List String := ["SEND_EMAIL", "PUSH_NOTIFICATION"]
  aggregators : List Aggregator := [defaultAggregator]

/-- The map of the constructor: a later registration of a type wins.
mirrors libs/bulk-action/src/aggregator/AggregatorService.ts:36-49 -/
def Registry.aggregatorMap (r : Registry) (type : String) : Option Aggregator :=
  r.aggregators.reverse.find? (·.type = type)

/-- mirrors libs/bulk-action/src/aggregator/AggregatorService.ts:261-277 -/
def Registry.resolveAggregator (r : Registry) (processorType : Option String) : Option Aggregator :=
  match processorType.filter (· ≠ "") with
  | some type => (r.aggregatorMap type).or (r.aggregatorMap "__default__")
  | none => r.aggregatorMap "__default__"

end NestPlayground.L1
