import NestPlayground.Core.Refinement
import NestPlayground.L4Pipeline.Pipeline
import NestPlayground.L6Keyspace.Records
import NestPlayground.L6Keyspace.Scripts

/-!
# The calls on the keyspace

What each call of a service sends to Redis: the script or command, with the
keys `RedisKeyBuilder` makes and the arguments in the order the service passes
them, and what the service makes of the reply.
-/
namespace NestPlayground.L6
open L1 L3 Redis

/-- mirrors libs/bulk-action/src/key/RedisKeyBuilder.ts:121-127 -/
def lockKey (keyPrefix : String) : LockKey → String
  | .transition g => RedisKeyBuilder.groupTransitionLock keyPrefix g
  | .aggregation g => RedisKeyBuilder.groupAggregationLock keyPrefix g

section
variable (reg : Registry)

/-- mirrors libs/bulk-action/src/fair-queue/FairQueueService.ts:29-67 -/
def enqueue (req : BulkActionRequest) (now : Nat) : Redis (Nat × ℚ) := do
  let (totalJobs, priority) ← Scripts.enqueue
    (RedisKeyBuilder.fairQueue (keyPrefix reg) req.priorityLevel)
    (RedisKeyBuilder.groupJobs (keyPrefix reg) req.jobGroupId)
    (RedisKeyBuilder.groupMeta (keyPrefix reg) req.jobGroupId)
    (RedisKeyBuilder.job (keyPrefix reg) req.jobId)
    req.jobGroupId req.jobId req.payload req.basePriority req.priorityLevel.text reg.config.fairQueue.alpha
    req.jobProcessorType now
  return (totalJobs.toNat, priority)

/-- mirrors libs/bulk-action/src/fair-queue/FairQueueService.ts:71-95 -/
def dequeue (now : Nat) : Redis (Option JobHash) := do
  let result ← Scripts.dequeue
    (RedisKeyBuilder.fairQueue (keyPrefix reg) .high)
    (RedisKeyBuilder.fairQueue (keyPrefix reg) .normal)
    (RedisKeyBuilder.fairQueue (keyPrefix reg) .low)
    reg.config.fairQueue.alpha (RedisKeyBuilder.getPrefix (keyPrefix reg)) now
  return result.map Hash.job

/-- mirrors libs/bulk-action/src/fair-queue/FairQueueService.ts:97-108 -/
def ack (jobId : JobId) (groupId : GroupId) : Redis Bool := do
  let result ← Scripts.ack (RedisKeyBuilder.job (keyPrefix reg) jobId) (RedisKeyBuilder.groupMeta (keyPrefix reg) groupId)
  return decide (result = 1)

/-- mirrors libs/bulk-action/src/backpressure/RateLimiterService.ts:27-58 -/
def checkRateLimit (groupId : GroupId) (now : Nat) : Redis L2.RateLimitResult := do
  let window := currentWindow reg now
  let result ← Scripts.rateLimitCheck
    (rateLimitGroup (keyPrefix reg) groupId window)
    (rateLimitGlobal (keyPrefix reg) window)
    (RedisKeyBuilder.activeGroups (keyPrefix reg))
    reg.config.backpressure.globalRps groupId reg.config.backpressure.rateLimitKeyTtlSec
  return {
    allowed := decide (result.allowed = 1)
    globalCount := result.globalCount.toNat
    globalLimit := result.globalLimit.toNat
    groupCount := result.groupCount.toNat
    perGroupLimit := result.perGroupLimit.toNat }

/-- mirrors libs/bulk-action/src/backpressure/ReadyQueueService.ts:19-35 -/
def push (jobId : JobId) : Redis Bool := do
  let result ← Scripts.readyQueuePush (RedisKeyBuilder.readyQueue (keyPrefix reg)) jobId
    reg.config.backpressure.readyQueueMaxSize
  return decide (result ≠ 0)

/-- mirrors libs/bulk-action/src/backpressure/DispatcherService.ts:130-142 -/
def moveToReady (now : Nat) : Redis Nat :=
  Scripts.moveToReady
    (RedisKeyBuilder.nonReadyQueue (keyPrefix reg))
    (RedisKeyBuilder.readyQueue (keyPrefix reg))
    now reg.config.backpressure.dispatchBatchSize (RedisKeyBuilder.getPrefix (keyPrefix reg))

/-- mirrors libs/bulk-action/src/congestion/CongestionControlService.ts:46-68 -/
def addToNonReady (jobId : JobId) (groupId : GroupId) (now : Nat) : Redis L2.BackoffReply := do
  let (backoffMs, nonReadyCount, rateLimitSpeed) ← Scripts.congestionBackoff
    (RedisKeyBuilder.nonReadyQueue (keyPrefix reg))
    (RedisKeyBuilder.congestionStats (keyPrefix reg) groupId)
    (RedisKeyBuilder.congestionNonReadyCount (keyPrefix reg) groupId)
    (RedisKeyBuilder.activeGroups (keyPrefix reg))
    jobId reg.config.backpressure.globalRps reg.config.congestion.baseBackoffMs reg.config.congestion.maxBackoffMs now
  return ⟨backoffMs.toNat, nonReadyCount.toNat, rateLimitSpeed.toNat⟩

/-- mirrors libs/bulk-action/src/congestion/CongestionControlService.ts:93-105 -/
def releaseFromNonReady (groupId : GroupId) (count : Int) : Redis Nat := do
  let result ← Scripts.congestionRelease
    (RedisKeyBuilder.congestionNonReadyCount (keyPrefix reg) groupId)
    (RedisKeyBuilder.congestionStats (keyPrefix reg) groupId)
    count
  return result.toNat

/-- mirrors libs/bulk-action/src/aggregator/AggregatorService.ts:51-80 -/
def recordJobResult (jobResult : JobProcessorResponse) (now : Nat) : Redis L2.RecordResult := do
  let (isComplete, successCount, failedCount, totalJobs) ← Scripts.recordJobResult
    (RedisKeyBuilder.groupMeta (keyPrefix reg) jobResult.groupId)
    (RedisKeyBuilder.groupJobResults (keyPrefix reg) jobResult.groupId)
    (if jobResult.success then "success" else "failed") (.response jobResult) now
  return {
    isGroupComplete := decide (isComplete = 1)
    successCount := successCount.toNat
    failedCount := failedCount.toNat
    totalJobs := totalJobs.toNat }

/-- mirrors libs/bulk-action/src/aggregator/AggregatorService.ts:247-259 -/
def transition (groupId : GroupId) (source target : GroupStatus) (now : Nat) : Redis Bool := do
  let result ← Scripts.transitionStatus (RedisKeyBuilder.groupMeta (keyPrefix reg) groupId) source.text target.text now
  return decide (result = 1)

/-- mirrors libs/bulk-action/src/lock/DistributedLockService.ts:22-31 -/
def acquire (key : LockKey) (token : String) : Redis Bool := do
  let result ← Scripts.acquireLock (lockKey (keyPrefix reg) key) token reg.config.watcher.lockTtlMs
  return decide (result = 1)

/-- mirrors libs/bulk-action/src/lock/DistributedLockService.ts:43-51 -/
def release (key : LockKey) (token : String) : Redis Bool := do
  let result ← Scripts.releaseLock (lockKey (keyPrefix reg) key) token
  return decide (result = 1)

/-- mirrors libs/bulk-action/src/reliable-queue/ReliableQueueService.ts:49-74 -/
def reliableDequeue (workerId instanceId : String) (retryCount : Nat) (groupId : GroupId) (now : Nat) :
    Redis (Option (JobId × Nat)) :=
  Scripts.reliableDequeue
    (RedisKeyBuilder.readyQueue (keyPrefix reg))
    (RedisKeyBuilder.inFlightQueue (keyPrefix reg))
    (RedisKeyBuilder.inFlightMetaPrefix (keyPrefix reg))
    reg.config.reliableQueue.ackTimeoutMs workerId instanceId (nat retryCount) groupId now

/-- mirrors libs/bulk-action/src/reliable-queue/ReliableQueueService.ts:77-99 -/
def reliableAck (jobId : JobId) : Redis Bool := do
  let removed ← Scripts.reliableAck
    (RedisKeyBuilder.inFlightQueue (keyPrefix reg))
    (RedisKeyBuilder.inFlightMetaPrefix (keyPrefix reg))
    jobId
  return decide (removed = 1)

/-- mirrors libs/bulk-action/src/reliable-queue/ReliableQueueService.ts:101-111 -/
def extendDeadline (jobId : JobId) (now : Nat) : Redis Bool := do
  let result ← Scripts.extendDeadline
    (RedisKeyBuilder.inFlightQueue (keyPrefix reg))
    (RedisKeyBuilder.inFlightMetaPrefix (keyPrefix reg))
    jobId reg.config.reliableQueue.ackTimeoutMs now
  return decide (result = 1)

/-- mirrors libs/bulk-action/src/reliable-queue/OrphanRecoveryService.ts:74-110 -/
def recoverOrphans (now : Nat) : Redis L2.RecoverReply := do
  let result ← Scripts.recoverOrphans
    (RedisKeyBuilder.inFlightQueue (keyPrefix reg))
    (RedisKeyBuilder.readyQueue (keyPrefix reg))
    (RedisKeyBuilder.deadLetterQueue (keyPrefix reg))
    (RedisKeyBuilder.inFlightMetaPrefix (keyPrefix reg))
    now reg.config.reliableQueue.orphanRecoveryBatchSize reg.config.reliableQueue.maxRetryCount
    (RedisKeyBuilder.jobKeyPrefix (keyPrefix reg))
  return ⟨result.recovered, result.deadLettered, result.deadLetteredPairs⟩

/-- Every call, with the plain commands of `libs/redis/src/operations`. -/
def call : (c : Cmd) → Input → Redis (Reply c)
  | .enqueue req, inp => enqueue reg req inp.now
  | .dequeue, inp => dequeue reg inp.now
  | .ack j g, _ => ack reg j g
  | .rateLimitCheck g, inp => checkRateLimit reg g inp.now
  | .readyQueuePush j, _ => push reg j
  | .moveToReady, inp => moveToReady reg inp.now
  | .congestionBackoff j g, inp => addToNonReady reg j g inp.now
  | .congestionRelease g n, _ => releaseFromNonReady reg g n
  | .recordJobResult r, inp => recordJobResult reg r inp.now
  | .transitionStatus g t, inp => transition reg g t.source t.target inp.now
  | .acquireLock k t, _ => acquire reg k t
  | .releaseLock k t, _ => release reg k t
  | .reliableDequeue w i n g, inp => reliableDequeue reg w i n g inp.now
  | .reliableAck j, _ => reliableAck reg j
  | .recoverOrphans, inp => recoverOrphans reg inp.now
  | .extendDeadline j, inp => extendDeadline reg j inp.now
  -- job hashes
  | .jobGetAll j, _ => return (← hgetall (RedisKeyBuilder.job (keyPrefix reg) j)).job
  | .jobGetRetryCount j, _ => return (← hget (RedisKeyBuilder.job (keyPrefix reg) j) .retryCount).bind Datum.nat?
  | .jobGetGroupId j, _ => return (← hget (RedisKeyBuilder.job (keyPrefix reg) j) .groupId).bind Datum.text?
  | .jobIncrRetryCount j, _ => return (← hincrby (RedisKeyBuilder.job (keyPrefix reg) j) .retryCount 1).toNat
  | .jobResetRetryCount j, _ => hset (RedisKeyBuilder.job (keyPrefix reg) j) [(.retryCount, .int 0)]
  | .jobSetStatus j st, _ => hset (RedisKeyBuilder.job (keyPrefix reg) j) [(.status, .text st.text)]
  -- group hashes and lists
  | .metaGetAll g, _ => return (← hgetall (RedisKeyBuilder.groupMeta (keyPrefix reg) g)).groupMeta
  | .metaSetRegisteredJobs g n, _ => hset (RedisKeyBuilder.groupMeta (keyPrefix reg) g) [(.registeredJobs, nat n)]
  | .metaSetTimeoutAt g, inp =>
    hset (RedisKeyBuilder.groupMeta (keyPrefix reg) g) [(.timeoutAt, nat (inp.now + reg.config.watcher.groupTimeoutMs))]
  | .resultsRange g start count, _ =>
    return (← lrange (RedisKeyBuilder.groupJobResults (keyPrefix reg) g) start (start + count - 1)).filterMap
      Datum.response?
  | .resultSet g r, _ => hset (RedisKeyBuilder.groupResult (keyPrefix reg) g) [(.result, .aggregated r)]
  | .resultSetAggregatedAt g, inp => hset (RedisKeyBuilder.groupResult (keyPrefix reg) g) [(.aggregatedAt, nat inp.now)]
  -- queues and sets
  | .readyLength, _ => llen (RedisKeyBuilder.readyQueue (keyPrefix reg))
  | .readyHead, _ => return (← lrange (RedisKeyBuilder.readyQueue (keyPrefix reg)) 0 0).filterMap Datum.text?
  | .readyAppend j, _ => rpush (RedisKeyBuilder.readyQueue (keyPrefix reg)) (.text j)
  | .nonReadyAdd j, inp =>
    zadd (RedisKeyBuilder.nonReadyQueue (keyPrefix reg)) (inp.now + reg.config.congestion.baseBackoffMs : Nat) j
  | .watcherAdd g, _ => sadd (RedisKeyBuilder.watcherActiveGroups (keyPrefix reg)) g
  | .watcherRemove g, _ => srem (RedisKeyBuilder.watcherActiveGroups (keyPrefix reg)) g
  | .watcherMembers, inp => smembers (RedisKeyBuilder.watcherActiveGroups (keyPrefix reg)) inp.order
  | .activeRemove g, _ => srem (RedisKeyBuilder.activeGroups (keyPrefix reg)) g
  | .congestionDelete g, _ =>
    del [RedisKeyBuilder.congestionNonReadyCount (keyPrefix reg) g, RedisKeyBuilder.congestionStats (keyPrefix reg) g]
  | .deadLetter j g n e, inp =>
    rpush (RedisKeyBuilder.deadLetterQueue (keyPrefix reg)) (.deadLetter ⟨j, g, n, e, inp.now⟩)
  | .dlqAppend e, _ => rpush (RedisKeyBuilder.deadLetterQueue (keyPrefix reg)) (.deadLetter e)
  | .dlqRange, _ => return (← lrange (RedisKeyBuilder.deadLetterQueue (keyPrefix reg)) 0 (-1)).filterMap Datum.deadLetter?
  | .dlqPopHead, _ => return (← lpop (RedisKeyBuilder.deadLetterQueue (keyPrefix reg))).bind Datum.deadLetter?
  | .dlqDelete, _ => del [RedisKeyBuilder.deadLetterQueue (keyPrefix reg)]
  -- not Redis
  | .dateNow, inp => return inp.now
  | .randomUUID, inp => return inp.uuid
  | .process _, inp => return inp.outcome

/-- The database behind the calls; what the environment does is that keys expire. -/
def keyspace : Core.Backend Reply Fault Database Input String where
  exec := call reg
  env := Database.expire

end

abbrev State := Core.Net Reply Database L4.Proc
abbrev Label := Core.Label Input String L4.Task

/-- The runs of the pipeline on an empty database. -/
def runs (reg : Registry) : Core.LTS State Label := (keyspace reg).lts (L4.pipeline reg) .empty

end NestPlayground.L6
