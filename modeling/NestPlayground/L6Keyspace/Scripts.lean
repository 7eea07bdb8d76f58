import NestPlayground.L6Keyspace.Database

/-!
# The scripts, command by command

Each script with its keys and arguments in the order of `KEYS` and `ARGV`, one
Redis command after another as in the Lua text. `nowMs` is what a script
computes from `TIME`. The numbers of Lua are doubles: the scores are rounded
(`binary64`), the counts are far below `2 ^ 53`. The reply is the table the
script returns. A `while` loop is bounded by the number of groups in the queue
(`looping` if that were not enough).
-/
namespace NestPlayground.L6.Scripts
open L1 Redis
open NestPlayground.Core (binary64)

/-- A statement under an `if` without `else`. -/
def onlyIf (c : Prop) [Decidable c] (m : Redis Unit) : Redis Unit := if c then m else return ()

/-! ## Fair queue -/

/-- mirrors libs/bulk-action/src/lua/enqueue.lua:1-54 -/
def enqueue (fairQueueKey groupJobsKey groupMetaKey jobDataKey groupId jobId payload : String) (basePriority : ℚ)
    (priorityLevel : String) (alpha : ℚ) (jobProcessorType : String) (nowMs : Nat) : Redis (Int × ℚ) := do
  hset jobDataKey
    [(.id, .text jobId), (.groupId, .text groupId), (.processorType, .text jobProcessorType),
      (.payload, .text payload), (.status, .text "PENDING"), (.retryCount, .int 0), (.createdAt, .int nowMs)]
  rpush groupJobsKey (.text jobId)
  let totalJobs ← hincrby groupMetaKey .totalJobs 1
  let doneJobs ← integer (← hget groupMetaKey .doneJobs)
  onlyIf (totalJobs = 1) do
    hset groupMetaKey
      [(.basePriority, .number basePriority), (.priorityLevel, .text priorityLevel), (.doneJobs, .int 0),
        (.createdAt, .int nowMs), (.status, .text "CREATED")]
  let remaining := max 1 (binary64 (totalJobs - doneJobs))
  let sjfBoost := binary64 (alpha * binary64 (-1 + binary64 (totalJobs / remaining)))
  let priority := binary64 (binary64 (binary64 (-1 * nowMs) + basePriority) + sjfBoost)
  zadd fairQueueKey priority groupId
  return (totalJobs, priority)

/-- The `while true` over one queue; a pass that pops nothing takes a group out.
mirrors libs/bulk-action/src/lua/dequeue.lua:13-61 -/
def dequeueFrom (queueKey : String) (alpha : ℚ) (rawPrefix : String) (nowMs : Nat) : Nat → Redis (Option Hash)
  | 0 => throw .looping
  | fuel + 1 => do
    match ← zrevrangeFirst queueKey with
    | none => return none
    | some (_, groupId) =>
      let groupJobsKey := Lua.dequeueGroupJobsKey rawPrefix groupId
      let groupMetaKey := Lua.dequeueGroupMetaKey rawPrefix groupId
      match ← lpop groupJobsKey with
      | some popped =>
        let jobKey := Lua.dequeueJobKey rawPrefix (← text popped)
        hset jobKey [(.status, .text "PROCESSING")]
        let totalJobs ← integer (← hget groupMetaKey .totalJobs)
        let doneJobs ← integer (← hget groupMetaKey .doneJobs)
        let remainingJobs ← llen groupJobsKey
        if remainingJobs = 0 then
          let _ ← zrem queueKey groupId
          return some (← hgetall jobKey)
        else
          let basePriority ← tonumber (← hget groupMetaKey .basePriority)
          let remaining := max 1 (binary64 (totalJobs - doneJobs))
          let sjfBoost := binary64 (alpha * binary64 (-1 + binary64 (totalJobs / remaining)))
          let newPriority := binary64 (binary64 (binary64 (-1 * nowMs) + basePriority) + sjfBoost)
          zadd queueKey newPriority groupId
          return some (← hgetall jobKey)
      | none =>
        let _ ← zrem queueKey groupId
        dequeueFrom queueKey alpha rawPrefix nowMs fuel

/-- mirrors libs/bulk-action/src/lua/dequeue.lua:8-64 -/
def dequeueQueues (alpha : ℚ) (rawPrefix : String) (nowMs : Nat) : List String → Redis (Option Hash)
  | [] => return none
  | queueKey :: queues => do
    match ← dequeueFrom queueKey alpha rawPrefix nowMs ((← zcard queueKey) + 1) with
    | some jobData => return some jobData
    | none => dequeueQueues alpha rawPrefix nowMs queues

def dequeue (highPriorityQueueKey normalPriorityQueueKey lowPriorityQueueKey : String) (alpha : ℚ) (rawPrefix : String)
    (nowMs : Nat) : Redis (Option Hash) :=
  dequeueQueues alpha rawPrefix nowMs [highPriorityQueueKey, normalPriorityQueueKey, lowPriorityQueueKey]

/-- mirrors libs/bulk-action/src/lua/ack.lua:1-17 -/
def ack (jobDataKey groupMetaKey : String) : Redis Int := do
  hset jobDataKey [(.status, .text "COMPLETED")]
  let doneJobs ← hincrby groupMetaKey .doneJobs 1
  let totalJobs ← integer (← hget groupMetaKey .totalJobs)
  if doneJobs ≥ totalJobs then
    hset groupMetaKey [(.status, .text "AGGREGATING")]
    return 1
  else return 0

/-! ## Backpressure -/

/-- `{allowed, globalCount, globalLimit, groupCount, perGroupLimit}` -/
structure RateLimitReply where
  allowed : Int
  globalCount : Int
  globalLimit : Int
  groupCount : Int
  perGroupLimit : Int

/-- `INCR`, and `EXPIRE` if that made the counter 1.
mirrors libs/bulk-action/src/lua/rate-limit-check.lua:13-16 and 28-31 -/
def incrExpiring (key : String) (keyTtl : Nat) : Redis Int := do
  let count ← incrby key 1
  onlyIf (count = 1) (expire key keyTtl)
  return count

/-- mirrors libs/bulk-action/src/lua/rate-limit-check.lua:1-40 -/
def rateLimitCheck (perGroupRateLimitKey globalRateLimitKey activeGroupsKey : String) (globalLimit : Nat)
    (groupId : String) (keyTtl : Nat) : Redis RateLimitReply := do
  sadd activeGroupsKey groupId
  let globalCount ← incrExpiring globalRateLimitKey keyTtl
  if globalCount > globalLimit then
    let _ ← incrby globalRateLimitKey (-1)
    return ⟨0, globalCount - 1, globalLimit, 0, 0⟩
  else
    let activeGroupCount ← scard activeGroupsKey
    let perGroupLimit := max 1 (globalLimit / max 1 activeGroupCount)
    let groupCount ← incrExpiring perGroupRateLimitKey keyTtl
    if groupCount > perGroupLimit then
      let _ ← incrby perGroupRateLimitKey (-1)
      let _ ← incrby globalRateLimitKey (-1)
      return ⟨0, globalCount, globalLimit, groupCount - 1, perGroupLimit⟩
    else return ⟨1, globalCount, globalLimit, groupCount, perGroupLimit⟩

/-- mirrors libs/bulk-action/src/lua/ready-queue-push.lua:1-12 -/
def readyQueuePush (readyQueueKey jobId : String) (maxSize : Nat) : Redis Int := do
  let currentSize ← llen readyQueueKey
  if currentSize ≥ maxSize then return 0
  else
    rpush readyQueueKey (.text jobId)
    return 1

/-- `DECRBY`, and `SET` to 0 if that made the count negative.
mirrors libs/bulk-action/src/lua/congestion-release.lua:6-11 and move-to-ready.lua:23-26 -/
def decrClamped (countKey : String) (n : Int) : Redis Int := do
  let newCount ← incrby countKey (-n)
  onlyIf (newCount < 0) (setString countKey (.int 0))
  return newCount

/-- mirrors libs/bulk-action/src/lua/move-to-ready.lua:14-31 -/
def moveJob (nonReadyQueueKey readyQueueKey rawPrefix jobId : String) : Redis Unit := do
  let _ ← zrem nonReadyQueueKey jobId
  rpush readyQueueKey (.text jobId)
  match ← hget (Lua.moveToReadyJobKey rawPrefix jobId) .groupId with
  | none => return ()
  | some named =>
    let groupId ← text named
    let newCount ← decrClamped (Lua.moveToReadyCountKey rawPrefix groupId) 1
    hset (Lua.moveToReadyStatsKey rawPrefix groupId) [(.currentNonReadyCount, .int (max 0 newCount))]

/-- mirrors libs/bulk-action/src/lua/move-to-ready.lua:1-33 -/
def moveToReady (nonReadyQueueKey readyQueueKey : String) (currentTimeMs maxBatchSize : Nat) (rawPrefix : String) :
    Redis Nat := do
  let jobs ← zrangebyscore nonReadyQueueKey currentTimeMs maxBatchSize
  jobs.foldlM (fun _ jobId => moveJob nonReadyQueueKey readyQueueKey rawPrefix jobId) ()
  return jobs.length

/-- mirrors libs/bulk-action/src/lua/congestion-backoff.lua:1-42 -/
def congestionBackoff (nonReadyQueueKey congestionStatsKey nonReadyCountKey activeGroupsKey jobId : String)
    (globalRps baseBackoffMs maxBackoffMs currentTimeMs : Nat) : Redis (Int × Int × Int) := do
  let nonReadyCount ← incrby nonReadyCountKey 1
  let activeGroups := max 1 (← scard activeGroupsKey)
  let rateLimitSpeed : Int := max 1 (globalRps / activeGroups)
  let backoffMs := min (baseBackoffMs + nonReadyCount / rateLimitSpeed * 1000) maxBackoffMs
  zadd nonReadyQueueKey (currentTimeMs + backoffMs) jobId
  hset congestionStatsKey
    [(.currentNonReadyCount, .int nonReadyCount), (.lastBackoffMs, .int backoffMs),
      (.rateLimitSpeed, .int rateLimitSpeed), (.lastUpdatedMs, .int currentTimeMs)]
  return (backoffMs, nonReadyCount, rateLimitSpeed)

/-- mirrors libs/bulk-action/src/lua/congestion-release.lua:1-15 -/
def congestionRelease (nonReadyCountKey congestionStatsKey : String) (decreaseCount : Int) : Redis Int := do
  let newCount := max 0 (← decrClamped nonReadyCountKey decreaseCount)
  hset congestionStatsKey [(.currentNonReadyCount, .int newCount)]
  return newCount

/-! ## Results, status and locks -/

/-- mirrors libs/bulk-action/src/lua/record-job-result.lua:1-35 -/
def recordJobResult (groupMetaKey resultListKey : String) (resultType : String) (resultJson : Datum) (nowMs : Nat) :
    Redis (Int × Int × Int × Int) := do
  let _ ← hincrby groupMetaKey (if resultType = "success" then .successCount else .failedCount) 1
  rpush resultListKey resultJson
  hsetnx groupMetaKey .firstJobStartedAt (.int nowMs)
  hset groupMetaKey [(.lastUpdatedAt, .int nowMs)]
  let successCount ← integer (← hget groupMetaKey .successCount)
  let failedCount ← integer (← hget groupMetaKey .failedCount)
  let totalJobs ← integer (← hget groupMetaKey .totalJobs)
  let isComplete := if successCount + failedCount ≥ totalJobs ∧ totalJobs > 0 then 1 else 0
  return (isComplete, successCount, failedCount, totalJobs)

/-- mirrors libs/bulk-action/src/lua/transition-status.lua:1-26 -/
def transitionStatus (groupMetaKey fromStatus toStatus : String) (nowMs : Nat) : Redis Int := do
  let currentStatus ← hget groupMetaKey .status
  if currentStatus ≠ some (.text fromStatus) then return 0
  else
    hset groupMetaKey [(.status, .text toStatus)]
    hset groupMetaKey [(.lastUpdatedAt, .int nowMs)]
    if toStatus = "AGGREGATING" then
      hset groupMetaKey [(.aggregationStartAt, .int nowMs)]
      return 1
    else if toStatus = "COMPLETED" then
      hset groupMetaKey [(.completedAt, .int nowMs)]
      return 1
    else if toStatus = "FAILED" then
      hset groupMetaKey [(.failedAt, .int nowMs)]
      return 1
    else return 1

/-- mirrors libs/bulk-action/src/lua/acquire-lock.lua:1-12 -/
def acquireLock (lockKey token : String) (ttlMs : Nat) : Redis Int := do
  let result ← setNxPx lockKey (.text token) ttlMs
  return if result then 1 else 0

/-- mirrors libs/bulk-action/src/lua/release-lock.lua:1-13 -/
def releaseLock (lockKey token : String) : Redis Int := do
  let currentToken ← getString lockKey
  if currentToken ≠ some (.text token) then return 0
  else
    del [lockKey]
    return 1

/-! ## In-flight queue -/

/-- mirrors libs/bulk-action/src/lua/reliable-dequeue.lua:1-37 -/
def reliableDequeue (readyQueueKey inFlightQueueKey inFlightMetaPrefix : String) (ackTimeoutMs : Nat)
    (workerId instanceId : String) (retryCount : Datum) (groupId : String) (nowMs : Nat) :
    Redis (Option (String × Nat)) := do
  match ← lpop readyQueueKey with
  | none => return none
  | some popped =>
    let jobId ← text popped
    let deadline := nowMs + ackTimeoutMs
    zadd inFlightQueueKey deadline jobId
    hset (inFlightMetaPrefix ++ jobId)
      [(.jobId, .text jobId), (.workerId, .text workerId), (.instanceId, .text instanceId),
        (.deadline, .int deadline), (.dequeuedAt, .int nowMs), (.retryCount, retryCount), (.groupId, .text groupId)]
    return some (jobId, deadline)

/-- mirrors libs/bulk-action/src/lua/reliable-ack.lua:1-14 -/
def reliableAck (inFlightQueueKey inFlightMetaPrefix jobId : String) : Redis Int := do
  let removed ← zrem inFlightQueueKey jobId
  del [inFlightMetaPrefix ++ jobId]
  return removed

/-- mirrors libs/bulk-action/src/lua/extend-deadline.lua:1-25 -/
def extendDeadline (inFlightQueueKey inFlightMetaPrefix jobId : String) (extensionMs nowMs : Nat) : Redis Int := do
  match ← zscore inFlightQueueKey jobId with
  | none => return 0
  | some _ =>
    let newDeadline := nowMs + extensionMs
    zadd inFlightQueueKey newDeadline jobId
    hset (inFlightMetaPrefix ++ jobId) [(.deadline, .int newDeadline)]
    return 1

/-- What the loop of `recover-orphans.lua` accumulates. -/
structure Recovery where
  recovered : Nat := 0
  deadLettered : Nat := 0
  deadLetteredPairs : List (String × String) := []

/-- The retry count and the group of an orphan.
mirrors libs/bulk-action/src/lua/recover-orphans.lua:30-47 -/
def orphan (metaFields : Hash) (jobKey : String) : Redis (Int × String) := do
  if metaFields.isEmpty then
    let retryCount ← integer (← hget jobKey .retryCount)
    match ← hget jobKey .groupId with
    | none => return (retryCount, "")
    | some named => return (retryCount, ← text named)
  else
    let retryCount ← integer (metaFields .retryCount)
    match metaFields .groupId with
    | none => return (retryCount, "")
    | some named => return (retryCount, ← text named)

/-- mirrors libs/bulk-action/src/lua/recover-orphans.lua:22-79 -/
def recoverOrphan (inFlightQueueKey readyQueueKey deadLetterQueueKey inFlightMetaPrefix : String)
    (nowMs maxRetryCount : Nat) (jobKeyPrefix : String) (done : Recovery) (jobId : String) : Redis Recovery := do
  let _ ← zrem inFlightQueueKey jobId
  let metaKey := Lua.recoverOrphansMetaKey inFlightMetaPrefix jobId
  let jobKey := Lua.recoverOrphansJobKey jobKeyPrefix jobId
  let (retryCount, groupId) ← orphan (← hgetall metaKey) jobKey
  del [metaKey]
  if retryCount ≥ maxRetryCount then
    rpush deadLetterQueueKey
      (.deadLetter ⟨jobId, groupId, retryCount.toNat, "orphan: max retries exceeded", nowMs⟩)
    hset jobKey [(.status, .text "FAILED")]
    return { done with
      deadLettered := done.deadLettered + 1
      deadLetteredPairs := done.deadLetteredPairs ++ [(jobId, groupId)] }
  else
    let _ ← hincrby jobKey .retryCount 1
    hset jobKey [(.status, .text "PENDING")]
    rpush readyQueueKey (.text jobId)
    return { done with recovered := done.recovered + 1 }

/-- mirrors libs/bulk-action/src/lua/recover-orphans.lua:1-87 -/
def recoverOrphans (inFlightQueueKey readyQueueKey deadLetterQueueKey inFlightMetaPrefix : String)
    (nowMs batchSize maxRetryCount : Nat) (jobKeyPrefix : String) : Redis Recovery := do
  let orphans ← zrangebyscore inFlightQueueKey nowMs batchSize
  orphans.foldlM
    (recoverOrphan inFlightQueueKey readyQueueKey deadLetterQueueKey inFlightMetaPrefix nowMs maxRetryCount
      jobKeyPrefix)
    {}

end NestPlayground.L6.Scripts
