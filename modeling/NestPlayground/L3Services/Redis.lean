import NestPlayground.Core.Coroutine
import NestPlayground.L2Scripts.FairQueue
import NestPlayground.L2Scripts.Backpressure
import NestPlayground.L2Scripts.ReliableQueue
import NestPlayground.L2Scripts.Aggregation
import NestPlayground.L3Services.StateMachine

/-!
# The calls the services make

One constructor per Lua command and per plain Redis command on a key family,
with the keys and arguments the caller passes; `Reply` is the type of the
answer and `exec` the meaning. Configuration values that a caller takes from
the configuration are read in `exec`. Three calls are not Redis calls but
answers from outside the program: reading the clock, drawing a UUID and
waiting for a processor.
-/
namespace NestPlayground.L3
open L1

/-- How a processor run ends: it returns a response, or it throws or times out. -/
inductive Outcome where
  | returned (r : JobProcessorResponse)
  | threw (message : String)
  deriving DecidableEq, Repr

/-- What a call reads from outside the store: the clock, a fresh UUID, the end
of a processor run (`none`: the heartbeat timer fires first) and the order in
which `SMEMBERS` lists a set. -/
structure Input where
  now : Nat := 0
  uuid : String := ""
  outcome : Option Outcome := none
  order : List GroupId := []

inductive Cmd where
  -- Lua commands
  | enqueue (req : BulkActionRequest)
  | dequeue
  | ack (jobId : JobId) (groupId : GroupId)
  | rateLimitCheck (groupId : GroupId)
  | readyQueuePush (jobId : JobId)
  | moveToReady
  | congestionBackoff (jobId : JobId) (groupId : GroupId)
  | congestionRelease (groupId : GroupId) (count : Int)
  | recordJobResult (result : JobProcessorResponse)
  | transitionStatus (groupId : GroupId) (t : Transition)
  | acquireLock (key : LockKey) (token : String)
  | releaseLock (key : LockKey) (token : String)
  | reliableDequeue (workerId instanceId : String) (retryCount : Nat) (groupId : GroupId)
  | reliableAck (jobId : JobId)
  | recoverOrphans
  | extendDeadline (jobId : JobId)
  -- job hashes
  | jobGetAll (jobId : JobId)
  | jobGetRetryCount (jobId : JobId)
  | jobGetGroupId (jobId : JobId)
  | jobIncrRetryCount (jobId : JobId)
  | jobResetRetryCount (jobId : JobId)
  | jobSetStatus (jobId : JobId) (status : JobStatus)
  -- group hashes and lists
  | metaGetAll (groupId : GroupId)
  | metaSetRegisteredJobs (groupId : GroupId) (n : Nat)
  | metaSetTimeoutAt (groupId : GroupId)
  | resultsRange (groupId : GroupId) (start count : Nat)
  | resultSet (groupId : GroupId) (result : AggregatedResult)
  | resultSetAggregatedAt (groupId : GroupId)
  -- queues and sets
  | readyLength
  | readyHead
  | readyAppend (jobId : JobId)
  | nonReadyAdd (jobId : JobId)
  | watcherAdd (groupId : GroupId)
  | watcherRemove (groupId : GroupId)
  | watcherMembers
  | activeRemove (groupId : GroupId)
  | congestionDelete (groupId : GroupId)
  | deadLetter (jobId : JobId) (groupId : GroupId) (retryCount : Nat) (error : String)
  | dlqAppend (entry : DeadLetterEntry)
  | dlqRange
  | dlqPopHead
  | dlqDelete
  -- not Redis
  | dateNow
  | randomUUID
  | process (job : Job)
  deriving DecidableEq

@[reducible] def Reply : Cmd → Type
  | .enqueue _ => Nat × ℚ
  | .dequeue => Option JobHash
  | .ack _ _ => Bool
  | .rateLimitCheck _ => L2.RateLimitResult
  | .readyQueuePush _ => Bool
  | .moveToReady => Nat
  | .congestionBackoff _ _ => L2.BackoffReply
  | .congestionRelease _ _ => Nat
  | .recordJobResult _ => L2.RecordResult
  | .transitionStatus _ _ => Bool
  | .acquireLock _ _ => Bool
  | .releaseLock _ _ => Bool
  | .reliableDequeue _ _ _ _ => Option (JobId × Nat)
  | .reliableAck _ => Bool
  | .recoverOrphans => L2.RecoverReply
  | .extendDeadline _ => Bool
  | .jobGetAll _ => JobHash
  | .jobGetRetryCount _ => Option Nat
  | .jobGetGroupId _ => Option GroupId
  | .jobIncrRetryCount _ => Nat
  | .jobResetRetryCount _ => Unit
  | .jobSetStatus _ _ => Unit
  | .metaGetAll _ => GroupMeta
  | .metaSetRegisteredJobs _ _ => Unit
  | .metaSetTimeoutAt _ => Unit
  | .resultsRange _ _ _ => List JobProcessorResponse
  | .resultSet _ _ => Unit
  | .resultSetAggregatedAt _ => Unit
  | .readyLength => Nat
  | .readyHead => List JobId
  | .readyAppend _ => Unit
  | .nonReadyAdd _ => Unit
  | .watcherAdd _ => Unit
  | .watcherRemove _ => Unit
  | .watcherMembers => List GroupId
  | .activeRemove _ => Unit
  | .congestionDelete _ => Unit
  | .deadLetter _ _ _ _ => Unit
  | .dlqAppend _ => Unit
  | .dlqRange => List DeadLetterEntry
  | .dlqPopHead => Option DeadLetterEntry
  | .dlqDelete => Unit
  | .dateNow => Nat
  | .randomUUID => String
  | .process _ => Option Outcome

/-- The calls that go over the network and may reject. -/
def Cmd.remote : Cmd → Bool
  | .dateNow => false
  | .randomUUID => false
  | .process _ => false
  | _ => true

/-- mirrors libs/bulk-action/src/key/RedisKeyBuilder.ts:16-18 -/
def keyPrefix (reg : Registry) : String := reg.config.redis.keyPrefix.getD "bulk-action:"

/-- mirrors libs/bulk-action/src/backpressure/RateLimiterService.ts:98-102 -/
def currentWindow (reg : Registry) (now : Nat) : Nat :=
  now / (reg.config.backpressure.rateLimitWindowSec * 1000)

/-- The listing `SMEMBERS` gives: the set in some order. -/
def listing (order xs : List GroupId) : List GroupId := if order.isPerm xs then order else xs

def exec (reg : Registry) : (c : Cmd) → Input → Store → Store × Reply c
  | .enqueue req, inp, s => L2.enqueue Core.binary64 reg.config.fairQueue.alpha req inp.now s
  | .dequeue, inp, s => L2.dequeue Core.binary64 reg.config.fairQueue.alpha inp.now s
  | .ack j g, _, s => L2.ack j g s
  | .rateLimitCheck g, inp, s =>
    let window := currentWindow reg inp.now
    L2.rateLimitCheck (rateLimitGroup (keyPrefix reg) g window) (rateLimitGlobal (keyPrefix reg) window)
      reg.config.backpressure.globalRps g s
  | .readyQueuePush j, _, s => L2.readyQueuePush reg.config.backpressure.readyQueueMaxSize j s
  | .moveToReady, inp, s => L2.moveToReady inp.now reg.config.backpressure.dispatchBatchSize s
  | .congestionBackoff j g, inp, s =>
    L2.congestionBackoff reg.config.backpressure.globalRps reg.config.congestion.baseBackoffMs
      reg.config.congestion.maxBackoffMs j g inp.now s
  | .congestionRelease g n, _, s => L2.congestionRelease g n s
  | .recordJobResult r, inp, s => L2.recordJobResult r inp.now s
  | .transitionStatus g t, inp, s => L2.transitionStatus g t.source t.target inp.now s
  | .acquireLock k t, _, s => L2.acquireLock k t s
  | .releaseLock k t, _, s => L2.releaseLock k t s
  | .reliableDequeue w i n g, inp, s =>
    L2.reliableDequeue reg.config.reliableQueue.ackTimeoutMs w i n g inp.now s
  | .reliableAck j, _, s => L2.reliableAck j s
  | .recoverOrphans, inp, s =>
    L2.recoverOrphans inp.now reg.config.reliableQueue.orphanRecoveryBatchSize
      reg.config.reliableQueue.maxRetryCount s
  | .extendDeadline j, inp, s => L2.extendDeadline j reg.config.reliableQueue.ackTimeoutMs inp.now s
  | .jobGetAll j, _, s => (s, s.jobs j)
  | .jobGetRetryCount j, _, s => (s, (s.jobs j).retryCount)
  | .jobGetGroupId j, _, s => (s, (s.jobs j).groupId)
  | .jobIncrRetryCount j, _, s =>
    let n := (s.jobs j).retryCount.getD 0 + 1
    (s.modJob j fun h => { h with retryCount := some n }, n)
  | .jobResetRetryCount j, _, s => (s.modJob j fun h => { h with retryCount := some 0 }, ())
  | .jobSetStatus j st, _, s => (s.modJob j fun h => { h with status := some st }, ())
  | .metaGetAll g, _, s => (s, s.groupMeta g)
  | .metaSetRegisteredJobs g n, _, s => (s.modMeta g fun m => { m with registeredJobs := some n }, ())
  | .metaSetTimeoutAt g, inp, s =>
    (s.modMeta g fun m => { m with timeoutAt := some (inp.now + reg.config.watcher.groupTimeoutMs) }, ())
  | .resultsRange g start count, _, s => (s, ((s.groupJobResults g).drop start).take count)
  | .resultSet g r, _, s =>
    ({ s with
        groupResult := Function.update s.groupResult g { s.groupResult g with result := some r } }, ())
  | .resultSetAggregatedAt g, inp, s =>
    ({ s with
        groupResult := Function.update s.groupResult g
          { s.groupResult g with aggregatedAt := some inp.now } }, ())
  | .readyLength, _, s => (s, s.readyQueue.length)
  | .readyHead, _, s => (s, s.readyQueue.take 1)
  | .readyAppend j, _, s => ({ s with readyQueue := s.readyQueue ++ [j] }, ())
  | .nonReadyAdd j, inp, s =>
    ({ s with nonReadyQueue := s.nonReadyQueue.zadd (inp.now + reg.config.congestion.baseBackoffMs) j }, ())
  | .watcherAdd g, _, s => ({ s with watcherActiveGroups := Store.sadd s.watcherActiveGroups g }, ())
  | .watcherRemove g, _, s => ({ s with watcherActiveGroups := Store.srem s.watcherActiveGroups g }, ())
  | .watcherMembers, inp, s => (s, listing inp.order s.watcherActiveGroups)
  | .activeRemove g, _, s => ({ s with activeGroups := Store.srem s.activeGroups g }, ())
  | .congestionDelete g, _, s =>
    ({ s with
        congestionNonReadyCount := Function.update s.congestionNonReadyCount g none
        congestionStats := Function.update s.congestionStats g {} }, ())
  | .deadLetter j g n e, inp, s =>
    ({ s with deadLetterQueue := s.deadLetterQueue ++ [⟨j, g, n, e, inp.now⟩] }, ())
  | .dlqAppend e, _, s => ({ s with deadLetterQueue := s.deadLetterQueue ++ [e] }, ())
  | .dlqRange, _, s => (s, s.deadLetterQueue)
  | .dlqPopHead, _, s => ({ s with deadLetterQueue := s.deadLetterQueue.tail }, s.deadLetterQueue.head?)
  | .dlqDelete, _, s => ({ s with deadLetterQueue := [] }, ())
  | .dateNow, inp, s => (s, inp.now)
  | .randomUUID, inp, s => (s, inp.uuid)
  | .process _, inp, s => (s, inp.outcome)

/-- A service function at an await, as an action that resumes it. -/
abbrev Await (Pc α : Type) := Core.Action Reply (Core.Next Pc α)

end NestPlayground.L3
