import NestPlayground.L3Services.Admission
import NestPlayground.L3Services.Finalize

/-!
# Ready queue → result

`ReliableQueueService.dequeue`, `Worker.tick` and the handlers of
`WorkerPoolService`, and `OrphanRecoveryService.runOnce`.
-/
namespace NestPlayground.L3
open L1

/-! ## Taking a job -/

/-- The peek (`LLEN`, `LRANGE 0 0`, two `HGET`s) and the script. `workerId` and
`instanceId` are the caller's.
mirrors libs/bulk-action/src/reliable-queue/ReliableQueueService.ts:28-76 -/
inductive DequeuePc where
  | length (workerId instanceId : String)
  | peek (workerId instanceId : String)
  | peekRetryCount (workerId instanceId : String) (peekJobId : JobId)
  | peekGroupId (workerId instanceId : String) (peekJobId : JobId) (retryCount : Nat)
  | script (workerId instanceId : String) (retryCount : Nat) (groupId : GroupId)

def DequeuePc.view : DequeuePc → Await DequeuePc (Option (JobId × Nat))
  | .length w i =>
    .call .readyLength (fun length => if length = 0 then .ret none else .goto (.peek w i)) .throw
  | .peek w i =>
    .call .readyHead
      (fun
        | [] => .goto (.script w i 0 "")
        | peekJobId :: _ => .goto (.peekRetryCount w i peekJobId))
      .throw
  | .peekRetryCount w i j =>
    .call (.jobGetRetryCount j) (fun retryCount => .goto (.peekGroupId w i j (retryCount.getD 0))) .throw
  | .peekGroupId w i j n =>
    .call (.jobGetGroupId j) (fun groupId => .goto (.script w i n (groupId.getD ""))) .throw
  | .script w i n g => .call (.reliableDequeue w i n g) (fun r => .ret r) .throw

/-! ## After processing -/

/-- Errors are caught and logged.
mirrors libs/bulk-action/src/worker-pool/WorkerPoolService.ts:126-155 -/
inductive CompletePc where
  | record (result : JobProcessorResponse)
  | ack (jobId : JobId) (groupId : GroupId)
  | resetGroupStats (groupId : GroupId)
  | finalize (p : FinalizePc)

def CompletePc.view (reg : Registry) : CompletePc → Await CompletePc Unit
  | .record r => .call (.recordJobResult r) (fun _ => .goto (.ack r.jobId r.groupId)) (.ret ())
  | .ack j g =>
    .call (.ack j g)
      (fun isGroupCompleted => if isGroupCompleted then .goto (.resetGroupStats g) else .ret ())
      (.ret ())
  | .resetGroupStats g =>
    .call (.congestionDelete g) (fun _ => .goto (.finalize (.start g))) (.ret ())
  | .finalize p =>
    (p.view reg).map fun
      | .goto p => .goto (.finalize p)
      | .ret _ => .ret ()
      | .throw => .ret ()

/-- The result `handleDeadLetter` records.
mirrors libs/bulk-action/src/worker-pool/WorkerPoolService.ts:202-210 -/
def deadLetterResult (job : Job) (message : String) : JobProcessorResponse where
  jobId := job.id
  groupId := job.groupId
  success := false
  durationMs := 0
  processorType := some job.processorType
  error := some { message, retryable := false }

/-- Requeue below the retry limit, `handleDeadLetter` at it. Errors are caught
and logged.
mirrors libs/bulk-action/src/worker-pool/WorkerPoolService.ts:157-217 -/
inductive FailedPc where
  | incrRetryCount (job : Job)
  | setPending (job : Job)
  | requeue (p : AddPc)
  | deadLetter (job : Job) (message : String)
  | setFailed (job : Job) (message : String)
  | record (job : Job) (message : String)
  | ack (job : Job)

def FailedPc.start (reg : Registry) (job : Job) (message : String) : FailedPc :=
  if job.retryCount < reg.config.workerPool.maxRetryCount then .incrRetryCount job
  else .deadLetter job message

def FailedPc.view (reg : Registry) : FailedPc → Await FailedPc Unit
  | .incrRetryCount job => .call (.jobIncrRetryCount job.id) (fun _ => .goto (.setPending job)) (.ret ())
  | .setPending job =>
    .call (.jobSetStatus job.id .pending)
      (fun _ => .goto (.requeue (.start reg job.id job.groupId)))
      (.ret ())
  | .requeue p =>
    (p.view reg).map fun
      | .goto p => .goto (.requeue p)
      | .ret _ => .ret ()
      | .throw => .ret ()
  | .deadLetter job e =>
    .call (.deadLetter job.id job.groupId job.retryCount e) (fun _ => .goto (.setFailed job e)) (.ret ())
  | .setFailed job e => .call (.jobSetStatus job.id .failed) (fun _ => .goto (.record job e)) (.ret ())
  | .record job e =>
    .call (.recordJobResult (deadLetterResult job e)) (fun _ => .goto (.ack job)) (.ret ())
  | .ack job => .call (.ack job.id job.groupId) (fun _ => .ret ()) (.ret ())

/-! ## One tick -/

/-- `jobId` is the id popped from the ready queue, `job` the parsed hash.
mirrors libs/bulk-action/src/worker-pool/Worker.ts:81-165 -/
inductive TickPc where
  | dequeue (p : DequeuePc)
  | loadJob (jobId : JobId)
  | cleanUp (jobId : JobId)
  | startTime (jobId : JobId) (job : Job)
  | process (jobId : JobId) (job : Job) (startTime : Nat)
  | heartbeat (jobId : JobId) (job : Job) (startTime : Nat)
  | endTime (jobId : JobId) (job : Job) (startTime : Nat) (result : JobProcessorResponse)
  | ack (jobId : JobId) (job : Job) (result : JobProcessorResponse)
  | nack (jobId : JobId) (job : Job) (message : String)
  | nackCaught (jobId : JobId) (job : Job) (message : String)
  | complete (p : CompletePc)
  | failed (p : FailedPc)

/-- Stands for the text of the error a rejected call throws. -/
def rejection : String := "Redis call rejected"

/-- The branch on the processor's answer.
mirrors libs/bulk-action/src/worker-pool/Worker.ts:124-134 -/
def TickPc.settle (jobId : JobId) (job : Job) (result : JobProcessorResponse) : TickPc :=
  if result.success then .ack jobId job result
  else
    match result.error with
    | some error => if error.retryable then .nack jobId job error.message else .ack jobId job result
    | none => .ack jobId job result

/-- `currentJob.id` is truthy: the hash has a nonempty id.
mirrors libs/bulk-action/src/worker-pool/Worker.ts:193-201 -/
def TickPc.loaded (jobId : JobId) (hash : JobHash) : Core.Next TickPc Unit :=
  if hash.id.getD "" = "" then .goto (.cleanUp jobId)
  else
    match Job.ofHash? hash with
    | some job => .goto (.startTime jobId job)
    | none => .throw

def TickPc.view (reg : Registry) : TickPc → Await TickPc Unit
  | .dequeue p =>
    p.view.map fun
      | .goto p => .goto (.dequeue p)
      | .ret (some (jobId, _)) => .goto (.loadJob jobId)
      | .ret none => .ret ()
      | .throw => .throw
  | .loadJob j => .call (.jobGetAll j) (fun hash => TickPc.loaded j hash) .throw
  | .cleanUp j => .call (.reliableAck j) (fun _ => .ret ()) .throw
  | .startTime j job =>
    .call .dateNow
      (fun now =>
        if job.processorType ∈ reg.processors then .goto (.process j job now)
        else .goto (.nackCaught j job s!"No processor registered for job type: {job.processorType}"))
      .throw
  | .process j job t =>
    .call (.process job)
      (fun
        | none => .goto (.heartbeat j job t)
        | some (.returned r) => .goto (.endTime j job t r)
        | some (.threw e) => .goto (.nackCaught j job e))
      .throw
  | .heartbeat j job t =>
    .call (.extendDeadline j) (fun _ => .goto (.process j job t)) (.goto (.process j job t))
  | .endTime j job t r =>
    .call .dateNow
      (fun now => .goto (TickPc.settle j job
        { r with durationMs := (now : Int) - t, processorType := some job.processorType }))
      .throw
  | .ack j job r =>
    .call (.reliableAck j) (fun _ => .goto (.complete (.record r))) (.goto (.nackCaught j job rejection))
  | .nack j job e =>
    .call (.reliableAck j) (fun _ => .goto (.failed (.start reg job e))) (.goto (.nackCaught j job rejection))
  | .nackCaught j job e =>
    .call (.reliableAck j) (fun _ => .goto (.failed (.start reg job e))) .throw
  | .complete p =>
    (p.view reg).map fun
      | .goto p => .goto (.complete p)
      | .ret _ => .ret ()
      | .throw => .throw
  | .failed p =>
    (p.view reg).map fun
      | .goto p => .goto (.failed p)
      | .ret _ => .ret ()
      | .throw => .throw

/-! ## Orphan recovery -/

/-- The result recorded for a dead-lettered orphan.
mirrors libs/bulk-action/src/reliable-queue/OrphanRecoveryService.ts:125-132 -/
def orphanResult (jobId : JobId) (groupId : GroupId) : JobProcessorResponse where
  jobId
  groupId
  success := false
  durationMs := 0
  processorType := some ""
  error := some { message := "orphan: max retries exceeded", retryable := false }

/-- `Number(v)`, where `none` is `NaN`. -/
def toNumber : L2.LuaValue → Option Nat
  | .number n => some n
  | .string s => s.toNat?

/-- `String(v)` -/
def toText : L2.LuaValue → String
  | .number n => toString n
  | .string s => s

/-- The steps of two through the flat list; a job without a group would get
`undefined`, written as the empty string here.
mirrors libs/bulk-action/src/reliable-queue/OrphanRecoveryService.ts:119-122 -/
def rePair : List String → List (JobId × GroupId)
  | [] => []
  | [jobId] => [(jobId, "")]
  | jobId :: groupId :: pairs => (jobId, groupId) :: rePair pairs

/-- What `runOnce` reads from the reply: the two counts and the pairs it goes through.
mirrors libs/bulk-action/src/reliable-queue/OrphanRecoveryService.ts:94-113 -/
def readReply (result : List L2.LuaValue) : Option (Nat × Nat × List (JobId × GroupId)) := do
  let recovered ← toNumber (← result[0]?)
  let deadLettered ← toNumber (← result[1]?)
  pure (recovered, deadLettered, if deadLettered > 0 then rePair ((result.drop 2).map toText) else [])

theorem rePair_flatMap (pairs : List (JobId × GroupId)) : rePair (pairs.flatMap fun p => [p.1, p.2]) = pairs := by
  induction pairs with
  | nil => rfl
  | cons p pairs ih => simp only [List.flatMap_cons, List.cons_append, List.nil_append, rePair, ih]

/-- `runOnce` reads what the script meant, if the script counted its pairs. -/
theorem readReply_flat {r : L2.RecoverReply} (h : r.deadLettered = r.pairs.length) :
    readReply r.flat = some (r.recovered, r.deadLettered, r.pairs) := by
  have hpairs : rePair ((r.flat.drop 2).map toText) = r.pairs := by
    simp only [L2.RecoverReply.flat, List.drop_succ_cons, List.drop_zero, List.map_flatMap, List.map_cons, List.map_nil,
      toText, rePair_flatMap]
  have hif : (if r.deadLettered > 0 then r.pairs else []) = r.pairs := by
    split
    · rfl
    · exact (List.length_eq_zero_iff.mp (by omega)).symm
  unfold readReply
  rw [hpairs]
  exact congrArg (fun pairs => some (r.recovered, r.deadLettered, pairs)) hif

/-- mirrors libs/bulk-action/src/reliable-queue/OrphanRecoveryService.ts:74-140 -/
inductive RecoveryPc where
  | script
  | record (jobId : JobId) (groupId : GroupId) (pairs : List (JobId × GroupId))
  | ack (jobId : JobId) (groupId : GroupId) (pairs : List (JobId × GroupId))
  | finalize (p : FinalizePc) (pairs : List (JobId × GroupId))

/-- The loop of `handleDeadLetteredOrphans`. -/
def RecoveryPc.loop : List (JobId × GroupId) → Core.Next RecoveryPc Unit
  | [] => .ret ()
  | (jobId, groupId) :: pairs => .goto (.record jobId groupId pairs)

def RecoveryPc.view (reg : Registry) : RecoveryPc → Await RecoveryPc Unit
  | .script => .call .recoverOrphans (fun r => RecoveryPc.loop r.pairs) .throw
  | .record j g pairs =>
    .call (.recordJobResult (orphanResult j g)) (fun _ => .goto (.ack j g pairs)) .throw
  | .ack j g pairs =>
    .call (.ack j g)
      (fun isGroupCompleted =>
        if isGroupCompleted then .goto (.finalize (.start g) pairs) else RecoveryPc.loop pairs)
      .throw
  | .finalize p pairs =>
    (p.view reg).map fun
      | .goto p => .goto (.finalize p pairs)
      | .ret _ => RecoveryPc.loop pairs
      | .throw => .throw

end NestPlayground.L3
