import NestPlayground.L3Services.Redis

/-!
# Submissions and maintenance

`BulkActionService.submitJob` and `submitBulkJobs`, the dead-letter operations
and the remaining single-call operations of the exported services.
-/
namespace NestPlayground.L3
open L1

/-- Any rejection is passed on to the caller.
mirrors libs/bulk-action/src/BulkActionService.ts:34-79 -/
inductive SubmitPc where
  | enqueue (req : BulkActionRequest)
  | jobWatch (groupId : GroupId)
  | enqueueBulk (req : SubmitBulkJobsRequest) (job : BulkJob) (rest : List BulkJob)
  | registered (req : SubmitBulkJobsRequest)
  | bulkWatch (req : SubmitBulkJobsRequest)
  | timeout (req : SubmitBulkJobsRequest)

/-- The group it is a submission to. -/
def SubmitPc.groupId : SubmitPc → GroupId
  | .enqueue req => req.jobGroupId
  | .jobWatch g => g
  | .enqueueBulk req _ _ => req.groupId
  | .registered req => req.groupId
  | .bulkWatch req => req.groupId
  | .timeout req => req.groupId

/-- The loop over the request's jobs. -/
def SubmitPc.loop (req : SubmitBulkJobsRequest) : List BulkJob → SubmitPc
  | [] => .registered req
  | job :: rest => .enqueueBulk req job rest

def SubmitPc.view : SubmitPc → Await SubmitPc Nat
  | .enqueue req => .call (.enqueue req) (fun _ => .goto (.jobWatch req.jobGroupId)) .throw
  | .jobWatch g => .call (.watcherAdd g) (fun _ => .ret 1) .throw
  | .enqueueBulk req job rest =>
    .call (.enqueue (req.options job)) (fun _ => .goto (SubmitPc.loop req rest)) .throw
  | .registered req =>
    .call (.metaSetRegisteredJobs req.groupId req.jobs.length) (fun _ => .goto (.bulkWatch req)) .throw
  | .bulkWatch req => .call (.watcherAdd req.groupId) (fun _ => .goto (.timeout req)) .throw
  | .timeout req => .call (.metaSetTimeoutAt req.groupId) (fun _ => .ret req.jobs.length) .throw

/-! ## Dead letters -/

/-- Rewrites the queue without the entries equal to `entry`.
mirrors libs/bulk-action/src/reliable-queue/DeadLetterService.ts:150-167 -/
inductive RemovePc where
  | range (entry : DeadLetterEntry)
  | delete (filtered : List DeadLetterEntry)
  | append (entry : DeadLetterEntry) (rest : List DeadLetterEntry)

def RemovePc.loop : List DeadLetterEntry → Core.Next RemovePc Unit
  | [] => .ret ()
  | entry :: rest => .goto (.append entry rest)

def RemovePc.view : RemovePc → Await RemovePc Unit
  | .range entry => .call .dlqRange (fun all => .goto (.delete (all.filter (· ≠ entry)))) .throw
  | .delete filtered => .call .dlqDelete (fun _ => RemovePc.loop filtered) .throw
  | .append entry rest => .call (.dlqAppend entry) (fun _ => RemovePc.loop rest) .throw

/-- `retry`, `retryAll`, `purge` and `cleanup`.
mirrors libs/bulk-action/src/reliable-queue/DeadLetterService.ts:41-148 -/
inductive DeadLetterPc where
  | retryList (jobId : JobId)
  | retryReset (entry : DeadLetterEntry)
  | retryPending (entry : DeadLetterEntry)
  | retryPush (entry : DeadLetterEntry)
  | retryRemove (p : RemovePc)
  | allPop (count : Nat)
  | allReset (entry : DeadLetterEntry) (count : Nat)
  | allPending (entry : DeadLetterEntry) (count : Nat)
  | allPush (entry : DeadLetterEntry) (count : Nat)
  | purgeList (jobId : JobId)
  | purgeRemove (p : RemovePc)
  | cleanupClock (retention : Nat)
  | cleanupList (cutoff : Int)
  | cleanupRemove (p : RemovePc) (removed : Nat) (rest : List DeadLetterEntry)

/-- The loop of `cleanup` over the entries it still has to remove. -/
def DeadLetterPc.cleanupLoop (removed : Nat) : List DeadLetterEntry → Core.Next DeadLetterPc Nat
  | [] => .ret removed
  | entry :: rest => .goto (.cleanupRemove (.range entry) removed rest)

/-- Booleans are returned as 0 and 1. -/
def DeadLetterPc.view : DeadLetterPc → Await DeadLetterPc Nat
  | .retryList j =>
    .call .dlqRange
      (fun entries =>
        match entries.find? (·.jobId = j) with
        | some entry => .goto (.retryReset entry)
        | none => .ret 0)
      .throw
  | .retryReset e => .call (.jobResetRetryCount e.jobId) (fun _ => .goto (.retryPending e)) .throw
  | .retryPending e => .call (.jobSetStatus e.jobId .pending) (fun _ => .goto (.retryPush e)) .throw
  | .retryPush e => .call (.readyAppend e.jobId) (fun _ => .goto (.retryRemove (.range e))) .throw
  | .retryRemove p =>
    p.view.map fun
      | .goto p => .goto (.retryRemove p)
      | .ret _ => .ret 1
      | .throw => .throw
  | .allPop n =>
    .call .dlqPopHead
      (fun
        | none => .ret n
        | some e => .goto (.allReset e n))
      .throw
  | .allReset e n => .call (.jobResetRetryCount e.jobId) (fun _ => .goto (.allPending e n)) .throw
  | .allPending e n => .call (.jobSetStatus e.jobId .pending) (fun _ => .goto (.allPush e n)) .throw
  | .allPush e n => .call (.readyAppend e.jobId) (fun _ => .goto (.allPop (n + 1))) .throw
  | .purgeList j =>
    .call .dlqRange
      (fun entries =>
        match entries.find? (·.jobId = j) with
        | some entry => .goto (.purgeRemove (.range entry))
        | none => .ret 0)
      .throw
  | .purgeRemove p =>
    p.view.map fun
      | .goto p => .goto (.purgeRemove p)
      | .ret _ => .ret 1
      | .throw => .throw
  | .cleanupClock retention =>
    .call .dateNow (fun now => .goto (.cleanupList ((now : Int) - retention))) .throw
  | .cleanupList cutoff =>
    .call .dlqRange
      (fun entries => DeadLetterPc.cleanupLoop 0 (entries.filter fun e => (e.failedAt : Int) < cutoff))
      .throw
  | .cleanupRemove p removed rest =>
    p.view.map fun
      | .goto p => .goto (.cleanupRemove p removed rest)
      | .ret _ => DeadLetterPc.cleanupLoop (removed + 1) rest
      | .throw => .throw

/-! ## Single calls -/

/-- mirrors libs/bulk-action/src/congestion/CongestionControlService.ts:88-107, 158-163 and
libs/bulk-action/src/backpressure/RateLimiterService.ts:93-96 -/
inductive CallPc where
  | releaseFromNonReady (groupId : GroupId) (count : Int)
  | resetGroupStats (groupId : GroupId)
  | deactivateGroup (groupId : GroupId)

def CallPc.view : CallPc → Await CallPc Nat
  | .releaseFromNonReady g n => .call (.congestionRelease g n) (fun newCount => .ret newCount) (.ret 0)
  | .resetGroupStats g => .call (.congestionDelete g) (fun _ => .ret 0) .throw
  | .deactivateGroup g => .call (.activeRemove g) (fun _ => .ret 0) .throw

end NestPlayground.L3
