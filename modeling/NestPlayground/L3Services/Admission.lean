import NestPlayground.L3Services.Redis

/-!
# Fair queue → ready queue

`CongestionControlService.addToNonReady`, `BackpressureService.admit`,
`FetcherService.fetchCycle` and `DispatcherService.dispatch`. Every await is a
constructor; `view` gives the call and what the code does with the reply or
with a rejection.
-/
namespace NestPlayground.L3
open L1

/-! ## Congestion control -/

/-- mirrors libs/bulk-action/src/congestion/dto/BackoffDto.ts:8-14 -/
inductive CongestionLevel where
  | none | low | moderate | high | critical
  deriving DecidableEq, Repr

/-- mirrors libs/bulk-action/src/congestion/dto/BackoffDto.ts:16-46 -/
structure BackoffResponse where
  backoffMs : Nat
  nonReadyCount : Nat
  rateLimitSpeed : Nat
  congestionLevel : CongestionLevel
  deriving DecidableEq, Repr

/-- The ratio tests, multiplied out.
mirrors libs/bulk-action/src/congestion/BackoffCalculator.ts:27-49 -/
def classify (backoffMs baseBackoffMs : Nat) : CongestionLevel :=
  if baseBackoffMs = 0 then .none
  else if backoffMs ≤ baseBackoffMs then .none
  else if backoffMs < 3 * baseBackoffMs then .low
  else if backoffMs < 10 * baseBackoffMs then .moderate
  else if backoffMs < 30 * baseBackoffMs then .high
  else .critical

/-- mirrors libs/bulk-action/src/congestion/BackoffCalculator.ts:8-25 -/
def calculate (nonReadyCount rateLimitSpeed baseBackoffMs maxBackoffMs : Nat) : BackoffResponse :=
  let safeSpeed := max 1 rateLimitSpeed
  let backoffMs := min (baseBackoffMs + nonReadyCount / safeSpeed * 1000) maxBackoffMs
  ⟨backoffMs, nonReadyCount, safeSpeed, classify backoffMs baseBackoffMs⟩

/-- mirrors libs/bulk-action/src/congestion/CongestionControlService.ts:14-20 -/
structure GroupCongestionState where
  groupId : GroupId
  nonReadyCount : Nat
  rateLimitSpeed : Nat
  lastBackoffMs : Nat
  congestionLevel : CongestionLevel
  deriving DecidableEq, Repr

/-- The three reads are taken together.
mirrors libs/bulk-action/src/congestion/CongestionControlService.ts:109-135 -/
def getCongestionState (reg : Registry) (groupId : GroupId) (s : Store) : GroupCongestionState :=
  let nonReadyCount := (s.congestionNonReadyCount groupId).getD 0
  let rateLimitSpeed := max 1 (reg.config.backpressure.globalRps / max 1 s.activeGroups.length)
  let lastBackoffMs := (s.congestionStats groupId).lastBackoffMs.getD 0
  { groupId, nonReadyCount, rateLimitSpeed, lastBackoffMs
    congestionLevel := classify lastBackoffMs reg.config.congestion.baseBackoffMs }

/-- `addToNonReady`: the script, or the fixed backoff when congestion control
is off or the script call rejects.
mirrors libs/bulk-action/src/congestion/CongestionControlService.ts:38-86, 165-183 -/
inductive AddPc where
  | script (jobId : JobId) (groupId : GroupId)
  | fixedBackoff (jobId : JobId)

/-- The job on its way to the non-ready queue. -/
def AddPc.jobId : AddPc → JobId
  | .script j _ => j
  | .fixedBackoff j => j

def AddPc.start (reg : Registry) (jobId : JobId) (groupId : GroupId) : AddPc :=
  if reg.config.congestion.enabled then .script jobId groupId else .fixedBackoff jobId

@[simp] theorem AddPc.start_jobId (reg : Registry) (jobId : JobId) (groupId : GroupId) :
    (AddPc.start reg jobId groupId).jobId = jobId := by
  unfold AddPc.start
  split <;> rfl

def AddPc.view (reg : Registry) : AddPc → Await AddPc BackoffResponse
  | .script j g =>
    .call (.congestionBackoff j g)
      (fun r => .ret (calculate r.nonReadyCount r.rateLimitSpeed reg.config.congestion.baseBackoffMs
        reg.config.congestion.maxBackoffMs))
      (.goto (.fixedBackoff j))
  | .fixedBackoff j =>
    .call (.nonReadyAdd j) (fun _ => .ret ⟨reg.config.congestion.baseBackoffMs, 0, 0, .none⟩) .throw

/-! ## Admission -/

/-- mirrors libs/bulk-action/src/backpressure/dto/BackpressureDto.ts:4-41 -/
inductive BackpressureResponse where
  | ready
  | nonReady (rateLimit : L2.RateLimitResult) (backoff : BackoffResponse)
  | rejected (reason : String)
  deriving DecidableEq, Repr

def BackpressureResponse.accepted : BackpressureResponse → Bool
  | .rejected _ => false
  | _ => true

/-- mirrors libs/bulk-action/src/backpressure/BackpressureService.ts:16-41 -/
inductive AdmitPc where
  | hasCapacity (job : Job)
  | checkRateLimit (job : Job)
  | push (job : Job)
  | addToNonReady (rateLimit : L2.RateLimitResult) (p : AddPc)

/-- The job on its way. -/
def AdmitPc.jobId : AdmitPc → JobId
  | .hasCapacity job => job.id
  | .checkRateLimit job => job.id
  | .push job => job.id
  | .addToNonReady _ p => p.jobId

def AdmitPc.view (reg : Registry) : AdmitPc → Await AdmitPc BackpressureResponse
  | .hasCapacity job =>
    .call .readyLength
      (fun currentSize =>
        if currentSize < reg.config.backpressure.readyQueueMaxSize then .goto (.checkRateLimit job)
        else .ret (.rejected "Ready Queue at capacity"))
      .throw
  | .checkRateLimit job =>
    .call (.rateLimitCheck job.groupId)
      (fun r =>
        if r.allowed then .goto (.push job)
        else .goto (.addToNonReady r (.start reg job.id job.groupId)))
      .throw
  | .push job =>
    .call (.readyQueuePush job.id)
      (fun pushed => if pushed then .ret .ready else .ret (.rejected "Ready Queue became full"))
      .throw
  | .addToNonReady r p =>
    (p.view reg).map fun
      | .goto p => .goto (.addToNonReady r p)
      | .ret backoff => .ret (.nonReady r backoff)
      | .throw => .throw

/-! ## The fetch cycle -/

/-- `fetched` counts the jobs admitted in this cycle. An error ends the cycle
and is logged.
mirrors libs/bulk-action/src/worker-pool/FetcherService.ts:88-139 -/
inductive FetchPc where
  | hasCapacity (fetched : Nat)
  | dequeue (fetched : Nat)
  | admission (fetched : Nat) (p : AdmitPc)

/-- The loop test. -/
def FetchPc.loop (reg : Registry) (fetched : Nat) : Core.Next FetchPc Unit :=
  if fetched < reg.config.workerPool.fetchBatchSize then .goto (.hasCapacity fetched) else .ret ()

def FetchPc.view (reg : Registry) : FetchPc → Await FetchPc Unit
  | .hasCapacity n =>
    .call .readyLength
      (fun currentSize =>
        if currentSize < reg.config.backpressure.readyQueueMaxSize then .goto (.dequeue n) else .ret ())
      (.ret ())
  | .dequeue n =>
    .call .dequeue
      (fun
        | none => .ret ()
        | some hash =>
          match Job.ofHash? hash with
          | some job => .goto (.admission n (.hasCapacity job))
          | none => .ret ())
      (.ret ())
  | .admission n p =>
    (p.view reg).map fun
      | .goto p => .goto (.admission n p)
      | .ret r => if r.accepted then FetchPc.loop reg (n + 1) else .ret ()
      | .throw => .ret ()

/-! ## The dispatcher -/

/-- mirrors libs/bulk-action/src/backpressure/DispatcherService.ts:90-142 -/
inductive DispatchPc where
  | hasCapacity
  | moveToReady

def DispatchPc.view (reg : Registry) : DispatchPc → Await DispatchPc Nat
  | .hasCapacity =>
    .call .readyLength
      (fun currentSize =>
        if currentSize < reg.config.backpressure.readyQueueMaxSize then .goto .moveToReady else .ret 0)
      (.ret 0)
  | .moveToReady => .call .moveToReady (fun moved => .ret moved) (.ret 0)

end NestPlayground.L3
