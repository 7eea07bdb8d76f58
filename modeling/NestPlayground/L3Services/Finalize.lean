import NestPlayground.L3Services.Redis
import Mathlib.Tactic.Linarith

/-!
# Aggregating a group

`DistributedLockService.acquire`, `AggregatorService.aggregate` and
`finalizeGroup`. `withLock` is acquire, callback, release; the release is
reached whether the callback returned or threw (`release … none`).
-/
namespace NestPlayground.L3
open L1

/-- mirrors libs/bulk-action/src/lock/DistributedLockService.ts:18-41 -/
inductive AcquirePc where
  | uuid (key : LockKey)
  | attempt (key : LockKey) (token : String) (attempt : Nat)

def AcquirePc.view (reg : Registry) : AcquirePc → Await AcquirePc (Option String)
  | .uuid key => .call .randomUUID (fun token => .goto (.attempt key token 0)) .throw
  | .attempt key token n =>
    .call (.acquireLock key token)
      (fun acquired =>
        if acquired then .ret (some token)
        else if n < reg.config.watcher.lockRetryCount then .goto (.attempt key token (n + 1))
        else .ret none)
      .throw

/-- mirrors libs/bulk-action/src/aggregator/AggregatorService.ts:35 -/
def batchSize : Nat := 5000

/-- mirrors libs/bulk-action/src/aggregator/AggregatorService.ts:82-146 -/
inductive AggregatePc where
  | metaGetAll (groupId : GroupId) (processorType : Option String)
  | range (groupId : GroupId) (processorType : Option String) (context : AggregationContext)
      (allMapped : List Mapped) (offset : Nat)
  | setResult (groupId : GroupId) (result : AggregatedResult)
  | setAggregatedAt (groupId : GroupId) (result : AggregatedResult)

def contextOf (groupId : GroupId) (m : GroupMeta) : AggregationContext where
  groupId
  totalJobs := m.totalJobs.getD 0
  successCount := m.successCount.getD 0
  failedCount := m.failedCount.getD 0

/-- After the loop: `reduce`, then the two writes. -/
def AggregatePc.reduce (groupId : GroupId) (aggregator : Aggregator) (context : AggregationContext)
    (allMapped : List Mapped) : Core.Next AggregatePc AggregatedResult :=
  match aggregator.reduce allMapped context with
  | none => .throw
  | some result => .goto (.setResult groupId result)

/-- `batch` stands for `BATCH_SIZE`. -/
def AggregatePc.view (reg : Registry) (batch : Nat) : AggregatePc → Await AggregatePc AggregatedResult
  | .metaGetAll g t =>
    .call (.metaGetAll g)
      (fun m =>
        match reg.resolveAggregator t with
        | none => .throw
        | some _ => .goto (.range g t (contextOf g m) [] 0))
      .throw
  | .range g t context allMapped offset =>
    .call (.resultsRange g offset batch)
      (fun results =>
        match reg.resolveAggregator t with
        | none => .throw
        | some aggregator =>
          if results = [] then AggregatePc.reduce g aggregator context allMapped
          else
            match results.mapM aggregator.map with
            | none => .throw
            | some mapped =>
              if results.length < batch then AggregatePc.reduce g aggregator context (allMapped ++ mapped)
              else .goto (.range g t context (allMapped ++ mapped) (offset + results.length)))
      .throw
  | .setResult g r => .call (.resultSet g r) (fun _ => .goto (.setAggregatedAt g r)) .throw
  | .setAggregatedAt g r => .call (.resultSetAggregatedAt g) (fun _ => .ret r) .throw

/-- mirrors libs/bulk-action/src/aggregator/AggregatorService.ts:148-211 and
libs/bulk-action/src/lock/DistributedLockService.ts:53-72 -/
inductive FinalizePc where
  | acquire (groupId : GroupId) (p : AcquirePc)
  | metaGetAll (groupId : GroupId) (token : String)
  | toAggregating (groupId : GroupId) (token : String) (processorType : Option String)
  | aggregate (groupId : GroupId) (token : String) (p : AggregatePc)
  | toCompleted (groupId : GroupId) (token : String)
  | release (groupId : GroupId) (token : String) (result : Option Bool)

def FinalizePc.start (groupId : GroupId) : FinalizePc := .acquire groupId (.uuid (.aggregation groupId))

def FinalizePc.view (reg : Registry) : FinalizePc → Await FinalizePc Bool
  | .acquire g p =>
    (p.view reg).map fun
      | .goto p => .goto (.acquire g p)
      | .ret (some token) => .goto (.metaGetAll g token)
      | .ret none => .ret false
      | .throw => .throw
  | .metaGetAll g token =>
    .call (.metaGetAll g)
      (fun m =>
        match m.status with
        | some .aggregating => .goto (.aggregate g token (.metaGetAll g m.processorType))
        | some .running => .goto (.toAggregating g token m.processorType)
        | _ => .goto (.release g token (some false)))
      (.goto (.release g token none))
  | .toAggregating g token t =>
    .call (.transitionStatus g .aggregate)
      (fun transitioned =>
        if transitioned then .goto (.aggregate g token (.metaGetAll g t))
        else .goto (.release g token (some false)))
      (.goto (.release g token none))
  | .aggregate g token p =>
    (p.view reg batchSize).map fun
      | .goto p => .goto (.aggregate g token p)
      | .ret _ => .goto (.toCompleted g token)
      | .throw => .goto (.release g token none)
  | .toCompleted g token =>
    .call (.transitionStatus g .complete)
      (fun transitioned => .goto (.release g token (some transitioned)))
      (.goto (.release g token none))
  | .release g token result =>
    .call (.releaseLock (.aggregation g) token)
      (fun _ =>
        match result with
        | some b => .ret b
        | none => .throw)
      .throw

/-! ## Progress -/

/-- mirrors libs/bulk-action/src/aggregator/AggregatorService.ts:20-28 -/
structure GroupProgress where
  groupId : GroupId
  totalJobs : Nat
  successCount : Nat
  failedCount : Nat
  doneJobs : Nat
  progressPercent : Int
  status : Option GroupStatus
  deriving DecidableEq, Repr

/-- JavaScript numbers are doubles.
mirrors libs/bulk-action/src/aggregator/AggregatorService.ts:225-245 -/
def getProgress (groupId : GroupId) (m : GroupMeta) : GroupProgress where
  groupId
  totalJobs := m.totalJobs.getD 0
  successCount := m.successCount.getD 0
  failedCount := m.failedCount.getD 0
  doneJobs := m.doneJobs.getD 0
  progressPercent :=
    if 0 < m.totalJobs.getD 0 then
      ⌊Core.binary64 (Core.binary64 ((m.doneJobs.getD 0 : ℚ) / m.totalJobs.getD 0) * 100)⌋
    else 0
  status := m.status

/-- No more done than there are jobs shows as at most 100 percent. -/
theorem progressPercent_le {groupId : GroupId} {m : GroupMeta} (h : m.doneJobs.getD 0 ≤ m.totalJobs.getD 0) :
    (getProgress groupId m).progressPercent ≤ 100 := by
  simp only [getProgress]
  split
  · rename_i hpos
    have hpos' : (0 : ℚ) < m.totalJobs.getD 0 := by exact_mod_cast hpos
    have hle : (m.doneJobs.getD 0 : ℚ) / m.totalJobs.getD 0 ≤ 1 := by
      rw [div_le_one hpos']
      exact_mod_cast h
    have hone : Core.binary64 1 = 1 := by exact_mod_cast Core.binary64_intCast (n := 1) (by decide)
    have hhundred : Core.binary64 100 = 100 := by exact_mod_cast Core.binary64_intCast (n := 100) (by decide)
    have hquotient : Core.binary64 ((m.doneJobs.getD 0 : ℚ) / m.totalJobs.getD 0) ≤ 1 :=
      (Core.binary64_mono hle).trans hone.le
    have hpercent := Core.binary64_mono
      (show Core.binary64 ((m.doneJobs.getD 0 : ℚ) / m.totalJobs.getD 0) * 100 ≤ 100 by linarith)
    rw [hhundred] at hpercent
    exact_mod_cast (Int.floor_le _).trans hpercent
  · decide

/-- 29 of 100 jobs are shown as 28 percent. -/
example : (getProgress "g" { totalJobs := some 100, doneJobs := some 29 }).progressPercent = 28 := by decide +kernel

end NestPlayground.L3
