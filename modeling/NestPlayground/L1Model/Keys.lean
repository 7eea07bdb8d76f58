import NestPlayground.Core.Template
import NestPlayground.L1Model.Store

/-!
# Redis keys

The key functions of `RedisKeyBuilder` and the keys three scripts put together
themselves from a raw prefix. `Store` has a field for each of these families
that the modelled code uses; that a field is a structure of its own is what
`KeyFunction.apart` and `key_inj` say about the strings.
-/
namespace NestPlayground.L1

/-- mirrors libs/bulk-action/src/model/job-group/type/PriorityLevel.ts:1-5 -/
def PriorityLevel.text : PriorityLevel → String
  | .high => "high"
  | .normal => "normal"
  | .low => "low"

/-! ## `RedisKeyBuilder`

mirrors libs/bulk-action/src/key/RedisKeyBuilder.ts:20-133 -/

namespace RedisKeyBuilder
section
variable (keyPrefix : String)

def getPrefix : String := keyPrefix

-- Fair Queue
def fairQueue (level : PriorityLevel) : String := keyPrefix ++ "fair-queue:" ++ level.text

def groupJobs (groupId : GroupId) : String := keyPrefix ++ "group:" ++ groupId ++ ":jobs"

def groupMeta (groupId : GroupId) : String := keyPrefix ++ "group:" ++ groupId ++ ":meta"

def job (jobId : JobId) : String := keyPrefix ++ "job:" ++ jobId

-- Backpressure
def readyQueue : String := keyPrefix ++ "ready-queue"

def nonReadyQueue : String := keyPrefix ++ "non-ready-queue"

def activeGroups : String := keyPrefix ++ "active-groups"

-- Congestion
def congestionNonReadyCount (groupId : GroupId) : String :=
  keyPrefix ++ "congestion:" ++ groupId ++ ":non-ready-count"

def congestionStats (groupId : GroupId) : String := keyPrefix ++ "congestion:" ++ groupId ++ ":stats"

def congestionHistory (groupId : GroupId) : String := keyPrefix ++ "congestion:" ++ groupId ++ ":history"

def congestionCompletedCount (groupId : GroupId) : String :=
  keyPrefix ++ "congestion:" ++ groupId ++ ":completed-count"

-- Worker Pool
def deadLetterQueue : String := keyPrefix ++ "dead-letter-queue"

-- Aggregator
def groupResult (groupId : GroupId) : String := keyPrefix ++ "group:" ++ groupId ++ ":result"

def groupJobResults (groupId : GroupId) : String := keyPrefix ++ "group:" ++ groupId ++ ":job-results"

def groupFailedDetails (groupId : GroupId) : String := keyPrefix ++ "group:" ++ groupId ++ ":failed-details"

-- Reliable Queue
def inFlightQueue : String := keyPrefix ++ "in-flight-queue"

def inFlightMeta (jobId : JobId) : String := keyPrefix ++ "in-flight:" ++ jobId

def inFlightMetaPrefix : String := keyPrefix ++ "in-flight:"

-- Idempotency
def idempotency (key : String) : String := keyPrefix ++ "idempotency:" ++ key

-- Lock
def groupTransitionLock (groupId : GroupId) : String := keyPrefix ++ "lock:group:" ++ groupId ++ ":transition"

def groupAggregationLock (groupId : GroupId) : String := keyPrefix ++ "lock:group:" ++ groupId ++ ":aggregation"

-- Watcher
def watcherActiveGroups : String := keyPrefix ++ "watcher:active-groups"

end
end RedisKeyBuilder

/-! ## Keys put together in Lua -/

namespace Lua

/-- mirrors libs/bulk-action/src/lua/dequeue.lua:23-30; `rawPrefix` is `ARGV[2]` -/
def dequeueGroupJobsKey (rawPrefix : String) (groupId : GroupId) : String := rawPrefix ++ "group:" ++ groupId ++ ":jobs"

def dequeueGroupMetaKey (rawPrefix : String) (groupId : GroupId) : String := rawPrefix ++ "group:" ++ groupId ++ ":meta"

def dequeueJobKey (rawPrefix : String) (jobId : JobId) : String := rawPrefix ++ "job:" ++ jobId

/-- mirrors libs/bulk-action/src/lua/move-to-ready.lua:20-28; `rawPrefix` is `ARGV[3]` -/
def moveToReadyJobKey (rawPrefix : String) (jobId : JobId) : String := rawPrefix ++ "job:" ++ jobId

def moveToReadyCountKey (rawPrefix : String) (groupId : GroupId) : String :=
  rawPrefix ++ "congestion:" ++ groupId ++ ":non-ready-count"

def moveToReadyStatsKey (rawPrefix : String) (groupId : GroupId) : String :=
  rawPrefix ++ "congestion:" ++ groupId ++ ":stats"

/-- mirrors libs/bulk-action/src/lua/recover-orphans.lua:27 and 43-72; the arguments are `KEYS[4]` and `ARGV[4]` -/
def recoverOrphansMetaKey (inFlightMetaPrefix : String) (jobId : JobId) : String := inFlightMetaPrefix ++ jobId

def recoverOrphansJobKey (jobKeyPrefix : String) (jobId : JobId) : String := jobKeyPrefix ++ jobId

end Lua

/-- `runOnce` passes this as `ARGV[4]`.
mirrors libs/bulk-action/src/reliable-queue/OrphanRecoveryService.ts:76 -/
def RedisKeyBuilder.jobKeyPrefix (keyPrefix : String) : String := RedisKeyBuilder.getPrefix keyPrefix ++ "job:"

/-! ## Which function, which id -/

/-- The key functions; `inFlightMetaPrefix` and `getPrefix` give no key. -/
inductive KeyFunction where
  | fairQueue | groupJobs | groupMeta | job
  | readyQueue | nonReadyQueue | rateLimitGroup | rateLimitGlobal | activeGroups
  | congestionNonReadyCount | congestionStats | congestionHistory | congestionCompletedCount
  | deadLetterQueue
  | groupResult | groupJobResults | groupFailedDetails
  | inFlightQueue | inFlightMeta
  | idempotency
  | groupTransitionLock | groupAggregationLock
  | watcherActiveGroups
  deriving DecidableEq, Repr

namespace KeyFunction

/-- What a key function is applied to. -/
@[reducible] def Args : KeyFunction → Type
  | fairQueue => PriorityLevel
  | groupJobs | groupMeta | groupResult | groupJobResults | groupFailedDetails => GroupId
  | congestionNonReadyCount | congestionStats | congestionHistory | congestionCompletedCount => GroupId
  | groupTransitionLock | groupAggregationLock => GroupId
  | job | inFlightMeta => JobId
  | idempotency => String
  | rateLimitGroup => GroupId × Nat
  | rateLimitGlobal => Nat
  | readyQueue | nonReadyQueue | activeGroups | deadLetterQueue | inFlightQueue | watcherActiveGroups => Unit

/-- The call of a key function. -/
def key (keyPrefix : String) : (f : KeyFunction) → f.Args → String
  | fairQueue, level => RedisKeyBuilder.fairQueue keyPrefix level
  | groupJobs, g => RedisKeyBuilder.groupJobs keyPrefix g
  | groupMeta, g => RedisKeyBuilder.groupMeta keyPrefix g
  | job, j => RedisKeyBuilder.job keyPrefix j
  | readyQueue, _ => RedisKeyBuilder.readyQueue keyPrefix
  | nonReadyQueue, _ => RedisKeyBuilder.nonReadyQueue keyPrefix
  | rateLimitGroup, (g, window) => L1.rateLimitGroup keyPrefix g window
  | rateLimitGlobal, window => L1.rateLimitGlobal keyPrefix window
  | activeGroups, _ => RedisKeyBuilder.activeGroups keyPrefix
  | congestionNonReadyCount, g => RedisKeyBuilder.congestionNonReadyCount keyPrefix g
  | congestionStats, g => RedisKeyBuilder.congestionStats keyPrefix g
  | congestionHistory, g => RedisKeyBuilder.congestionHistory keyPrefix g
  | congestionCompletedCount, g => RedisKeyBuilder.congestionCompletedCount keyPrefix g
  | deadLetterQueue, _ => RedisKeyBuilder.deadLetterQueue keyPrefix
  | groupResult, g => RedisKeyBuilder.groupResult keyPrefix g
  | groupJobResults, g => RedisKeyBuilder.groupJobResults keyPrefix g
  | groupFailedDetails, g => RedisKeyBuilder.groupFailedDetails keyPrefix g
  | inFlightQueue, _ => RedisKeyBuilder.inFlightQueue keyPrefix
  | inFlightMeta, j => RedisKeyBuilder.inFlightMeta keyPrefix j
  | idempotency, k => RedisKeyBuilder.idempotency keyPrefix k
  | groupTransitionLock, g => RedisKeyBuilder.groupTransitionLock keyPrefix g
  | groupAggregationLock, g => RedisKeyBuilder.groupAggregationLock keyPrefix g
  | watcherActiveGroups, _ => RedisKeyBuilder.watcherActiveGroups keyPrefix

/-- The fixed texts around the id. -/
def template : KeyFunction → Core.Template
  | fairQueue => ⟨"fair-queue:", ""⟩
  | groupJobs => ⟨"group:", ":jobs"⟩
  | groupMeta => ⟨"group:", ":meta"⟩
  | job => ⟨"job:", ""⟩
  | readyQueue => ⟨"ready-queue", ""⟩
  | nonReadyQueue => ⟨"non-ready-queue", ""⟩
  | rateLimitGroup => ⟨"rate-limit:", ""⟩
  | rateLimitGlobal => ⟨"rate-limit:global:", ""⟩
  | activeGroups => ⟨"active-groups", ""⟩
  | congestionNonReadyCount => ⟨"congestion:", ":non-ready-count"⟩
  | congestionStats => ⟨"congestion:", ":stats"⟩
  | congestionHistory => ⟨"congestion:", ":history"⟩
  | congestionCompletedCount => ⟨"congestion:", ":completed-count"⟩
  | deadLetterQueue => ⟨"dead-letter-queue", ""⟩
  | groupResult => ⟨"group:", ":result"⟩
  | groupJobResults => ⟨"group:", ":job-results"⟩
  | groupFailedDetails => ⟨"group:", ":failed-details"⟩
  | inFlightQueue => ⟨"in-flight-queue", ""⟩
  | inFlightMeta => ⟨"in-flight:", ""⟩
  | idempotency => ⟨"idempotency:", ""⟩
  | groupTransitionLock => ⟨"lock:group:", ":transition"⟩
  | groupAggregationLock => ⟨"lock:group:", ":aggregation"⟩
  | watcherActiveGroups => ⟨"watcher:active-groups", ""⟩

/-- What stands between them. -/
def hole : (f : KeyFunction) → f.Args → String
  | fairQueue, level => level.text
  | groupJobs, g | groupMeta, g | groupResult, g | groupJobResults, g | groupFailedDetails, g => g
  | congestionNonReadyCount, g | congestionStats, g | congestionHistory, g | congestionCompletedCount, g => g
  | groupTransitionLock, g | groupAggregationLock, g => g
  | job, j | inFlightMeta, j => j
  | idempotency, k => k
  | rateLimitGroup, (g, window) => g ++ ":" ++ toString window
  | rateLimitGlobal, window => toString window
  | readyQueue, _ | nonReadyQueue, _ | activeGroups, _ | deadLetterQueue, _ | inFlightQueue, _
  | watcherActiveGroups, _ => ""

theorem key_eq (keyPrefix : String) (f : KeyFunction) (a : f.Args) :
    f.key keyPrefix a = keyPrefix ++ f.template.fill (f.hole a) := by
  cases f <;>
    simp [key, template, hole, Core.Template.fill, String.append_assoc, L1.rateLimitGroup, L1.rateLimitGlobal,
      RedisKeyBuilder.fairQueue, RedisKeyBuilder.groupJobs, RedisKeyBuilder.groupMeta, RedisKeyBuilder.job,
      RedisKeyBuilder.readyQueue, RedisKeyBuilder.nonReadyQueue, RedisKeyBuilder.activeGroups,
      RedisKeyBuilder.congestionNonReadyCount, RedisKeyBuilder.congestionStats, RedisKeyBuilder.congestionHistory,
      RedisKeyBuilder.congestionCompletedCount, RedisKeyBuilder.deadLetterQueue, RedisKeyBuilder.groupResult,
      RedisKeyBuilder.groupJobResults, RedisKeyBuilder.groupFailedDetails, RedisKeyBuilder.inFlightQueue,
      RedisKeyBuilder.inFlightMeta, RedisKeyBuilder.idempotency, RedisKeyBuilder.groupTransitionLock,
      RedisKeyBuilder.groupAggregationLock, RedisKeyBuilder.watcherActiveGroups]

def all : List KeyFunction :=
  [fairQueue, groupJobs, groupMeta, job, readyQueue, nonReadyQueue, rateLimitGroup, rateLimitGlobal, activeGroups,
    congestionNonReadyCount, congestionStats, congestionHistory, congestionCompletedCount, deadLetterQueue,
    groupResult, groupJobResults, groupFailedDetails, inFlightQueue, inFlightMeta, idempotency,
    groupTransitionLock, groupAggregationLock, watcherActiveGroups]

theorem mem_all (f : KeyFunction) : f ∈ all := by
  cases f <;> decide

/-- The rate-limit counters have one template. -/
def rateLimits : KeyFunction → Bool
  | rateLimitGroup | rateLimitGlobal => true
  | _ => false

/-- Two other functions write different texts around the id. -/
theorem apart {f f' : KeyFunction} (h : f ≠ f') (hr : ¬ (f.rateLimits = true ∧ f'.rateLimits = true)) :
    f.template.Apart f'.template := by
  have h₀ : ∀ f ∈ all, ∀ f' ∈ all, f ≠ f' → ¬ (f.rateLimits = true ∧ f'.rateLimits = true) →
      f.template.Apart f'.template := by
    decide +kernel
  exact h₀ f f.mem_all f' f'.mem_all h hr

/-- A function gives one key for one argument. -/
theorem hole_inj {f : KeyFunction} {a a' : f.Args} (h : f.hole a = f.hole a') : a = a' := by
  cases f with
  | fairQueue => cases a <;> cases a' <;> first | rfl | exact absurd h (by decide)
  | rateLimitGroup =>
    have hkey : L1.rateLimitGroup "" a.1 a.2 = L1.rateLimitGroup "" a'.1 a'.2 := by
      simpa [hole, L1.rateLimitGroup, String.append_assoc] using h
    have hw := window_of_rateLimitGroup hkey
    rw [hw] at hkey
    exact Prod.ext (rateLimitGroup_inj.mp hkey) hw
  | rateLimitGlobal =>
    have hkey : L1.rateLimitGroup "" "" a = L1.rateLimitGroup "" "" a' := by
      simpa [hole, L1.rateLimitGroup] using h
    exact window_of_rateLimitGroup hkey
  | readyQueue | nonReadyQueue | activeGroups | deadLetterQueue | inFlightQueue | watcherActiveGroups => rfl
  | _ => exact h

end KeyFunction
end NestPlayground.L1
