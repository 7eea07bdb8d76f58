import NestPlayground.L1Model.Types
import Mathlib.Data.String.Basic
import Mathlib.Logic.Function.Basic

/-!
# The Redis database

One field per key family of `RedisKeyBuilder`; a family indexed by an id is a
function of the id. Two families keep their key as a string, because ids can
collide there: the rate-limit counters (`rate-limit:{groupId}:{window}` and
`rate-limit:global:{window}` are built by one template) and nothing else that
is modelled. Expiry is not timed here: an expiring key may vanish at any
moment (`Store.expire…`).
-/
namespace NestPlayground.L1

/-- The two locks of a group.
mirrors libs/bulk-action/src/key/RedisKeyBuilder.ts:121-127 -/
inductive LockKey where
  | transition (g : GroupId)
  | aggregation (g : GroupId)
  deriving DecidableEq, Repr

/-- mirrors libs/bulk-action/src/key/RedisKeyBuilder.ts:49-55 -/
def rateLimitGroup (keyPrefix : String) (g : GroupId) (window : Nat) : String :=
  keyPrefix ++ "rate-limit:" ++ g ++ ":" ++ toString window

def rateLimitGlobal (keyPrefix : String) (window : Nat) : String :=
  keyPrefix ++ "rate-limit:global:" ++ toString window

/-- Within a window the keys of different groups differ. -/
theorem rateLimitGroup_inj {keyPrefix : String} {window : Nat} {g g' : GroupId} :
    rateLimitGroup keyPrefix g window = rateLimitGroup keyPrefix g' window ↔ g = g' := by
  simp [rateLimitGroup]

/-- The global counter has the key of a group named `global`. -/
theorem rateLimitGlobal_eq (keyPrefix : String) (window : Nat) :
    rateLimitGlobal keyPrefix window = rateLimitGroup keyPrefix "global" window := by
  unfold rateLimitGlobal rateLimitGroup
  rw [show ("rate-limit:global:" : String) = "rate-limit:" ++ "global" ++ ":" from rfl]
  simp only [String.append_assoc]

/-- What follows the last colon. -/
theorem after_colon {xs ys ds es : List Char} (hd : ':' ∉ ds) (he : ':' ∉ es)
    (h : xs ++ ':' :: ds = ys ++ ':' :: es) : ds = es := by
  rcases List.append_eq_append_iff.mp h with ⟨as, -, has⟩ | ⟨as, -, has⟩
  · cases as with
    | nil => exact (List.cons.inj has).2
    | cons a as =>
      have : ds = as ++ ':' :: es := (List.cons.inj has).2
      exact absurd (this ▸ by simp) hd
  · cases as with
    | nil => exact (List.cons.inj has).2.symm
    | cons a as =>
      have : es = as ++ ':' :: ds := (List.cons.inj has).2
      exact absurd (this ▸ by simp) he

theorem colon_notMem_toDigits (n : Nat) : ':' ∉ Nat.toDigits 10 n := by
  intro h
  exact absurd (Nat.isDigit_of_mem_toDigits (by decide) (by decide) h) (by decide)

/-- The keys of different windows differ. -/
theorem window_of_rateLimitGroup {keyPrefix : String} {w w' : Nat} {g g' : GroupId}
    (h : rateLimitGroup keyPrefix g w = rateLimitGroup keyPrefix g' w') : w = w' := by
  have h := congrArg String.toList h
  simp only [rateLimitGroup, String.toList_append] at h
  have hdigits := after_colon (colon_notMem_toDigits w) (colon_notMem_toDigits w') (by simpa using h)
  have := congrArg (Nat.ofDigitChars 10 · 0) hdigits
  simpa only [Nat.ofDigitChars_ten_toDigits] using this

/-- The hash under `group:{groupId}:result`. -/
structure GroupResult where
  result : Option AggregatedResult := none
  aggregatedAt : Option Nat := none
  deriving DecidableEq, Repr

structure Store where
  /-- `job:{jobId}` -/
  jobs : JobId → JobHash
  /-- `group:{groupId}:jobs` -/
  groupJobs : GroupId → List JobId
  /-- `group:{groupId}:meta` -/
  groupMeta : GroupId → GroupMeta
  /-- `group:{groupId}:job-results` -/
  groupJobResults : GroupId → List JobProcessorResponse
  /-- `group:{groupId}:result` -/
  groupResult : GroupId → GroupResult
  /-- `fair-queue:{level}` -/
  fairQueue : PriorityLevel → Core.ZSet GroupId ℚ
  /-- `ready-queue` -/
  readyQueue : List JobId
  /-- `non-ready-queue`, scored by the time a job may run -/
  nonReadyQueue : Core.ZSet JobId Nat
  /-- `in-flight-queue`, scored by deadline -/
  inFlightQueue : Core.ZSet JobId Nat
  /-- `in-flight:{jobId}` -/
  inFlightMeta : JobId → InFlightMeta
  /-- `dead-letter-queue` -/
  deadLetterQueue : List DeadLetterEntry
  /-- the rate-limit counters, by key -/
  rateLimit : String → Nat
  /-- `active-groups` -/
  activeGroups : List GroupId
  /-- `congestion:{groupId}:non-ready-count` -/
  congestionNonReadyCount : GroupId → Option Nat
  /-- `congestion:{groupId}:stats` -/
  congestionStats : GroupId → CongestionStats
  /-- the locks, with the token of the owner -/
  locks : LockKey → Option String
  /-- `watcher:active-groups` -/
  watcherActiveGroups : List GroupId

namespace Store

def empty : Store where
  jobs _ := {}
  groupJobs _ := []
  groupMeta _ := {}
  groupJobResults _ := []
  groupResult _ := {}
  fairQueue _ := .empty
  readyQueue := []
  nonReadyQueue := .empty
  inFlightQueue := .empty
  inFlightMeta _ := {}
  deadLetterQueue := []
  rateLimit _ := 0
  activeGroups := []
  congestionNonReadyCount _ := none
  congestionStats _ := {}
  locks _ := none
  watcherActiveGroups := []

/-- `HSET`/`HINCRBY` on a job's hash. -/
def modJob (s : Store) (j : JobId) (f : JobHash → JobHash) : Store :=
  { s with jobs := Function.update s.jobs j (f (s.jobs j)) }

/-- `HSET`/`HINCRBY` on a group's metadata. -/
def modMeta (s : Store) (g : GroupId) (f : GroupMeta → GroupMeta) : Store :=
  { s with groupMeta := Function.update s.groupMeta g (f (s.groupMeta g)) }

/-- `SADD` -/
def sadd (xs : List GroupId) (g : GroupId) : List GroupId := if g ∈ xs then xs else xs ++ [g]

/-- `SREM` -/
def srem (xs : List GroupId) (g : GroupId) : List GroupId := xs.filter (· ≠ g)

theorem mem_sadd {xs : List GroupId} {g x : GroupId} : x ∈ sadd xs g ↔ x ∈ xs ∨ x = g := by
  unfold sadd
  split
  · rename_i h
    constructor
    · exact Or.inl
    · rintro (hx | rfl)
      · exact hx
      · exact h
  · simp

theorem mem_srem {xs : List GroupId} {g x : GroupId} : x ∈ srem xs g ↔ x ∈ xs ∧ x ≠ g := by
  simp [srem]

end Store
end NestPlayground.L1
