import NestPlayground.L1Model.Store

/-!
# Admission: `rate-limit-check.lua`, `ready-queue-push.lua`, `move-to-ready.lua`,
`congestion-backoff.lua`, `congestion-release.lua`

`move-to-ready.lua` is a fold of one job's move over the due batch.
-/
namespace NestPlayground.L2
open L1

/-- The five numbers of the reply.
mirrors libs/bulk-action/src/backpressure/RateLimiterService.ts:10-16 -/
structure RateLimitResult where
  allowed : Bool
  globalCount : Nat
  globalLimit : Nat
  groupCount : Nat
  perGroupLimit : Nat
  deriving DecidableEq, Repr

/-- The two keys are strings: for the group named `global` they are one key.
mirrors libs/bulk-action/src/lua/rate-limit-check.lua:5-40 -/
def rateLimitCheck (groupKey globalKey : String) (globalLimit : Nat) (groupId : GroupId) (s : Store) :
    Store × RateLimitResult :=
  let active := Store.sadd s.activeGroups groupId
  let rl₁ := Function.update s.rateLimit globalKey (s.rateLimit globalKey + 1)
  let globalCount := rl₁ globalKey
  if globalLimit < globalCount then
    ({ s with
        activeGroups := active
        rateLimit := Function.update rl₁ globalKey (rl₁ globalKey - 1) },
      ⟨false, globalCount - 1, globalLimit, 0, 0⟩)
  else
    let perGroupLimit := max 1 (globalLimit / max 1 active.length)
    let rl₂ := Function.update rl₁ groupKey (rl₁ groupKey + 1)
    let groupCount := rl₂ groupKey
    if perGroupLimit < groupCount then
      let rl₃ := Function.update rl₂ groupKey (rl₂ groupKey - 1)
      ({ s with
          activeGroups := active
          rateLimit := Function.update rl₃ globalKey (rl₃ globalKey - 1) },
        ⟨false, globalCount, globalLimit, groupCount - 1, perGroupLimit⟩)
    else
      ({ s with
          activeGroups := active
          rateLimit := rl₂ },
        ⟨true, globalCount, globalLimit, groupCount, perGroupLimit⟩)

/-- mirrors libs/bulk-action/src/lua/ready-queue-push.lua:3-12 -/
def readyQueuePush (maxSize : Nat) (jobId : JobId) (s : Store) : Store × Bool :=
  let pushed := decide (s.readyQueue.length < maxSize)
  ({ s with readyQueue := if pushed then s.readyQueue ++ [jobId] else s.readyQueue }, pushed)

/-- One job of the batch. `DECR` can give -1; a negative result is reset to 0.
mirrors libs/bulk-action/src/lua/move-to-ready.lua:15-31 -/
def moveJob (s : Store) (jobId : JobId) : Store :=
  let moved : Store := { s with
    nonReadyQueue := s.nonReadyQueue.zrem jobId
    readyQueue := s.readyQueue ++ [jobId] }
  match (s.jobs jobId).groupId with
  | none => moved
  | some g =>
    let newCount : Int := (s.congestionNonReadyCount g).getD 0 - 1
    { moved with
      congestionNonReadyCount := Function.update s.congestionNonReadyCount g (some newCount.toNat)
      congestionStats := Function.update s.congestionStats g
        { s.congestionStats g with currentNonReadyCount := some newCount.toNat } }

/-- mirrors libs/bulk-action/src/lua/move-to-ready.lua:4-33 -/
def moveToReady (currentTimeMs maxBatchSize : Nat) (s : Store) : Store × Nat :=
  let jobs := s.nonReadyQueue.rangeByScore currentTimeMs maxBatchSize
  (jobs.foldl moveJob s, jobs.length)

/-- The three numbers of the reply of `congestion-backoff.lua`. -/
structure BackoffReply where
  backoffMs : Nat
  nonReadyCount : Nat
  rateLimitSpeed : Nat
  deriving DecidableEq, Repr

/-- mirrors libs/bulk-action/src/lua/congestion-backoff.lua:6-42 -/
def congestionBackoff (globalRps baseBackoffMs maxBackoffMs : Nat) (jobId : JobId) (groupId : GroupId)
    (currentTimeMs : Nat) (s : Store) : Store × BackoffReply :=
  let nonReadyCount := (s.congestionNonReadyCount groupId).getD 0 + 1
  let activeGroups := max 1 s.activeGroups.length
  let rateLimitSpeed := max 1 (globalRps / activeGroups)
  let backoffMs := min (baseBackoffMs + nonReadyCount / rateLimitSpeed * 1000) maxBackoffMs
  ({ s with
      nonReadyQueue := s.nonReadyQueue.zadd (currentTimeMs + backoffMs) jobId
      congestionNonReadyCount := Function.update s.congestionNonReadyCount groupId (some nonReadyCount)
      congestionStats := Function.update s.congestionStats groupId
        { currentNonReadyCount := some nonReadyCount
          lastBackoffMs := some backoffMs
          rateLimitSpeed := some rateLimitSpeed
          lastUpdatedMs := some currentTimeMs } },
    ⟨backoffMs, nonReadyCount, rateLimitSpeed⟩)

/-- mirrors libs/bulk-action/src/lua/congestion-release.lua:4-15 -/
def congestionRelease (groupId : GroupId) (decreaseCount : Int) (s : Store) : Store × Nat :=
  let newCount := ((s.congestionNonReadyCount groupId).getD 0 - decreaseCount : Int).toNat
  ({ s with
      congestionNonReadyCount := Function.update s.congestionNonReadyCount groupId (some newCount)
      congestionStats := Function.update s.congestionStats groupId
        { s.congestionStats groupId with currentNonReadyCount := some newCount } },
    newCount)

/-! ## What the scripts touch -/

/-- `rate-limit-check.lua` writes the active groups and the counters only. -/
theorem rateLimitCheck_frame (groupKey globalKey : String) (globalLimit : Nat) (g : GroupId) (s : Store) :
    ∃ active rl, (rateLimitCheck groupKey globalKey globalLimit g s).1 =
      { s with activeGroups := active, rateLimit := rl } := by
  simp only [rateLimitCheck]
  split
  · exact ⟨_, _, rfl⟩
  · split
    · exact ⟨_, _, rfl⟩
    · exact ⟨_, _, rfl⟩

/-- A move changes the two queues and the congestion books of one group. -/
theorem moveJob_frame (s : Store) (j : JobId) :
    ∃ counts stats, moveJob s j =
      { s with
        nonReadyQueue := s.nonReadyQueue.zrem j
        readyQueue := s.readyQueue ++ [j]
        congestionNonReadyCount := counts
        congestionStats := stats } := by
  unfold moveJob
  cases (s.jobs j).groupId with
  | none => exact ⟨_, _, rfl⟩
  | some g => exact ⟨_, _, rfl⟩

/-- The batch is appended to the ready queue in order and leaves the
non-ready queue. -/
theorem foldl_moveJob_frame (js : List JobId) :
    ∀ s, ∃ counts stats, js.foldl moveJob s =
      { s with
        nonReadyQueue := js.foldl Core.ZSet.zrem s.nonReadyQueue
        readyQueue := s.readyQueue ++ js
        congestionNonReadyCount := counts
        congestionStats := stats } := by
  induction js with
  | nil => intro s; exact ⟨s.congestionNonReadyCount, s.congestionStats, by simp⟩
  | cons j js ih =>
    intro s
    obtain ⟨counts, stats, h⟩ := moveJob_frame s j
    obtain ⟨counts', stats', h'⟩ := ih (moveJob s j)
    refine ⟨counts', stats', ?_⟩
    rw [List.foldl_cons, h', h]
    simp

end NestPlayground.L2
