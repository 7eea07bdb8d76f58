import NestPlayground.L1Model.Store

/-!
# Results, status and locks: `record-job-result.lua`, `transition-status.lua`,
`acquire-lock.lua`, `release-lock.lua`
-/
namespace NestPlayground.L2
open L1

/-- The four numbers of the reply.
mirrors libs/bulk-action/src/aggregator/AggregatorService.ts:13-18 -/
structure RecordResult where
  isGroupComplete : Bool
  successCount : Nat
  failedCount : Nat
  totalJobs : Nat
  deriving DecidableEq, Repr

/-- mirrors libs/bulk-action/src/lua/record-job-result.lua:8-35 -/
def recordJobResult (result : JobProcessorResponse) (nowMs : Nat) (s : Store) : Store × RecordResult :=
  let g := result.groupId
  let m := s.groupMeta g
  let successCount := if result.success then some (m.successCount.getD 0 + 1) else m.successCount
  let failedCount := if result.success then m.failedCount else some (m.failedCount.getD 0 + 1)
  let counted := successCount.getD 0 + failedCount.getD 0
  let totalJobs := m.totalJobs.getD 0
  ({ s with
      groupMeta := Function.update s.groupMeta g
        { m with
          successCount
          failedCount
          firstJobStartedAt := some (m.firstJobStartedAt.getD nowMs)
          lastUpdatedAt := some nowMs }
      groupJobResults := Function.update s.groupJobResults g (s.groupJobResults g ++ [result]) },
    { isGroupComplete := decide (totalJobs ≤ counted ∧ 0 < totalJobs)
      successCount := successCount.getD 0
      failedCount := failedCount.getD 0
      totalJobs })

/-- The status write of `transition-status.lua` with the timestamp that goes with it.
mirrors libs/bulk-action/src/lua/transition-status.lua:13-24 -/
def setStatus (toStatus : GroupStatus) (nowMs : Nat) (m : GroupMeta) : GroupMeta :=
  let m' := { m with status := some toStatus, lastUpdatedAt := some nowMs }
  match toStatus with
  | .aggregating => { m' with aggregationStartAt := some nowMs }
  | .completed => { m' with completedAt := some nowMs }
  | .failed => { m' with failedAt := some nowMs }
  | _ => m'

/-- Compare-and-set of the status.
mirrors libs/bulk-action/src/lua/transition-status.lua:7-26 -/
def transitionStatus (groupId : GroupId) (fromStatus toStatus : GroupStatus) (nowMs : Nat) (s : Store) :
    Store × Bool :=
  if (s.groupMeta groupId).status = some fromStatus then
    (s.modMeta groupId (setStatus toStatus nowMs), true)
  else (s, false)

/-- mirrors libs/bulk-action/src/lua/acquire-lock.lua:5-12 -/
def acquireLock (key : LockKey) (token : String) (s : Store) : Store × Bool :=
  match s.locks key with
  | none => ({ s with locks := Function.update s.locks key (some token) }, true)
  | some _ => (s, false)

/-- mirrors libs/bulk-action/src/lua/release-lock.lua:4-13 -/
def releaseLock (key : LockKey) (token : String) (s : Store) : Store × Bool :=
  if s.locks key = some token then
    ({ s with locks := Function.update s.locks key none }, true)
  else (s, false)

@[simp] theorem setStatus_status (toStatus : GroupStatus) (nowMs : Nat) (m : GroupMeta) :
    (setStatus toStatus nowMs m).status = some toStatus := by
  cases toStatus <;> rfl

/-- A transition writes the status and timestamps, no counter. -/
theorem setStatus_counters (toStatus : GroupStatus) (nowMs : Nat) (m : GroupMeta) :
    (setStatus toStatus nowMs m).totalJobs = m.totalJobs ∧ (setStatus toStatus nowMs m).doneJobs = m.doneJobs ∧
    (setStatus toStatus nowMs m).successCount = m.successCount ∧
    (setStatus toStatus nowMs m).failedCount = m.failedCount ∧
    (setStatus toStatus nowMs m).registeredJobs = m.registeredJobs ∧
    (setStatus toStatus nowMs m).processorType = m.processorType := by
  cases toStatus <;> exact ⟨rfl, rfl, rfl, rfl, rfl, rfl⟩

/-- A lock script touches nothing but the locks. -/
theorem acquireLock_frame (key : LockKey) (token : String) (s : Store) :
    ∃ locks, (acquireLock key token s).1 = { s with locks := locks } := by
  unfold acquireLock
  split
  · exact ⟨_, rfl⟩
  · exact ⟨s.locks, rfl⟩

theorem releaseLock_frame (key : LockKey) (token : String) (s : Store) :
    ∃ locks, (releaseLock key token s).1 = { s with locks := locks } := by
  unfold releaseLock
  split
  · exact ⟨_, rfl⟩
  · exact ⟨s.locks, rfl⟩

/-- A batch read behind a prefix makes a longer prefix. -/
theorem prefix_append_batch {α : Type} {xs l : List α} (h : xs <+: l) (batch : Nat) :
    xs ++ (l.drop xs.length).take batch <+: l := by
  obtain ⟨ys, rfl⟩ := h
  rw [List.drop_left]
  exact (List.prefix_append_right_inj xs).mpr (List.take_prefix _ _)

end NestPlayground.L2
