import NestPlayground.L4Pipeline.Pipeline

/-!
# What a call leaves alone

Most calls write one family of keys. `aside` calls write nothing about jobs and
groups; of the others `metaOf` names the group whose metadata a call writes,
`enqueues` the calls that write what a job's hash says of the job, `records`
the calls that write a job-results list, `stores` those that write a group's
result and `movesJobs` those that write a queue of jobs. The calls of
`finalizeGroup` and of the watcher are listed in `housekeeping`.
-/
namespace NestPlayground.L4
open L1 L3

/-- The calls that write no job, no group and no queue of jobs: reads, rate
limits, congestion statistics, locks and the sets of active groups. -/
def aside : Cmd → Bool
  | .rateLimitCheck _ | .congestionRelease _ _ | .acquireLock _ _ | .releaseLock _ _ => true
  | .jobGetAll _ | .jobGetRetryCount _ | .jobGetGroupId _ | .metaGetAll _ | .resultsRange _ _ _ => true
  | .readyLength | .readyHead | .dlqRange | .dateNow | .randomUUID | .process _ => true
  | .watcherAdd _ | .watcherRemove _ | .watcherMembers | .activeRemove _ | .congestionDelete _ => true
  | _ => false

/-- The queues of jobs, and the books of the in-flight queue. -/
structure SameQueues (s s' : Store) : Prop where
  groupJobs : s'.groupJobs = s.groupJobs
  ready : s'.readyQueue = s.readyQueue
  nonReady : s'.nonReadyQueue = s.nonReadyQueue
  inFlight : s'.inFlightQueue = s.inFlightQueue
  inFlightMeta : s'.inFlightMeta = s.inFlightMeta
  deadLetters : s'.deadLetterQueue = s.deadLetterQueue

/-- The stores agree on jobs and groups. -/
structure Untouched (s s' : Store) : Prop extends SameQueues s s' where
  jobs : s'.jobs = s.jobs
  groupMeta : s'.groupMeta = s.groupMeta
  groupJobResults : s'.groupJobResults = s.groupJobResults
  groupResult : s'.groupResult = s.groupResult

/-- The group whose metadata a call writes. -/
def metaOf : Cmd → Option GroupId
  | .enqueue req => some req.jobGroupId
  | .ack _ g => some g
  | .recordJobResult r => some r.groupId
  | .transitionStatus g _ => some g
  | .metaSetRegisteredJobs g _ => some g
  | .metaSetTimeoutAt g => some g
  | _ => none

/-- The calls that write a group's aggregated result. -/
def stores : Cmd → Bool
  | .resultSet _ _ | .resultSetAggregatedAt _ => true
  | _ => false

/-- The calls that write a queue of jobs. -/
def movesJobs : Cmd → Bool
  | .enqueue _ | .dequeue | .readyQueuePush _ | .moveToReady | .congestionBackoff _ _ | .nonReadyAdd _ => true
  | .reliableDequeue _ _ _ _ | .reliableAck _ | .extendDeadline _ | .recoverOrphans | .readyAppend _ => true
  | .deadLetter _ _ _ _ | .dlqAppend _ | .dlqPopHead | .dlqDelete => true
  | _ => false

/-- The calls that write the non-ready queue. -/
def parks : Cmd → Bool
  | .moveToReady | .congestionBackoff _ _ | .nonReadyAdd _ => true
  | _ => false

/-- The calls that write the in-flight queue and its metadata. -/
def flights : Cmd → Bool
  | .reliableDequeue _ _ _ _ | .reliableAck _ | .extendDeadline _ | .recoverOrphans => true
  | _ => false

/-- The calls that write the dead letters. -/
def buries : Cmd → Bool
  | .recoverOrphans | .deadLetter _ _ _ _ | .dlqAppend _ | .dlqPopHead | .dlqDelete => true
  | _ => false

/-- The calls that write a lock. -/
def locking : Cmd → Bool
  | .acquireLock _ _ | .releaseLock _ _ => true
  | _ => false

/-- The calls that write the watcher's set of groups. -/
def enrolling : Cmd → Bool
  | .watcherAdd _ | .watcherRemove _ => true
  | _ => false

/-- The calls that write a congestion count. -/
def congesting : Cmd → Bool
  | .moveToReady | .congestionBackoff _ _ | .congestionRelease _ _ | .congestionDelete _ => true
  | _ => false

/-- The call that writes the limiter's counters. -/
def limiting : Cmd → Bool
  | .rateLimitCheck _ => true
  | _ => false

/-- What calls of other kinds leave alone beside jobs and groups. -/
structure Beside (cmd : Cmd) (s s' : Store) : Prop where
  locks : locking cmd = false → s'.locks = s.locks
  watcher : enrolling cmd = false → s'.watcherActiveGroups = s.watcherActiveGroups
  congestion : congesting cmd = false → s'.congestionNonReadyCount = s.congestionNonReadyCount
  counters : limiting cmd = false → s'.rateLimit = s.rateLimit

/-- What a call does to the metadata of the group `g`. -/
inductive MetaStep (reg : Registry) (inp : Input) (g : GroupId) (m : GroupMeta) : Cmd → GroupMeta → Prop where
  | other {cmd} (h : metaOf cmd ≠ some g) : MetaStep reg inp g m cmd m
  | created {req} (hg : req.jobGroupId = g) (h : m.totalJobs.getD 0 = 0) :
      MetaStep reg inp g m (.enqueue req)
        { m with
          totalJobs := some 1
          basePriority := some req.basePriority
          priorityLevel := some req.priorityLevel
          doneJobs := some 0
          createdAt := some inp.now
          status := some .created }
  | enqueued {req} (hg : req.jobGroupId = g) (h : m.totalJobs.getD 0 ≠ 0) :
      MetaStep reg inp g m (.enqueue req) { m with totalJobs := some (m.totalJobs.getD 0 + 1) }
  | acked {j} :
      MetaStep reg inp g m (.ack j g)
        { m with
          doneJobs := some (m.doneJobs.getD 0 + 1)
          status := if m.totalJobs.getD 0 ≤ m.doneJobs.getD 0 + 1 then some .aggregating else m.status }
  | recorded {r} (hg : r.groupId = g) :
      MetaStep reg inp g m (.recordJobResult r)
        { m with
          successCount := if r.success then some (m.successCount.getD 0 + 1) else m.successCount
          failedCount := if r.success then m.failedCount else some (m.failedCount.getD 0 + 1)
          firstJobStartedAt := some (m.firstJobStartedAt.getD inp.now)
          lastUpdatedAt := some inp.now }
  | moved {t} (h : m.status = some t.source) :
      MetaStep reg inp g m (.transitionStatus g t) (L2.setStatus t.target inp.now m)
  | stayed {t} (h : m.status ≠ some t.source) : MetaStep reg inp g m (.transitionStatus g t) m
  | registered {n} : MetaStep reg inp g m (.metaSetRegisteredJobs g n) { m with registeredJobs := some n }
  | timed :
      MetaStep reg inp g m (.metaSetTimeoutAt g)
        { m with timeoutAt := some (inp.now + reg.config.watcher.groupTimeoutMs) }

section
variable {reg : Registry} {cmd : Cmd} {inp : Input} {s : Store}

-- every frame lemma unfolds the calls: their equations are generated here
attribute [local simp] exec

theorem rateLimitCheck_frame {g : GroupId} : ∃ active rl, (exec reg (.rateLimitCheck g) inp s).1 =
    { s with
      activeGroups := active
      rateLimit := rl } := by
  obtain ⟨a, rl, he⟩ := L2.rateLimitCheck_frame
    (rateLimitGroup (keyPrefix reg) g (currentWindow reg inp.now))
    (rateLimitGlobal (keyPrefix reg) (currentWindow reg inp.now)) reg.config.backpressure.globalRps g s
  exact ⟨a, rl, by simp only [exec, he]⟩

theorem untouched (h : aside cmd = true) : Untouched s (exec reg cmd inp s).1 := by
  cases cmd with
  | rateLimitCheck g =>
    obtain ⟨_, _, he⟩ := @rateLimitCheck_frame reg inp s g
    rw [he]
    exact ⟨⟨rfl, rfl, rfl, rfl, rfl, rfl⟩, rfl, rfl, rfl, rfl⟩
  | acquireLock k t =>
    obtain ⟨locks, he⟩ := L2.acquireLock_frame k t s
    simp only [exec, he]
    exact ⟨⟨rfl, rfl, rfl, rfl, rfl, rfl⟩, rfl, rfl, rfl, rfl⟩
  | releaseLock k t =>
    obtain ⟨locks, he⟩ := L2.releaseLock_frame k t s
    simp only [exec, he]
    exact ⟨⟨rfl, rfl, rfl, rfl, rfl, rfl⟩, rfl, rfl, rfl, rfl⟩
  | _ => first | exact ⟨⟨rfl, rfl, rfl, rfl, rfl, rfl⟩, rfl, rfl, rfl, rfl⟩ | cases h

/-- The scripts with a branch, a fold or a loop, each as one record update. -/
theorem dequeue_frame : ∃ jobs groupJobs queues, (exec reg .dequeue inp s).1 =
    { s with
      jobs := jobs
      groupJobs := groupJobs
      fairQueue := queues } := by
  rcases L2.dequeue_cases Core.binary64 reg.config.fairQueue.alpha inp.now s with ⟨q, he⟩ | ⟨g, j, rest, q, -, he⟩
  · simp only [exec, he]
    exact ⟨_, _, _, rfl⟩
  · simp only [exec, he]
    exact ⟨_, _, _, rfl⟩

theorem moveToReady_frame : ∃ counts stats, (exec reg .moveToReady inp s).1 =
    { s with
      nonReadyQueue := (s.nonReadyQueue.rangeByScore inp.now reg.config.backpressure.dispatchBatchSize).foldl
        Core.ZSet.zrem s.nonReadyQueue
      readyQueue := s.readyQueue ++
        s.nonReadyQueue.rangeByScore inp.now reg.config.backpressure.dispatchBatchSize
      congestionNonReadyCount := counts
      congestionStats := stats } := by
  obtain ⟨counts, stats, he⟩ := L2.foldl_moveJob_frame
    (s.nonReadyQueue.rangeByScore inp.now reg.config.backpressure.dispatchBatchSize) s
  exact ⟨counts, stats, by simp only [exec, L2.moveToReady, he]⟩

theorem reliableDequeue_frame {w i : String} {n : Nat} {g : GroupId} :
    ∃ ready flight flightMeta, (exec reg (.reliableDequeue w i n g) inp s).1 =
      { s with
        readyQueue := ready
        inFlightQueue := flight
        inFlightMeta := flightMeta } := by
  simp only [exec, L2.reliableDequeue]
  split
  · exact ⟨_, _, _, rfl⟩
  · exact ⟨_, _, _, rfl⟩

theorem extendDeadline_frame {j : JobId} : ∃ flight flightMeta, (exec reg (.extendDeadline j) inp s).1 =
    { s with
      inFlightQueue := flight
      inFlightMeta := flightMeta } := by
  simp only [exec, L2.extendDeadline]
  split
  · exact ⟨_, _, rfl⟩
  · exact ⟨_, _, rfl⟩

theorem transitionStatus_frame {g : GroupId} {t : Transition} :
    ∃ m, (exec reg (.transitionStatus g t) inp s).1 =
      { s with groupMeta := Function.update s.groupMeta g m } := by
  simp only [exec, L2.transitionStatus]
  split
  · exact ⟨_, rfl⟩
  · exact ⟨s.groupMeta g, by rw [Function.update_eq_self]⟩

theorem beside (reg : Registry) (cmd : Cmd) (inp : Input) (s : Store) : Beside cmd s (exec reg cmd inp s).1 := by
  cases cmd with
  | acquireLock k t =>
    obtain ⟨locks, he⟩ := L2.acquireLock_frame k t s
    simp only [exec, he]
    exact ⟨by simp [locking], fun _ => rfl, fun _ => rfl, fun _ => rfl⟩
  | releaseLock k t =>
    obtain ⟨locks, he⟩ := L2.releaseLock_frame k t s
    simp only [exec, he]
    exact ⟨by simp [locking], fun _ => rfl, fun _ => rfl, fun _ => rfl⟩
  | rateLimitCheck g =>
    obtain ⟨_, _, he⟩ := @rateLimitCheck_frame reg inp s g
    rw [he]
    exact ⟨fun _ => rfl, fun _ => rfl, fun _ => rfl, by simp [limiting]⟩
  | transitionStatus g t =>
    obtain ⟨m, he⟩ := @transitionStatus_frame reg inp s g t
    rw [he]
    exact ⟨fun _ => rfl, fun _ => rfl, fun _ => rfl, fun _ => rfl⟩
  | dequeue =>
    obtain ⟨_, _, _, he⟩ := @dequeue_frame reg inp s
    rw [he]
    exact ⟨fun _ => rfl, fun _ => rfl, fun _ => rfl, fun _ => rfl⟩
  | moveToReady =>
    obtain ⟨_, _, he⟩ := @moveToReady_frame reg inp s
    rw [he]
    exact ⟨fun _ => rfl, fun _ => rfl, by simp [congesting], fun _ => rfl⟩
  | reliableDequeue w i n g =>
    obtain ⟨_, _, _, he⟩ := @reliableDequeue_frame reg inp s w i n g
    rw [he]
    exact ⟨fun _ => rfl, fun _ => rfl, fun _ => rfl, fun _ => rfl⟩
  | extendDeadline j =>
    obtain ⟨_, _, he⟩ := @extendDeadline_frame reg inp s j
    rw [he]
    exact ⟨fun _ => rfl, fun _ => rfl, fun _ => rfl, fun _ => rfl⟩
  | recoverOrphans =>
    obtain ⟨dead, jobs, he, -⟩ := L2.recoverOrphans_spec inp.now reg.config.reliableQueue.maxRetryCount
      reg.config.reliableQueue.orphanRecoveryBatchSize s
    simp only [exec, he]
    exact ⟨fun _ => rfl, fun _ => rfl, fun _ => rfl, fun _ => rfl⟩
  | watcherAdd g | watcherRemove g => exact ⟨fun _ => rfl, by simp [enrolling], fun _ => rfl, fun _ => rfl⟩
  | congestionBackoff j g | congestionRelease g n | congestionDelete g =>
    exact ⟨fun _ => rfl, fun _ => rfl, by simp [congesting], fun _ => rfl⟩
  | _ => exact ⟨fun _ => rfl, fun _ => rfl, fun _ => rfl, fun _ => rfl⟩

/-- The calls that write a queue of jobs, `enqueue.lua` apart, leave the books of the groups alone. -/
theorem moving_frame (h : movesJobs cmd = true) (he : enqueues cmd = none) :
    (exec reg cmd inp s).1.groupMeta = s.groupMeta ∧ (exec reg cmd inp s).1.groupJobResults = s.groupJobResults ∧
      (exec reg cmd inp s).1.groupResult = s.groupResult := by
  cases cmd with
  | enqueue req => cases he
  | dequeue =>
    obtain ⟨_, _, _, he⟩ := @dequeue_frame reg inp s
    rw [he]
    exact ⟨rfl, rfl, rfl⟩
  | moveToReady =>
    obtain ⟨_, _, he⟩ := @moveToReady_frame reg inp s
    rw [he]
    exact ⟨rfl, rfl, rfl⟩
  | reliableDequeue w i n g =>
    obtain ⟨_, _, _, he⟩ := @reliableDequeue_frame reg inp s w i n g
    rw [he]
    exact ⟨rfl, rfl, rfl⟩
  | extendDeadline j =>
    obtain ⟨_, _, he⟩ := @extendDeadline_frame reg inp s j
    rw [he]
    exact ⟨rfl, rfl, rfl⟩
  | recoverOrphans =>
    obtain ⟨dead, jobs, he, -⟩ := L2.recoverOrphans_spec inp.now reg.config.reliableQueue.maxRetryCount
      reg.config.reliableQueue.orphanRecoveryBatchSize s
    rw [exec, he]
    exact ⟨rfl, rfl, rfl⟩
  | _ => first | exact ⟨rfl, rfl, rfl⟩ | cases h

/-- Only the six commands of `metaOf` write metadata, each of one group. -/
theorem groupMeta_frame {g : GroupId} (h : metaOf cmd ≠ some g) :
    (exec reg cmd inp s).1.groupMeta g = s.groupMeta g := by
  by_cases ha : aside cmd = true
  · rw [(untouched ha).groupMeta]
  cases cmd with
  | enqueue req =>
    have hg : g ≠ req.jobGroupId := fun he => h (by rw [he]; rfl)
    simp only [exec, L2.enqueue, Function.update_of_ne hg]
  | ack j g' =>
    have hg : g ≠ g' := fun he => h (by rw [he]; rfl)
    simp only [exec, L2.ack, Function.update_of_ne hg]
  | recordJobResult r =>
    have hg : g ≠ r.groupId := fun he => h (by rw [he]; rfl)
    simp only [exec, L2.recordJobResult, Function.update_of_ne hg]
  | transitionStatus g' t =>
    have hg : g ≠ g' := fun he => h (by rw [he]; rfl)
    obtain ⟨m, he⟩ := @transitionStatus_frame reg inp s g' t
    simp only [he, Function.update_of_ne hg]
  | metaSetRegisteredJobs g' n =>
    have hg : g ≠ g' := fun he => h (by rw [he]; rfl)
    simp only [exec, Store.modMeta, Function.update_of_ne hg]
  | metaSetTimeoutAt g' =>
    have hg : g ≠ g' := fun he => h (by rw [he]; rfl)
    simp only [exec, Store.modMeta, Function.update_of_ne hg]
  | _ => first | rfl | exact absurd rfl ha | exact congrFun (moving_frame rfl rfl).1 g

theorem meta_step (reg : Registry) (cmd : Cmd) (inp : Input) (s : Store) (g : GroupId) :
    MetaStep reg inp g (s.groupMeta g) cmd ((exec reg cmd inp s).1.groupMeta g) := by
  by_cases hg : metaOf cmd = some g
  · cases cmd with
    | enqueue req =>
      cases hg
      simp only [exec, L2.enqueue, Function.update_self]
      split
      · rename_i h
        rw [h]
        exact .created rfl (by omega)
      · exact .enqueued rfl (by omega)
    | transitionStatus g' t =>
      cases hg
      simp only [exec, L2.transitionStatus]
      split
      · rename_i h
        simp only [Store.modMeta, Function.update_self]
        exact .moved h
      · rename_i h
        exact .stayed h
    | ack j g' =>
      cases hg
      simp only [exec, L2.ack, Function.update_self, decide_eq_true_eq]
      exact .acked
    | recordJobResult r =>
      cases hg
      simp only [exec, L2.recordJobResult, Function.update_self]
      exact .recorded rfl
    | metaSetRegisteredJobs g' n =>
      cases hg
      simp only [exec, Store.modMeta, Function.update_self]
      exact .registered
    | metaSetTimeoutAt g' =>
      cases hg
      simp only [exec, Store.modMeta, Function.update_self]
      exact .timed
    | _ => cases hg
  · rw [groupMeta_frame hg]
    exact .other hg

/-- Only `record-job-result.lua` writes a job-results list. -/
theorem results_frame (h : records cmd = none) :
    (exec reg cmd inp s).1.groupJobResults = s.groupJobResults := by
  by_cases ha : aside cmd = true
  · rw [(untouched ha).groupJobResults]
  cases cmd with
  | recordJobResult r => cases h
  | transitionStatus g t =>
    obtain ⟨m, he⟩ := @transitionStatus_frame reg inp s g t
    rw [he]
  | _ => first | rfl | exact absurd rfl ha | exact (moving_frame rfl rfl).2.1

/-- Only the two writes of `aggregate` write a group's result. -/
theorem groupResult_frame (h : stores cmd = false) : (exec reg cmd inp s).1.groupResult = s.groupResult := by
  by_cases ha : aside cmd = true
  · rw [(untouched ha).groupResult]
  cases cmd with
  | resultSet g r => cases h
  | resultSetAggregatedAt g => cases h
  | transitionStatus g t =>
    obtain ⟨m, he⟩ := @transitionStatus_frame reg inp s g t
    rw [he]
  | _ => first | rfl | exact absurd rfl ha | exact (moving_frame rfl rfl).2.2

/-- Only `aggregate` writes a result. -/
theorem result_frame {g : GroupId} (h : ∀ r, cmd ≠ .resultSet g r) :
    ((exec reg cmd inp s).1.groupResult g).result = (s.groupResult g).result := by
  by_cases hs : stores cmd = true
  · cases cmd with
    | resultSet g' r =>
      have hne : g ≠ g' := fun he => h r (by rw [he])
      simp only [exec, Function.update_of_ne hne]
    | resultSetAggregatedAt g' =>
      rcases eq_or_ne g g' with rfl | hne
      · simp only [exec, Function.update_self]
      · simp only [exec, Function.update_of_ne hne]
    | _ => cases hs
  · rw [groupResult_frame (eq_false_of_ne_true hs)]

/-- Only `enqueue.lua` writes what a hash says of its job. -/
theorem jobs_sameJob (h : enqueues cmd = none) (j : JobId) :
    ((exec reg cmd inp s).1.jobs j).SameJob (s.jobs j) := by
  by_cases ha : aside cmd = true
  · rw [(untouched ha).jobs]
    exact .refl _
  cases cmd with
  | enqueue req => cases h
  | dequeue =>
    rcases L2.dequeue_cases Core.binary64 reg.config.fairQueue.alpha inp.now s with ⟨q, he⟩ | ⟨_, _, _, q, -, he⟩
    · simp only [exec, he]
      exact .refl _
    · simp only [exec, he]
      refine JobHash.sameJob_update ?_ j
      exact ⟨rfl, rfl, rfl, rfl⟩
  | moveToReady =>
    obtain ⟨_, _, he⟩ := @moveToReady_frame reg inp s
    rw [he]
    exact .refl _
  | transitionStatus g t =>
    obtain ⟨m, he⟩ := @transitionStatus_frame reg inp s g t
    rw [he]
    exact .refl _
  | reliableDequeue w i n g =>
    obtain ⟨_, _, _, he⟩ := @reliableDequeue_frame reg inp s w i n g
    rw [he]
    exact .refl _
  | extendDeadline j' =>
    obtain ⟨_, _, he⟩ := @extendDeadline_frame reg inp s j'
    rw [he]
    exact .refl _
  | recoverOrphans =>
    obtain ⟨dead, jobs, he, -, -, hk⟩ := L2.recoverOrphans_spec inp.now
      reg.config.reliableQueue.maxRetryCount reg.config.reliableQueue.orphanRecoveryBatchSize s
    simp only [exec, he]
    exact (hk j).1
  | ack | jobIncrRetryCount | jobResetRetryCount | jobSetStatus =>
    refine JobHash.sameJob_update ?_ j
    exact ⟨rfl, rfl, rfl, rfl⟩
  | _ => first | exact .refl _ | exact absurd rfl ha

theorem queues_frame (h : movesJobs cmd = false) : SameQueues s (exec reg cmd inp s).1 := by
  by_cases ha : aside cmd = true
  · exact (untouched ha).toSameQueues
  cases cmd with
  | transitionStatus g t =>
    obtain ⟨m, he⟩ := @transitionStatus_frame reg inp s g t
    rw [he]
    exact ⟨rfl, rfl, rfl, rfl, rfl, rfl⟩
  | _ => first | exact absurd rfl ha | exact ⟨rfl, rfl, rfl, rfl, rfl, rfl⟩ | cases h

/-- Two calls put a job into the non-ready queue, one takes a batch out. -/
theorem nonReady_frame (h : parks cmd = false) : (exec reg cmd inp s).1.nonReadyQueue = s.nonReadyQueue := by
  by_cases hm : movesJobs cmd = true
  · cases cmd with
    | dequeue =>
      obtain ⟨_, _, _, he⟩ := @dequeue_frame reg inp s
      rw [he]
    | reliableDequeue w i n g =>
      obtain ⟨_, _, _, he⟩ := @reliableDequeue_frame reg inp s w i n g
      rw [he]
    | extendDeadline j =>
      obtain ⟨_, _, he⟩ := @extendDeadline_frame reg inp s j
      rw [he]
    | recoverOrphans =>
      obtain ⟨dead, jobs, he, -⟩ := L2.recoverOrphans_spec inp.now
        reg.config.reliableQueue.maxRetryCount reg.config.reliableQueue.orphanRecoveryBatchSize s
      simp only [exec, he]
    | moveToReady | congestionBackoff | nonReadyAdd => cases h
    | _ => first | rfl | cases hm
  · exact (queues_frame (eq_false_of_ne_true hm)).nonReady

/-- A group's list is written by `enqueue.lua` and `dequeue.lua`. -/
theorem groupJobs_frame (he : enqueues cmd = none) (hd : cmd ≠ .dequeue) :
    (exec reg cmd inp s).1.groupJobs = s.groupJobs := by
  cases cmd with
  | enqueue req => cases he
  | dequeue => exact absurd rfl hd
  | moveToReady =>
    obtain ⟨_, _, h⟩ := @moveToReady_frame reg inp s
    rw [h]
  | reliableDequeue w i n g =>
    obtain ⟨_, _, _, h⟩ := @reliableDequeue_frame reg inp s w i n g
    rw [h]
  | extendDeadline j =>
    obtain ⟨_, _, h⟩ := @extendDeadline_frame reg inp s j
    rw [h]
  | recoverOrphans =>
    obtain ⟨dead, jobs, h, -⟩ := L2.recoverOrphans_spec inp.now reg.config.reliableQueue.maxRetryCount
      reg.config.reliableQueue.orphanRecoveryBatchSize s
    simp only [exec, h]
  | _ => first | rfl | exact (queues_frame rfl).groupJobs

theorem flight_frame (h : flights cmd = false) :
    (exec reg cmd inp s).1.inFlightQueue = s.inFlightQueue ∧ (exec reg cmd inp s).1.inFlightMeta = s.inFlightMeta := by
  by_cases hm : movesJobs cmd = true
  · cases cmd with
    | dequeue =>
      obtain ⟨_, _, _, he⟩ := @dequeue_frame reg inp s
      rw [he]
      exact ⟨rfl, rfl⟩
    | moveToReady =>
      obtain ⟨_, _, he⟩ := @moveToReady_frame reg inp s
      rw [he]
      exact ⟨rfl, rfl⟩
    | reliableDequeue | reliableAck | extendDeadline | recoverOrphans => cases h
    | _ => first | exact ⟨rfl, rfl⟩ | cases hm
  · have hq := @queues_frame reg cmd inp s (eq_false_of_ne_true hm)
    exact ⟨hq.inFlight, hq.inFlightMeta⟩

theorem deadLetters_frame (h : buries cmd = false) :
    (exec reg cmd inp s).1.deadLetterQueue = s.deadLetterQueue := by
  by_cases hm : movesJobs cmd = true
  · cases cmd with
    | dequeue =>
      obtain ⟨_, _, _, he⟩ := @dequeue_frame reg inp s
      rw [he]
    | moveToReady =>
      obtain ⟨_, _, he⟩ := @moveToReady_frame reg inp s
      rw [he]
    | reliableDequeue w i n g =>
      obtain ⟨_, _, _, he⟩ := @reliableDequeue_frame reg inp s w i n g
      rw [he]
    | extendDeadline j =>
      obtain ⟨_, _, he⟩ := @extendDeadline_frame reg inp s j
      rw [he]
    | recoverOrphans | deadLetter | dlqAppend | dlqPopHead | dlqDelete => cases h
    | _ => first | rfl | cases hm
  · exact (queues_frame (eq_false_of_ne_true hm)).deadLetters

/-- The jobs a call appends to the ready queue. -/
def arrivals (reg : Registry) (inp : Input) (s : Store) : Cmd → List JobId
  | .readyQueuePush j => if s.readyQueue.length < reg.config.backpressure.readyQueueMaxSize then [j] else []
  | .moveToReady => s.nonReadyQueue.rangeByScore inp.now reg.config.backpressure.dispatchBatchSize
  | .recoverOrphans =>
    L2.requeued reg.config.reliableQueue.maxRetryCount s
      (s.inFlightQueue.rangeByScore inp.now reg.config.reliableQueue.orphanRecoveryBatchSize)
  | .readyAppend j => [j]
  | _ => []

/-- Calls append to the ready queue; only a worker takes from it, at the head. -/
theorem ready_cases (reg : Registry) (cmd : Cmd) (inp : Input) (s : Store) :
    (exec reg cmd inp s).1.readyQueue = s.readyQueue ++ arrivals reg inp s cmd ∨
      ∃ j, delivers cmd (exec reg cmd inp s).2 = some j ∧ s.readyQueue = j :: (exec reg cmd inp s).1.readyQueue := by
  by_cases hm : movesJobs cmd = true
  · cases cmd with
    | dequeue =>
      obtain ⟨_, _, _, he⟩ := @dequeue_frame reg inp s
      rw [he]
      exact .inl (List.append_nil _).symm
    | readyQueuePush j =>
      simp only [exec, L2.readyQueuePush, arrivals, decide_eq_true_eq]
      split
      · exact .inl rfl
      · exact .inl (List.append_nil _).symm
    | moveToReady =>
      obtain ⟨_, _, he⟩ := @moveToReady_frame reg inp s
      rw [he]
      exact .inl rfl
    | reliableDequeue w i n g =>
      simp only [exec, L2.reliableDequeue]
      split
      · exact .inl (List.append_nil _).symm
      · rename_i j rest hr
        exact .inr ⟨j, rfl, hr⟩
    | extendDeadline j =>
      obtain ⟨_, _, he⟩ := @extendDeadline_frame reg inp s j
      rw [he]
      exact .inl (List.append_nil _).symm
    | recoverOrphans =>
      obtain ⟨dead, jobs, he, -⟩ := L2.recoverOrphans_spec inp.now
        reg.config.reliableQueue.maxRetryCount reg.config.reliableQueue.orphanRecoveryBatchSize s
      simp only [exec, he]
      exact .inl rfl
    | readyAppend j => exact .inl rfl
    | _ => first | exact .inl (List.append_nil _).symm | cases hm
  · rw [(queues_frame (eq_false_of_ne_true hm)).ready]
    cases cmd <;> first | exact .inl (List.append_nil _).symm | exact absurd rfl hm

/-- Only a worker takes a job out of the ready queue. -/
theorem ready_stays {j : JobId} (h : j ∈ s.readyQueue) :
    j ∈ (exec reg cmd inp s).1.readyQueue ∨ delivers cmd (exec reg cmd inp s).2 = some j := by
  rcases ready_cases reg cmd inp s with he | ⟨k, hk, he⟩
  · rw [he]
    exact .inl (List.mem_append_left _ h)
  · rw [he] at h
    rcases List.mem_cons.mp h with rfl | h
    · exact .inr hk
    · exact .inl h

/-- Only the dispatcher takes a job out of the non-ready queue, into the ready
queue. -/
theorem nonReady_stays {j : JobId} (h : j ∈ s.nonReadyQueue) :
    j ∈ (exec reg cmd inp s).1.readyQueue ∨ j ∈ (exec reg cmd inp s).1.nonReadyQueue := by
  by_cases hp : parks cmd = true
  · cases cmd with
    | moveToReady =>
      obtain ⟨_, _, he⟩ := @moveToReady_frame reg inp s
      rw [he]
      by_cases hb : j ∈ s.nonReadyQueue.rangeByScore inp.now reg.config.backpressure.dispatchBatchSize
      · exact .inl (List.mem_append_right _ hb)
      · exact .inr (Core.ZSet.mem_foldl_zrem.mpr ⟨h, hb⟩)
    | congestionBackoff k g => exact .inr (Core.ZSet.mem_zadd.mpr (.inr h))
    | nonReadyAdd k => exact .inr (Core.ZSet.mem_zadd.mpr (.inr h))
    | _ => cases hp
  · rw [nonReady_frame (eq_false_of_ne_true hp)]
    exact .inr h

end

/-! ## Who makes which call -/

/-- The calls of `finalizeGroup` and of a watch cycle. -/
def housekeeping : Cmd → Bool
  | .dateNow | .randomUUID | .acquireLock _ _ | .releaseLock _ _ => true
  | .metaGetAll _ | .transitionStatus _ _ | .watcherMembers | .watcherRemove _ => true
  | .resultsRange _ _ _ | .resultSet _ _ | .resultSetAggregatedAt _ => true
  | _ => false

/-- `a` makes no other calls. -/
def Housekeeps {Pc α : Type} (a : Await Pc α) : Prop :=
  a.Spec (fun c => housekeeping c = true) (fun _ _ _ => True) fun _ _ => True

theorem Housekeeps.map {A B α β : Type} {a : Await A α} {f : Core.Next A α → Core.Next B β}
    (h : Housekeeps a) : Housekeeps (a.map f) :=
  Core.Action.Spec.map h (fun _ _ _ _ => trivial) fun _ _ _ => trivial

theorem acquire_calls (reg : Registry) (p : AcquirePc) : Housekeeps (p.view reg) := by
  cases p <;> exact ⟨rfl, fun _ => trivial, trivial⟩

theorem aggregate_calls (reg : Registry) (batch : Nat) (p : AggregatePc) : Housekeeps (p.view reg batch) := by
  cases p <;> exact ⟨rfl, fun _ => trivial, trivial⟩

theorem finalize_calls (reg : Registry) (p : FinalizePc) : Housekeeps (p.view reg) := by
  cases p with
  | acquire g p =>
    rw [FinalizePc.view]
    exact (acquire_calls reg p).map
  | aggregate g token p =>
    rw [FinalizePc.view]
    exact (aggregate_calls reg batchSize p).map
  | metaGetAll | toAggregating | toCompleted | release => exact ⟨rfl, fun _ => trivial, trivial⟩

theorem watch_calls (reg : Registry) (p : WatchPc) : Housekeeps (p.view reg) := by
  cases p with
  | finalize p rest =>
    rw [WatchPc.view]
    exact (finalize_calls reg p).map
  | lockedFinalize g token p rest =>
    rw [WatchPc.view]
    exact (finalize_calls reg p).map
  | lockTransition g p rest =>
    rw [WatchPc.view]
    exact (acquire_calls reg p).map
  | lockForce g target p rest =>
    rw [WatchPc.view]
    exact (acquire_calls reg p).map
  | _ => exact ⟨rfl, fun _ => trivial, trivial⟩

/-- The function an activity runs. -/
inductive Service where
  | submit | fetch | dispatch | tick | recovery | watch | finalize | deadLetter | call | done
  deriving DecidableEq

def Proc.service : Proc → Service
  | .submit _ => .submit
  | .fetch _ => .fetch
  | .dispatch _ => .dispatch
  | .tick _ => .tick
  | .recovery _ => .recovery
  | .watch _ => .watch
  | .finalize _ => .finalize
  | .deadLetter _ => .deadLetter
  | .call _ => .call
  | .done => .done

/-- An activity runs its function until it is done. -/
theorem same_service (reg : Registry) (p : Proc) :
    (p.view reg).Spec (fun _ => True) (fun _ _ p' => p'.service = p.service ∨ p'.service = .done)
      fun _ p' => p'.service = p.service ∨ p'.service = .done := by
  have hmap : ∀ {Pc α : Type} (a : Await Pc α) {f : Pc → Proc} {k : Service}, (∀ q, (f q).service = k) →
      (a.map (resume f)).Spec (fun _ => True) (fun _ _ p' => p'.service = k ∨ p'.service = .done)
        fun _ p' => p'.service = k ∨ p'.service = .done := by
    intro Pc α a f k hf
    have hres : ∀ x : Core.Next Pc α, (resume f x).service = k ∨ (resume f x).service = .done := by
      intro x
      cases x with
      | goto q => exact .inl (hf q)
      | ret b => exact .inr rfl
      | throw => exact .inr rfl
    cases a with
    | call c ok err => exact ⟨trivial, fun r => hres _, hres _⟩
    | halt => trivial
  cases p with
  | done => trivial
  | _ => exact hmap _ fun _ => rfl

/-- The calls of each service. -/
def Proc.mayCall : Proc → Cmd → Bool
  | .submit _, .enqueue _ | .submit _, .watcherAdd _ => true
  | .submit _, .metaSetRegisteredJobs _ _ | .submit _, .metaSetTimeoutAt _ => true
  | .fetch _, .readyLength | .fetch _, .dequeue | .fetch _, .rateLimitCheck _ => true
  | .fetch _, .readyQueuePush _ | .fetch _, .congestionBackoff _ _ | .fetch _, .nonReadyAdd _ => true
  | .dispatch _, .readyLength | .dispatch _, .moveToReady => true
  | .tick _, .readyLength | .tick _, .readyHead | .tick _, .jobGetRetryCount _ | .tick _, .jobGetGroupId _ => true
  | .tick _, .reliableDequeue _ _ _ _ | .tick _, .jobGetAll _ | .tick _, .reliableAck _ => true
  | .tick _, .process _ | .tick _, .extendDeadline _ => true
  | .tick _, .recordJobResult _ | .tick _, .ack _ _ | .tick _, .congestionDelete _ => true
  | .tick _, .jobIncrRetryCount _ | .tick _, .jobSetStatus _ _ | .tick _, .congestionBackoff _ _ => true
  | .tick _, .nonReadyAdd _ | .tick _, .deadLetter _ _ _ _ => true
  | .tick _, c => housekeeping c
  | .recovery _, .recoverOrphans | .recovery _, .recordJobResult _ | .recovery _, .ack _ _ => true
  | .recovery _, c => housekeeping c
  | .watch _, c => housekeeping c
  | .finalize _, c => housekeeping c
  | .deadLetter _, .dlqRange | .deadLetter _, .dlqDelete | .deadLetter _, .dlqAppend _ => true
  | .deadLetter _, .dlqPopHead | .deadLetter _, .jobResetRetryCount _ | .deadLetter _, .jobSetStatus _ _ => true
  | .deadLetter _, .readyAppend _ | .deadLetter _, .dateNow => true
  | .call _, .congestionRelease _ _ | .call _, .congestionDelete _ | .call _, .activeRemove _ => true
  | _, _ => false

/-- `a` makes calls in `ok` only. -/
def Calls {Pc : Type} (ok : Cmd → Prop) (a : Core.Action Reply Pc) : Prop :=
  a.Spec ok (fun _ _ _ => True) fun _ _ => True

theorem Calls.map {A B : Type} {ok : Cmd → Prop} {a : Core.Action Reply A} {f : A → B} (h : Calls ok a) :
    Calls ok (a.map f) :=
  Core.Action.Spec.map h (fun _ _ _ _ => trivial) fun _ _ _ => trivial

theorem Calls.mono {Pc : Type} {ok ok' : Cmd → Prop} {a : Core.Action Reply Pc} (h : Calls ok a)
    (hsub : ∀ c, ok c → ok' c) : Calls ok' a := by
  cases a with
  | call c k err => exact ⟨hsub c h.1, h.2⟩
  | halt => trivial

/-- The calls of `handleJobComplete`. -/
def completing : Cmd → Bool
  | .recordJobResult _ | .ack _ _ | .congestionDelete _ => true
  | c => housekeeping c

theorem complete_calls (reg : Registry) (p : CompletePc) : Calls (fun c => completing c = true) (p.view reg) := by
  cases p with
  | finalize p =>
    rw [CompletePc.view]
    refine Calls.map (Calls.mono (finalize_calls reg p) fun c hc => ?_)
    cases c <;> first | rfl | cases hc
  | record | ack | resetGroupStats => exact ⟨rfl, fun _ => trivial, trivial⟩

theorem may_call (reg : Registry) (p : Proc) : Calls (fun c => p.mayCall c = true) (p.view reg) := by
  have htick : ∀ p c, completing c = true → (Proc.tick p).mayCall c = true := by
    intro p c h
    cases c <;> first | rfl | cases h
  have hrecovery : ∀ p c, housekeeping c = true → (Proc.recovery p).mayCall c = true := by
    intro p c h
    cases c <;> first | rfl | cases h
  cases p with
  | submit p =>
    refine Calls.map ?_
    cases p <;> exact ⟨rfl, fun _ => trivial, trivial⟩
  | fetch p =>
    refine Calls.map ?_
    cases p with
    | admission n p =>
      rw [FetchPc.view]
      refine Calls.map ?_
      cases p with
      | addToNonReady r p => cases p <;> exact ⟨rfl, fun _ => trivial, trivial⟩
      | hasCapacity | checkRateLimit | push => exact ⟨rfl, fun _ => trivial, trivial⟩
    | hasCapacity | dequeue => exact ⟨rfl, fun _ => trivial, trivial⟩
  | dispatch p =>
    refine Calls.map ?_
    cases p <;> exact ⟨rfl, fun _ => trivial, trivial⟩
  | tick p =>
    refine Calls.map ?_
    cases p with
    | dequeue p => cases p <;> exact ⟨rfl, fun _ => trivial, trivial⟩
    | complete p =>
      rw [TickPc.view]
      exact Calls.map (Calls.mono (complete_calls reg p) (htick _))
    | failed p =>
      rw [TickPc.view]
      refine Calls.map ?_
      cases p with
      | requeue p => cases p <;> exact ⟨rfl, fun _ => trivial, trivial⟩
      | _ => exact ⟨rfl, fun _ => trivial, trivial⟩
    | _ => exact ⟨rfl, fun _ => trivial, trivial⟩
  | recovery p =>
    refine Calls.map ?_
    cases p with
    | finalize p pairs =>
      rw [RecoveryPc.view]
      exact Calls.map (Calls.mono (finalize_calls reg p) (hrecovery _))
    | script | record | ack => exact ⟨rfl, fun _ => trivial, trivial⟩
  | watch p => exact Calls.map (watch_calls reg p)
  | finalize p => exact Calls.map (finalize_calls reg p)
  | deadLetter p =>
    refine Calls.map ?_
    cases p with
    | retryRemove p | purgeRemove p | cleanupRemove p =>
      rw [DeadLetterPc.view]
      refine Calls.map ?_
      cases p <;> exact ⟨rfl, fun _ => trivial, trivial⟩
    | _ => exact ⟨rfl, fun _ => trivial, trivial⟩
  | call p =>
    refine Calls.map ?_
    cases p <;> exact ⟨rfl, fun _ => trivial, trivial⟩
  | done => trivial

theorem mayCall_of_view {reg : Registry} {p : Proc} {cmd : Cmd} {ok : Reply cmd → Proc} {err : Proc}
    (h : p.view reg = .call cmd ok err) : p.mayCall cmd = true := by
  have := may_call reg p
  rw [h] at this
  exact this.1

end NestPlayground.L4
