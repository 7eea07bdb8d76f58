import NestPlayground.L1Model.Store

/-!
# In-flight queue: `reliable-dequeue.lua`, `reliable-ack.lua`,
`extend-deadline.lua`, `recover-orphans.lua`

`recover-orphans.lua` is a fold of `recoverOrphan` over the expired batch.
-/
namespace NestPlayground.L2
open L1

/-- mirrors libs/bulk-action/src/lua/reliable-dequeue.lua:5-37 -/
def reliableDequeue (ackTimeoutMs : Nat) (workerId instanceId : String) (retryCount : Nat)
    (groupId : GroupId) (nowMs : Nat) (s : Store) : Store × Option (JobId × Nat) :=
  match s.readyQueue with
  | [] => (s, none)
  | jobId :: rest =>
    let deadline := nowMs + ackTimeoutMs
    ({ s with
        readyQueue := rest
        inFlightQueue := s.inFlightQueue.zadd deadline jobId
        inFlightMeta := Function.update s.inFlightMeta jobId
          { jobId := some jobId
            workerId := some workerId
            instanceId := some instanceId
            deadline := some deadline
            dequeuedAt := some nowMs
            retryCount := some retryCount
            groupId := some groupId } },
      some (jobId, deadline))

/-- `true` is the reply 1; `false` is a late ack.
mirrors libs/bulk-action/src/lua/reliable-ack.lua:4-14 -/
def reliableAck (jobId : JobId) (s : Store) : Store × Bool :=
  ({ s with
      inFlightQueue := s.inFlightQueue.zrem jobId
      inFlightMeta := Function.update s.inFlightMeta jobId {} },
    decide (jobId ∈ s.inFlightQueue))

/-- mirrors libs/bulk-action/src/lua/extend-deadline.lua:4-25 -/
def extendDeadline (jobId : JobId) (extensionMs nowMs : Nat) (s : Store) : Store × Bool :=
  if jobId ∈ s.inFlightQueue then
    ({ s with
        inFlightQueue := s.inFlightQueue.zadd (nowMs + extensionMs) jobId
        inFlightMeta := Function.update s.inFlightMeta jobId
          { s.inFlightMeta jobId with deadline := some (nowMs + extensionMs) } },
      true)
  else (s, false)

/-- The retry count recovery goes by: the metadata's if there is any metadata,
else the job hash's.
mirrors libs/bulk-action/src/lua/recover-orphans.lua:30-48 -/
def orphanRetryCount (s : Store) (jobId : JobId) : Nat :=
  if s.inFlightMeta jobId = {} then (s.jobs jobId).retryCount.getD 0
  else (s.inFlightMeta jobId).retryCount.getD 0

def orphanGroupId (s : Store) (jobId : JobId) : GroupId :=
  if s.inFlightMeta jobId = {} then (s.jobs jobId).groupId.getD ""
  else (s.inFlightMeta jobId).groupId.getD ""

/-- One job of the batch; `some` is the pair of a dead-lettered one.
mirrors libs/bulk-action/src/lua/recover-orphans.lua:22-79 -/
def recoverOrphan (nowMs maxRetryCount : Nat) (s : Store) (jobId : JobId) :
    Store × Option (JobId × GroupId) :=
  let retryCount := orphanRetryCount s jobId
  let groupId := orphanGroupId s jobId
  let taken : Store := { s with
    inFlightQueue := s.inFlightQueue.zrem jobId
    inFlightMeta := Function.update s.inFlightMeta jobId {} }
  if maxRetryCount ≤ retryCount then
    ({ taken with
        deadLetterQueue := s.deadLetterQueue ++
          [{ jobId, groupId, retryCount, error := "orphan: max retries exceeded", failedAt := nowMs }]
        jobs := Function.update s.jobs jobId { s.jobs jobId with status := some .failed } },
      some (jobId, groupId))
  else
    ({ taken with
        jobs := Function.update s.jobs jobId
          { s.jobs jobId with
            retryCount := some ((s.jobs jobId).retryCount.getD 0 + 1)
            status := some .pending }
        readyQueue := s.readyQueue ++ [jobId] },
      none)

def recoverBatch (nowMs maxRetryCount : Nat) : Store → List JobId → Store × List (Option (JobId × GroupId))
  | s, [] => (s, [])
  | s, jobId :: jobIds =>
    let (s₁, outcome) := recoverOrphan nowMs maxRetryCount s jobId
    let (s₂, outcomes) := recoverBatch nowMs maxRetryCount s₁ jobIds
    (s₂, outcome :: outcomes)

/-- `{recovered, deadLettered, jobId1, groupId1, …}`, the flat tail read as pairs. -/
structure RecoverReply where
  recovered : Nat
  deadLettered : Nat
  pairs : List (JobId × GroupId)
  deriving DecidableEq, Repr

/-- An element of a table that a script returns. -/
inductive LuaValue where
  | number (n : Nat)
  | string (s : String)
  deriving DecidableEq, Repr

/-- The table as the script builds it.
mirrors libs/bulk-action/src/lua/recover-orphans.lua:67-68, 81-87 -/
def RecoverReply.flat (r : RecoverReply) : List LuaValue :=
  .number r.recovered :: .number r.deadLettered :: r.pairs.flatMap fun p => [.string p.1, .string p.2]

/-- mirrors libs/bulk-action/src/lua/recover-orphans.lua:6-87 -/
def recoverOrphans (nowMs batchSize maxRetryCount : Nat) (s : Store) : Store × RecoverReply :=
  let orphans := s.inFlightQueue.rangeByScore nowMs batchSize
  let (s', outcomes) := recoverBatch nowMs maxRetryCount s orphans
  (s',
    { recovered := outcomes.countP Option.isNone
      deadLettered := outcomes.countP Option.isSome
      pairs := outcomes.filterMap id })

/-! ## What recovery does -/

/-- Handling one orphan writes the in-flight books and the hash of this job,
and puts it in the ready queue or in the dead-letter queue. -/
theorem recoverOrphan_cases (nowMs maxRetryCount : Nat) (s : Store) (j : JobId) :
    (maxRetryCount ≤ orphanRetryCount s j ∧
      recoverOrphan nowMs maxRetryCount s j =
        ({ s with
            inFlightQueue := s.inFlightQueue.zrem j
            inFlightMeta := Function.update s.inFlightMeta j {}
            deadLetterQueue := s.deadLetterQueue ++
              [⟨j, orphanGroupId s j, orphanRetryCount s j, "orphan: max retries exceeded", nowMs⟩]
            jobs := Function.update s.jobs j { s.jobs j with status := some .failed } },
          some (j, orphanGroupId s j))) ∨
    (orphanRetryCount s j < maxRetryCount ∧
      recoverOrphan nowMs maxRetryCount s j =
        ({ s with
            inFlightQueue := s.inFlightQueue.zrem j
            inFlightMeta := Function.update s.inFlightMeta j {}
            jobs := Function.update s.jobs j
              { s.jobs j with
                retryCount := some ((s.jobs j).retryCount.getD 0 + 1)
                status := some .pending }
            readyQueue := s.readyQueue ++ [j] },
          none)) := by
  rcases Nat.lt_or_ge (orphanRetryCount s j) maxRetryCount with h | h
  · refine .inr ⟨h, ?_⟩
    simp only [recoverOrphan, if_neg (Nat.not_le.mpr h)]
  · refine .inl ⟨h, ?_⟩
    simp only [recoverOrphan, if_pos h]

/-- Everything recovery goes by and writes belongs to the orphan itself. -/
theorem recoverOrphan_other {nowMs maxRetryCount : Nat} {s : Store} {j k : JobId} (h : k ≠ j) :
    orphanRetryCount (recoverOrphan nowMs maxRetryCount s j).1 k = orphanRetryCount s k ∧
    orphanGroupId (recoverOrphan nowMs maxRetryCount s j).1 k = orphanGroupId s k ∧
    (recoverOrphan nowMs maxRetryCount s j).1.jobs k = s.jobs k := by
  rcases recoverOrphan_cases nowMs maxRetryCount s j with ⟨-, he⟩ | ⟨-, he⟩ <;>
    simp [he, orphanRetryCount, orphanGroupId, Function.update_of_ne h]

theorem recoverOrphan_retryCount {nowMs maxRetryCount : Nat} {s : Store} {j k : JobId}
    (h : (s.jobs k).retryCount.isSome) :
    ((recoverOrphan nowMs maxRetryCount s j).1.jobs k).retryCount.isSome := by
  rcases eq_or_ne k j with rfl | hk
  · rcases recoverOrphan_cases nowMs maxRetryCount s k with ⟨-, he⟩ | ⟨-, he⟩
    · simpa [he] using h
    · simp [he]
  · rw [(recoverOrphan_other hk).2.2]
    exact h

section Batch
variable (nowMs maxRetryCount : Nat)

/-- The orphans of a batch that go back to the ready queue. -/
def requeued (s : Store) (js : List JobId) : List JobId :=
  js.filter fun j => decide (orphanRetryCount s j < maxRetryCount)

/-- The orphans of a batch that are dead-lettered, with the group charged. -/
def deadLettered (s : Store) (js : List JobId) : List (JobId × GroupId) :=
  (js.filter fun j => decide (maxRetryCount ≤ orphanRetryCount s j)).map fun j => (j, orphanGroupId s j)

theorem requeued_congr {s s' : Store} {js : List JobId}
    (h : ∀ j ∈ js, orphanRetryCount s' j = orphanRetryCount s j) :
    requeued maxRetryCount s' js = requeued maxRetryCount s js :=
  List.filter_congr fun j hj => by rw [h j hj]

/-- An orphan is on one of the two lists. -/
theorem count_orphans (s : Store) (js : List JobId) (j : JobId) :
    (requeued maxRetryCount s js).count j + (deadLettered maxRetryCount s js).countP (·.1 = j) = js.count j := by
  induction js with
  | nil => rfl
  | cons k js ih =>
    rcases Nat.lt_or_ge (orphanRetryCount s k) maxRetryCount with h | h
    · have hreq : requeued maxRetryCount s (k :: js) = k :: requeued maxRetryCount s js := by
        simp [requeued, h]
      have hdead : deadLettered maxRetryCount s (k :: js) = deadLettered maxRetryCount s js := by
        simp [deadLettered, Nat.not_le.mpr h]
      rw [hreq, hdead, List.count_cons, List.count_cons, ← ih]
      omega
    · have hreq : requeued maxRetryCount s (k :: js) = requeued maxRetryCount s js := by
        simp [requeued, Nat.not_lt.mpr h]
      have hdead : deadLettered maxRetryCount s (k :: js) =
          (k, orphanGroupId s k) :: deadLettered maxRetryCount s js := by
        simp [deadLettered, h]
      rw [hreq, hdead, List.countP_cons, List.count_cons, ← ih]
      simp only [decide_eq_true_eq, beq_iff_eq]
      omega

/-- The entries of the orphans of a batch that are dead-lettered. -/
def deadEntries (s : Store) (js : List JobId) : List DeadLetterEntry :=
  (js.filter fun j => decide (maxRetryCount ≤ orphanRetryCount s j)).map fun j =>
    ⟨j, orphanGroupId s j, orphanRetryCount s j, "orphan: max retries exceeded", nowMs⟩

/-- The hash of an orphan after its recovery. -/
def orphanHash (s : Store) (j : JobId) : JobHash :=
  if maxRetryCount ≤ orphanRetryCount s j then { s.jobs j with status := some .failed }
  else { s.jobs j with retryCount := some ((s.jobs j).retryCount.getD 0 + 1), status := some .pending }

/-- What the loop notes of an orphan. -/
def orphanOutcome (s : Store) (j : JobId) : Option (JobId × GroupId) :=
  if maxRetryCount ≤ orphanRetryCount s j then some (j, orphanGroupId s j) else none

theorem deadEntries_congr {s s' : Store} {js : List JobId}
    (h : ∀ j ∈ js, orphanRetryCount s' j = orphanRetryCount s j)
    (hg : ∀ j ∈ js, orphanGroupId s' j = orphanGroupId s j) :
    deadEntries nowMs maxRetryCount s' js = deadEntries nowMs maxRetryCount s js := by
  unfold deadEntries
  rw [List.filter_congr fun j hj => by rw [h j hj]]
  refine List.map_congr_left fun j hj => ?_
  rw [h j (List.mem_of_mem_filter hj), hg j (List.mem_of_mem_filter hj)]

theorem deadEntries_pairs (s : Store) (js : List JobId) :
    (deadEntries nowMs maxRetryCount s js).map (fun e => (e.jobId, e.groupId)) = deadLettered maxRetryCount s js := by
  simp [deadEntries, deadLettered, Function.comp_def]

theorem filterMap_orphanOutcome (s : Store) (js : List JobId) :
    (js.map (orphanOutcome maxRetryCount s)).filterMap id = deadLettered maxRetryCount s js := by
  induction js with
  | nil => rfl
  | cons j js ih =>
    simp only [deadLettered] at ih ⊢
    by_cases h : maxRetryCount ≤ orphanRetryCount s j
    · simp [orphanOutcome, h, ← ih]
    · simp [orphanOutcome, h, ← ih]

theorem countP_orphanOutcome (s : Store) (js : List JobId) :
    (js.map (orphanOutcome maxRetryCount s)).countP Option.isNone = (requeued maxRetryCount s js).length ∧
    (js.map (orphanOutcome maxRetryCount s)).countP Option.isSome = (deadLettered maxRetryCount s js).length := by
  have hnone : ∀ j, (orphanOutcome maxRetryCount s j).isNone = decide (orphanRetryCount s j < maxRetryCount) := by
    intro j
    unfold orphanOutcome
    split
    · simpa
    · simpa using Nat.lt_of_not_le ‹_›
  have hsome : ∀ j, (orphanOutcome maxRetryCount s j).isSome = decide (maxRetryCount ≤ orphanRetryCount s j) := by
    intro j
    unfold orphanOutcome
    split
    · simpa
    · simpa using Nat.lt_of_not_le ‹_›
  rw [List.countP_map, List.countP_map]
  simp only [Function.comp_def, hnone, hsome, requeued, deadLettered, List.length_map, List.countP_eq_length_filter,
    and_self]

/-- One orphan, as a batch of one. -/
theorem recoverOrphan_eq (s : Store) (j : JobId) :
    recoverOrphan nowMs maxRetryCount s j =
      ({ s with
          inFlightQueue := s.inFlightQueue.zrem j
          inFlightMeta := Function.update s.inFlightMeta j {}
          readyQueue := s.readyQueue ++ requeued maxRetryCount s [j]
          deadLetterQueue := s.deadLetterQueue ++ deadEntries nowMs maxRetryCount s [j]
          jobs := Function.update s.jobs j (orphanHash maxRetryCount s j) },
        orphanOutcome maxRetryCount s j) := by
  rcases recoverOrphan_cases nowMs maxRetryCount s j with ⟨h, he⟩ | ⟨h, he⟩
  · simp [he, requeued, deadEntries, orphanHash, orphanOutcome, h, Nat.not_lt.mpr h]
  · simp [he, requeued, deadEntries, orphanHash, orphanOutcome, h, Nat.not_le.mpr h]

/-- A batch of different orphans, all at once. -/
theorem recoverBatch_eq : ∀ (js : List JobId) (s : Store), js.Nodup →
    recoverBatch nowMs maxRetryCount s js =
      ({ s with
          inFlightQueue := js.foldl Core.ZSet.zrem s.inFlightQueue
          inFlightMeta := fun k => if k ∈ js then {} else s.inFlightMeta k
          readyQueue := s.readyQueue ++ requeued maxRetryCount s js
          deadLetterQueue := s.deadLetterQueue ++ deadEntries nowMs maxRetryCount s js
          jobs := fun k => if k ∈ js then orphanHash maxRetryCount s k else s.jobs k },
        js.map (orphanOutcome maxRetryCount s)) := by
  intro js
  induction js with
  | nil =>
    intro s _
    simp [recoverBatch, requeued, deadEntries]
  | cons j js ih =>
    intro s hn
    obtain ⟨hj, hn⟩ := List.nodup_cons.mp hn
    have hother := fun k (hk : k ∈ js) =>
      @recoverOrphan_other nowMs maxRetryCount s j k fun he => hj (he ▸ hk)
    have hretry := fun k hk => (hother k hk).1
    have hgroup := fun k hk => (hother k hk).2.1
    have hhash : ∀ k ∈ js, orphanHash maxRetryCount (recoverOrphan nowMs maxRetryCount s j).1 k =
        orphanHash maxRetryCount s k := by
      intro k hk
      simp only [orphanHash, hretry k hk, (hother k hk).2.2]
    have hout : js.map (orphanOutcome maxRetryCount (recoverOrphan nowMs maxRetryCount s j).1) =
        js.map (orphanOutcome maxRetryCount s) := by
      refine List.map_congr_left fun k hk => ?_
      simp only [orphanOutcome, hretry k hk, hgroup k hk]
    have htail := ih (recoverOrphan nowMs maxRetryCount s j).1 hn
    rw [requeued_congr maxRetryCount hretry, deadEntries_congr nowMs maxRetryCount hretry hgroup, hout] at htail
    have hjobs : (fun k => if k ∈ js then orphanHash maxRetryCount (recoverOrphan nowMs maxRetryCount s j).1 k
        else (recoverOrphan nowMs maxRetryCount s j).1.jobs k) =
        fun k => if k ∈ j :: js then orphanHash maxRetryCount s k else s.jobs k := by
      funext k
      rcases eq_or_ne k j with rfl | hk
      · simp [hj, recoverOrphan_eq]
      · by_cases hkj : k ∈ js
        · simp [hkj, hhash k hkj]
        · simp [hkj, hk, (recoverOrphan_other hk).2.2]
    have hmeta : (fun k => if k ∈ js then {} else Function.update s.inFlightMeta j {} k) =
        fun k => if k ∈ j :: js then {} else s.inFlightMeta k := by
      funext k
      rcases eq_or_ne k j with rfl | hk
      · simp [hj]
      · simp [hk]
    have hreq : requeued maxRetryCount s [j] ++ requeued maxRetryCount s js = requeued maxRetryCount s (j :: js) :=
      (List.filter_append [j] js).symm
    have hdead : deadEntries nowMs maxRetryCount s [j] ++ deadEntries nowMs maxRetryCount s js =
        deadEntries nowMs maxRetryCount s (j :: js) := by
      simp only [deadEntries, ← List.map_append, ← List.filter_append, List.singleton_append]
    simp only [recoverBatch, htail, hjobs]
    simp only [recoverOrphan_eq, hmeta, List.append_assoc, hreq, hdead, List.foldl_cons, List.map_cons]

theorem recoverBatch_spec (js : List JobId) (s : Store) (hn : js.Nodup) :
    (recoverBatch nowMs maxRetryCount s js).2.filterMap id = deadLettered maxRetryCount s js ∧
    ∃ dead jobs, (recoverBatch nowMs maxRetryCount s js).1 =
      { s with
        inFlightQueue := js.foldl Core.ZSet.zrem s.inFlightQueue
        inFlightMeta := fun k => if k ∈ js then {} else s.inFlightMeta k
        readyQueue := s.readyQueue ++ requeued maxRetryCount s js
        deadLetterQueue := s.deadLetterQueue ++ dead
        jobs := jobs } ∧
      dead.map (fun e => (e.jobId, e.groupId)) = deadLettered maxRetryCount s js ∧
      ∀ k, (jobs k).SameJob (s.jobs k) ∧ (k ∉ js → jobs k = s.jobs k) := by
  rw [recoverBatch_eq nowMs maxRetryCount js s hn]
  refine ⟨filterMap_orphanOutcome maxRetryCount s js, _, _, rfl, deadEntries_pairs nowMs maxRetryCount s js,
    fun k => ⟨?_, fun hk => if_neg hk⟩⟩
  split
  · unfold orphanHash
    split
    · exact ⟨rfl, rfl, rfl, rfl⟩
    · exact ⟨rfl, rfl, rfl, rfl⟩
  · exact .refl _

/-- The script takes the expired entries out of flight; each goes back to the
ready queue or to the dead-letter queue, the latter reported with its group. -/
theorem recoverOrphans_spec (batchSize : Nat) (s : Store) :
    ∃ dead jobs, (recoverOrphans nowMs batchSize maxRetryCount s).1 =
      { s with
        inFlightQueue := (s.inFlightQueue.rangeByScore nowMs batchSize).foldl Core.ZSet.zrem s.inFlightQueue
        inFlightMeta := fun k =>
          if k ∈ s.inFlightQueue.rangeByScore nowMs batchSize then {} else s.inFlightMeta k
        readyQueue := s.readyQueue ++ requeued maxRetryCount s (s.inFlightQueue.rangeByScore nowMs batchSize)
        deadLetterQueue := s.deadLetterQueue ++ dead
        jobs := jobs } ∧
      (recoverOrphans nowMs batchSize maxRetryCount s).2.pairs =
        deadLettered maxRetryCount s (s.inFlightQueue.rangeByScore nowMs batchSize) ∧
      dead.map (fun e => (e.jobId, e.groupId)) =
        deadLettered maxRetryCount s (s.inFlightQueue.rangeByScore nowMs batchSize) ∧
      ∀ k, (jobs k).SameJob (s.jobs k) ∧
        (k ∉ s.inFlightQueue.rangeByScore nowMs batchSize → jobs k = s.jobs k) := by
  obtain ⟨hp, dead, jobs, he, hd, hk⟩ := recoverBatch_spec nowMs maxRetryCount
    (s.inFlightQueue.rangeByScore nowMs batchSize) s (Core.ZSet.nodup_rangeByScore _ _ _)
  exact ⟨dead, jobs, he, hp, hd, hk⟩

theorem recoverBatch_retryCount {k : JobId} : ∀ (js : List JobId) (s : Store), (s.jobs k).retryCount.isSome →
    ((recoverBatch nowMs maxRetryCount s js).1.jobs k).retryCount.isSome := by
  intro js
  induction js with
  | nil => exact fun _ h => h
  | cons j js ih => exact fun s h => ih _ (recoverOrphan_retryCount h)

theorem mem_requeued {s : Store} {js : List JobId} {j : JobId} :
    j ∈ requeued maxRetryCount s js ↔ j ∈ js ∧ orphanRetryCount s j < maxRetryCount := by
  simp [requeued]

/-- A batch raises the retry counts of the jobs it puts back. -/
theorem recoverBatch_retried {k : JobId} (js : List JobId) (s : Store) (hn : js.Nodup) :
    ((recoverBatch nowMs maxRetryCount s js).1.jobs k).retryCount.getD 0 =
      (s.jobs k).retryCount.getD 0 + (requeued maxRetryCount s js).count k := by
  have hreq : (requeued maxRetryCount s js).Nodup := hn.filter _
  rw [recoverBatch_eq nowMs maxRetryCount js s hn]
  by_cases hk : k ∈ js
  · simp only [hreq.count, mem_requeued, if_pos hk, orphanHash]
    rcases Nat.lt_or_ge (orphanRetryCount s k) maxRetryCount with h | h
    · simp [hk, h, Nat.not_le.mpr h]
    · simp [h, Nat.not_lt.mpr h]
  · have hnot : k ∉ requeued maxRetryCount s js := fun h => hk (mem_requeued maxRetryCount |>.mp h).1
    simp [hk, List.count_eq_zero_of_not_mem hnot]

theorem mem_deadLettered {s : Store} {js : List JobId} {x : JobId × GroupId} :
    x ∈ deadLettered maxRetryCount s js ↔
      x.1 ∈ js ∧ maxRetryCount ≤ orphanRetryCount s x.1 ∧ x.2 = orphanGroupId s x.1 := by
  obtain ⟨j, g⟩ := x
  simp only [deadLettered, List.mem_map, List.mem_filter, decide_eq_true_eq, Prod.mk.injEq]
  constructor
  · rintro ⟨j', ⟨hj, hle⟩, rfl, rfl⟩
    exact ⟨hj, hle, rfl⟩
  · rintro ⟨hj, hle, rfl⟩
    exact ⟨j, ⟨hj, hle⟩, rfl, rfl⟩

end Batch

end NestPlayground.L2
