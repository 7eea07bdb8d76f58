import NestPlayground.L3Services.Worker

/-!
# What one recovery does

`recover-orphans.lua` handles the expired entries with the least deadline, ties
by job id, at most `batchSize` of them. `Recovers` is its postcondition in terms
of the state before: each entry handled leaves flight and its job goes to the
end of the ready queue or of the dead-letter queue. Executions at one time, with
nothing in between, drain the expired entries from the front.
-/
namespace NestPlayground.L5.Recovery
open L1 L2

/-- The job ids of the expired entries that are handled, in order. -/
def batch (nowMs batchSize : Nat) (s : Store) : List JobId :=
  (s.inFlightQueue.entries.take (min batchSize (s.inFlightQueue.due nowMs))).map Prod.snd

/-- The script turns `s` into `s'` and returns `result`. `requeued` and
`deadLettered` select from the batch by the effective retry count. -/
structure Recovers (nowMs maxRetryCount : Nat) (s : Store) (js : List JobId) (s' : Store) (result : List LuaValue) :
    Prop where
  entries : s'.inFlightQueue.entries = s.inFlightQueue.entries.drop js.length
  metadata : ∀ j, s'.inFlightMeta j = if j ∈ js then {} else s.inFlightMeta j
  split : (requeued maxRetryCount s js ++ (deadLettered maxRetryCount s js).map Prod.fst).Perm js ∧ js.Nodup
  ready : s'.readyQueue = s.readyQueue ++ requeued maxRetryCount s js
  dead : s'.deadLetterQueue = s.deadLetterQueue ++ (deadLettered maxRetryCount s js).map fun p =>
    ⟨p.1, p.2, orphanRetryCount s p.1, "orphan: max retries exceeded", nowMs⟩
  recoveredJob : ∀ j ∈ requeued maxRetryCount s js, s'.jobs j =
    { s.jobs j with retryCount := some ((s.jobs j).retryCount.getD 0 + 1), status := some .pending }
  failedJob : ∀ p ∈ deadLettered maxRetryCount s js, s'.jobs p.1 = { s.jobs p.1 with status := some .failed }
  otherJob : ∀ j ∉ js, s'.jobs j = s.jobs j
  rest : s' = { s with
    inFlightQueue := s'.inFlightQueue
    inFlightMeta := s'.inFlightMeta
    readyQueue := s'.readyQueue
    deadLetterQueue := s'.deadLetterQueue
    jobs := s'.jobs }
  reply : L3.readReply result = some ((requeued maxRetryCount s js).length, (deadLettered maxRetryCount s js).length,
    deadLettered maxRetryCount s js)

/-- The states after any number of executions at one time. -/
def recoverTimes (nowMs batchSize maxRetryCount : Nat) : Nat → Store → Store
  | 0, s => s
  | times + 1, s => recoverTimes nowMs batchSize maxRetryCount times (recoverOrphans nowMs batchSize maxRetryCount s).1

section
variable {nowMs batchSize maxRetryCount : Nat} {s : Store}

theorem batch_eq : s.inFlightQueue.rangeByScore nowMs batchSize = batch nowMs batchSize s :=
  Core.ZSet.rangeByScore_eq_take _ _ _

theorem length_batch : (batch nowMs batchSize s).length = min batchSize (s.inFlightQueue.due nowMs) := by
  rw [← batch_eq, Core.ZSet.length_rangeByScore]

theorem nodup_batch : (batch nowMs batchSize s).Nodup := by
  rw [← batch_eq]
  exact Core.ZSet.nodup_rangeByScore _ _ _

/-- The script is the loop over the batch. -/
theorem recoverOrphans_eq : (recoverOrphans nowMs batchSize maxRetryCount s).1 =
      (recoverBatch nowMs maxRetryCount s (batch nowMs batchSize s)).1 ∧
    (recoverOrphans nowMs batchSize maxRetryCount s).2 =
      ⟨(requeued maxRetryCount s (batch nowMs batchSize s)).length,
        (deadLettered maxRetryCount s (batch nowMs batchSize s)).length,
        deadLettered maxRetryCount s (batch nowMs batchSize s)⟩ := by
  obtain ⟨hnone, hsome⟩ := countP_orphanOutcome maxRetryCount s (batch nowMs batchSize s)
  have hpairs := filterMap_orphanOutcome maxRetryCount s (batch nowMs batchSize s)
  simp only [recoverOrphans, batch_eq, recoverBatch_eq nowMs maxRetryCount _ s nodup_batch, hnone, hsome, hpairs, and_self]

/-- Each orphan of the batch goes to one of the two queues. -/
theorem split_perm (js : List JobId) :
    (requeued maxRetryCount s js ++ (deadLettered maxRetryCount s js).map Prod.fst).Perm js := by
  have hdead : (deadLettered maxRetryCount s js).map Prod.fst =
      js.filter fun j => !decide (orphanRetryCount s j < maxRetryCount) := by
    simp only [deadLettered, List.map_map, Function.comp_def, List.map_id']
    refine List.filter_congr fun j _ => ?_
    rw [Bool.eq_iff_iff]
    simp
  rw [hdead]
  exact List.filter_append_perm _ js

theorem recovers : Recovers nowMs maxRetryCount s (batch nowMs batchSize s)
    (recoverOrphans nowMs batchSize maxRetryCount s).1 (recoverOrphans nowMs batchSize maxRetryCount s).2.flat := by
  obtain ⟨hs, hr⟩ := @recoverOrphans_eq nowMs batchSize maxRetryCount s
  rw [hs, hr, recoverBatch_eq nowMs maxRetryCount _ s nodup_batch]
  refine ⟨?_, fun j => rfl, ⟨split_perm _, nodup_batch⟩, rfl, ?_, fun j hj => ?_, fun p hp => ?_, fun j hj => if_neg hj, rfl,
    L3.readReply_flat rfl⟩
  · simp only [length_batch]
    rw [← batch_eq]
    exact Core.ZSet.entries_foldl_zrem_rangeByScore _ _ _
  · simp only [deadEntries, deadLettered, List.map_map, Function.comp_def]
  · obtain ⟨hj, hlt⟩ := (mem_requeued maxRetryCount).mp hj
    simp only [if_pos hj, orphanHash, if_neg (Nat.not_le.mpr hlt)]
  · obtain ⟨hj, hle, -⟩ := (mem_deadLettered maxRetryCount).mp hp
    simp only [if_pos hj, orphanHash, if_pos hle]

/-- After `times` executions `times * batchSize` entries are gone, or all that were expired. -/
theorem entries_recoverTimes (times : Nat) : ∀ s : Store,
    (recoverTimes nowMs batchSize maxRetryCount times s).inFlightQueue.entries =
      s.inFlightQueue.entries.drop (min (times * batchSize) (s.inFlightQueue.due nowMs)) := by
  induction times with
  | zero =>
    intro s
    rw [Nat.zero_mul, Nat.zero_min, List.drop_zero, recoverTimes]
  | succ times ih =>
    intro s
    have he := (@recovers nowMs batchSize maxRetryCount s).entries
    rw [length_batch] at he
    rw [recoverTimes, ih, Core.ZSet.due_of_drop he (Nat.min_le_right _ _), he, List.drop_drop, Nat.succ_mul]
    congr 1
    omega

/-- Rounding up covers. -/
theorem le_ceil_mul {n : Nat} (hb : 1 ≤ batchSize) : n ≤ (n + batchSize - 1) / batchSize * batchSize := by
  have := Nat.div_add_mod (n + batchSize - 1) batchSize
  have := Nat.mod_lt (n + batchSize - 1) (by omega : batchSize > 0)
  rw [Nat.mul_comm]
  omega

end

/-- One execution handles the `batchSize` first of the expired entries and does
to them what `Recovers` says; at a fixed time, with nothing else running, as
many executions as batches are needed for the expired entries drop these and
leave the others. -/
theorem recovery (nowMs batchSize maxRetryCount : Nat) (hb : 1 ≤ batchSize) (s : Store) :
    (batch nowMs batchSize s).length = min batchSize (s.inFlightQueue.due nowMs) ∧
    Recovers nowMs maxRetryCount s (batch nowMs batchSize s) (recoverOrphans nowMs batchSize maxRetryCount s).1
      (recoverOrphans nowMs batchSize maxRetryCount s).2.flat ∧
    (recoverTimes nowMs batchSize maxRetryCount ((s.inFlightQueue.due nowMs + batchSize - 1) / batchSize)
      s).inFlightQueue.entries = s.inFlightQueue.entries.drop (s.inFlightQueue.due nowMs) := by
  refine ⟨length_batch, recovers, ?_⟩
  have := @le_ceil_mul batchSize (s.inFlightQueue.due nowMs) hb
  rw [entries_recoverTimes, Nat.min_eq_right this]

/-- One job with a retry left and one without. -/
def twoExpired : Store := { Store.empty with
  inFlightQueue := (Core.ZSet.empty.zadd 5 "j1").zadd 7 "j2"
  inFlightMeta := Function.update (fun _ => {}) "j2" { retryCount := some 3, groupId := some "g" } }

theorem recovery_twoExpired : (recoverTimes 9 1 3 2 twoExpired).inFlightQueue.entries = [] :=
  ((recovery 9 1 3 (Nat.le_refl 1) twoExpired).2.2).trans (by decide +kernel)

end NestPlayground.L5.Recovery
