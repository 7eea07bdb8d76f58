import NestPlayground.L6Keyspace.Commands

/-!
# The scripts on the database

Every script simulates its function on the typed store. A proof follows the
text of the script: one rule for each command, and at the end the commands put
together are the function.
-/
namespace NestPlayground.L6
open L1 L3 Redis

section
variable {p : String} {s : Store}

/-! ## Fair queue -/

theorem sim_enqueue (req : BulkActionRequest) (alpha : ℚ) (nowMs : Nat) :
    Sim p (Scripts.enqueue (RedisKeyBuilder.fairQueue p req.priorityLevel) (RedisKeyBuilder.groupJobs p req.jobGroupId)
        (RedisKeyBuilder.groupMeta p req.jobGroupId) (RedisKeyBuilder.job p req.jobId) req.jobGroupId req.jobId
        req.payload req.basePriority req.priorityLevel.text alpha req.jobProcessorType nowMs)
      s ((L2.enqueue Core.binary64 alpha req nowMs s).1, ((L2.enqueue Core.binary64 alpha req nowMs s).2.1 : Int),
        (L2.enqueue Core.binary64 alpha req nowMs s).2.2) := by
  let g := req.jobGroupId
  let m := s.groupMeta g
  let counted : GroupMeta := { m with totalJobs := some (m.totalJobs.getD 0 + 1) }
  let written : GroupMeta :=
    if m.totalJobs.getD 0 + 1 = 1 then
      { counted with
        basePriority := some req.basePriority
        priorityLevel := some req.priorityLevel
        doneJobs := some 0
        createdAt := some nowMs
        status := some .created }
    else counted
  unfold Scripts.enqueue
  refine ((jobAt p req.jobId).hset rfl
    { id := some req.jobId
      groupId := some g
      processorType := some req.jobProcessorType
      payload := some req.payload
      status := some .pending
      retryCount := some 0
      createdAt := some nowMs } (by funext f; cases f <;> rfl)).bind ?_
  refine ((groupJobsAt p g).rpush req.jobId).bind ?_
  refine ((metaAt p g).hincr rfl m.totalJobs counted rfl (by funext f; cases f <;> rfl)).bind ?_
  refine ((metaAt p g).hget ((metaAt p g).get_set _ _) .doneJobs).bind (sim_integer.bind ?_)
  refine Core.Simulates.bind (sim_onlyIf (fun h1 => (metaAt p g).hset ((metaAt p g).get_set _ _) written ?_) ?_) ?_
  · simp only [written]
    rw [if_pos (by exact_mod_cast h1)]
    funext f
    cases f <;> rfl
  · intro h1
    simp only [written]
    rw [if_neg (by exact_mod_cast h1), (metaAt p g).set_set]
  · refine (sim_zadd req.priorityLevel rfl _ g).bind (.of_eq (.pure _) ?_)
    rw [(metaAt p g).set_set]
    simp only [L2.enqueue, L2.priority, Int.cast_natCast]
    rfl

section Dequeue
variable (level : PriorityLevel) (alpha : ℚ) (nowMs fuel : Nat) {score : ℚ} {g : GroupId} {j : JobId}
  {remaining : List JobId}

/-- The score a group gets that has jobs left. -/
def requeued (s : Store) (g : GroupId) : ℚ :=
  L2.priority Core.binary64 alpha nowMs ((s.groupMeta g).basePriority.getD 0) ((s.groupMeta g).totalJobs.getD 0)
    ((s.groupMeta g).doneJobs.getD 0)

/-- The store after a pass popped `j`, but for the queue. -/
def popped (p : String) (s : Store) (g : GroupId) (j : JobId) (remaining : List JobId) : Store :=
  (jobAt p j).set ((groupJobsAt p g).set s remaining) { s.jobs j with status := some .processing }

variable {level alpha nowMs fuel}

theorem dequeueLevel_break (ht : (s.fairQueue level).top = none) :
    L2.dequeueLevel Core.binary64 alpha nowMs level (fuel + 1) s = (s, none) := by
  simp only [L2.dequeueLevel, L2.dequeuePass, ht]

theorem dequeueLevel_drop (p : String) (ht : (s.fairQueue level).top = some (score, g)) (hj : s.groupJobs g = []) :
    L2.dequeueLevel Core.binary64 alpha nowMs level (fuel + 1) s =
      L2.dequeueLevel Core.binary64 alpha nowMs level fuel
        ((fairQueueAt p level).set s ((s.fairQueue level).zrem g)) := by
  simp only [L2.dequeueLevel, L2.dequeuePass, ht, hj]
  rfl

theorem dequeueLevel_pop (p : String) (ht : (s.fairQueue level).top = some (score, g))
    (hj : s.groupJobs g = j :: remaining) :
    L2.dequeueLevel Core.binary64 alpha nowMs level (fuel + 1) s =
      ((fairQueueAt p level).set (popped p s g j remaining)
          (if remaining.length = 0 then (s.fairQueue level).zrem g
          else (s.fairQueue level).zadd (requeued alpha nowMs s g) g),
        some { s.jobs j with status := some .processing }) := by
  simp only [L2.dequeueLevel, L2.dequeuePass, ht, hj]
  rfl

theorem sim_dequeueFrom : ∀ (fuel : Nat) (s : Store), (s.fairQueue level).card < fuel →
    Sim p (Scripts.dequeueFrom (RedisKeyBuilder.fairQueue p level) alpha p nowMs fuel) s
      ((L2.dequeueLevel Core.binary64 alpha nowMs level fuel s).1,
        (L2.dequeueLevel Core.binary64 alpha nowMs level fuel s).2.map jobFields) := by
  intro fuel
  induction fuel with
  | zero => exact fun s h => absurd h (Nat.not_lt_zero _)
  | succ fuel ih =>
    intro s hcard
    unfold Scripts.dequeueFrom
    refine (sim_zrevrangeFirst level rfl).bind ?_
    cases ht : (s.fairQueue level).top with
    | none =>
      rw [dequeueLevel_break ht]
      exact .pure none
    | some e =>
      obtain ⟨score, g⟩ := e
      cases hj : s.groupJobs g with
      | nil =>
        have hlt : ((s.fairQueue level).zrem g).card < (s.fairQueue level).card :=
          Core.ZSet.card_zrem_lt (Core.ZSet.mem_members_of_top ht)
        rw [dequeueLevel_drop p ht hj]
        refine ((groupJobsAt p g).lpop_nil hj).bind ((sim_zrem level rfl g).bind (ih _ ?_))
        rw [show ((fairQueueAt p level).set s ((s.fairQueue level).zrem g)).fairQueue level = (s.fairQueue level).zrem g
          from (fairQueueAt p level).get_set _ _]
        omega
      | cons j remaining =>
        rw [dequeueLevel_pop p ht hj]
        refine ((groupJobsAt p g).lpop_cons hj).bind (sim_text.bind ?_)
        refine ((jobAt p j).hset rfl { s.jobs j with status := some .processing } (by funext f; cases f <;> rfl)).bind ?_
        refine ((metaAt p g).hget rfl .totalJobs).bind (sim_integer.bind ?_)
        refine ((metaAt p g).hget rfl .doneJobs).bind (sim_integer.bind ?_)
        refine ((groupJobsAt p g).llen (by exact (groupJobsAt p g).get_set s remaining)).bind ?_
        have hread : ∀ s' h, s'.jobs j = h →
            Sim p (do return some (← hgetall (RedisKeyBuilder.job p j))) s' (s', some (jobFields h)) :=
          fun s' h hs => ((jobAt p j).hgetall hs).map
        by_cases hr : remaining.length = 0
        · rw [if_pos hr, if_pos hr]
          exact (sim_zrem level rfl g).bind (hread _ _ (Function.update_self ..))
        · rw [if_neg hr, if_neg hr]
          refine ((metaAt p g).hget rfl .basePriority).bind (sim_tonumber.bind ?_)
          exact (sim_zadd level rfl _ g).bind (hread _ _ (Function.update_self ..))

theorem sim_dequeueQueues (levels : List PriorityLevel) : ∀ s : Store,
    Sim p (Scripts.dequeueQueues alpha p nowMs (levels.map (RedisKeyBuilder.fairQueue p))) s
      ((L2.dequeue.go Core.binary64 alpha nowMs levels s).1,
        (L2.dequeue.go Core.binary64 alpha nowMs levels s).2.map jobFields) := by
  induction levels with
  | nil => exact fun s => .pure none
  | cons level levels ih =>
    intro s
    rw [List.map_cons, Scripts.dequeueQueues, L2.dequeue.go]
    refine (sim_zcard level rfl).bind ((sim_dequeueFrom _ s (Nat.lt_succ_self _)).bind ?_)
    generalize L2.dequeueLevel Core.binary64 alpha nowMs level ((s.fairQueue level).card + 1) s = r
    obtain ⟨s', hash⟩ := r
    cases hash with
    | none => exact ih s'
    | some hash => exact .pure _

theorem sim_dequeue :
    Sim p (Scripts.dequeue (RedisKeyBuilder.fairQueue p .high) (RedisKeyBuilder.fairQueue p .normal)
        (RedisKeyBuilder.fairQueue p .low) alpha p nowMs) s
      ((L2.dequeue Core.binary64 alpha nowMs s).1, (L2.dequeue Core.binary64 alpha nowMs s).2.map jobFields) :=
  sim_dequeueQueues [.high, .normal, .low] s

end Dequeue

theorem sim_ack (j : JobId) (g : GroupId) :
    Sim p (Scripts.ack (RedisKeyBuilder.job p j) (RedisKeyBuilder.groupMeta p g)) s
      ((L2.ack j g s).1, if (L2.ack j g s).2 then 1 else 0) := by
  let m := s.groupMeta g
  let counted : GroupMeta := { m with doneJobs := some (m.doneJobs.getD 0 + 1) }
  unfold Scripts.ack
  refine ((jobAt p j).hset rfl { s.jobs j with status := some .completed } (by funext f; cases f <;> rfl)).bind ?_
  refine ((metaAt p g).hincr rfl m.doneJobs counted rfl (by funext f; cases f <;> rfl)).bind ?_
  refine ((metaAt p g).hget ((metaAt p g).get_set _ _) .totalJobs).bind (sim_integer.bind ?_)
  by_cases hc : (s.groupMeta g).totalJobs.getD 0 ≤ (s.groupMeta g).doneJobs.getD 0 + 1
  · rw [if_pos (by exact_mod_cast hc)]
    refine ((metaAt p g).hset ((metaAt p g).get_set _ _) { counted with status := some .aggregating }
      (by funext f; cases f <;> rfl)).bind (.of_eq (.pure 1) ?_)
    rw [(metaAt p g).set_set]
    simp only [L2.ack, hc, decide_true, if_true]
    rfl
  · rw [if_neg (by exact_mod_cast hc)]
    refine .of_eq (.pure 0) ?_
    simp only [L2.ack, hc, decide_false, Bool.false_eq_true, if_false]
    rfl

/-! ## Backpressure -/

section RateLimit
variable (g : GroupId) (window : Nat)

/-- A counter set to `n`. -/
def counted (p : String) (s : Store) (g : GroupId) (window n : Nat) : Store :=
  { s with rateLimit := Function.update s.rateLimit (rateLimitGroup p g window) n }

theorem sim_activate :
    Sim p (sadd (RedisKeyBuilder.activeGroups p) g) s ({ s with activeGroups := Store.sadd s.activeGroups g }, ()) :=
  (activeAt p).sadd g

theorem sim_incrExpiring {ttl n : Nat} (ht : 0 < ttl) (hn : s.rateLimit (rateLimitGroup p g window) = n) :
    Sim p (Scripts.incrExpiring (rateLimitGroup p g window) ttl) s
      (counted p s g window (n + 1), ((n + 1 : Nat) : Int)) :=
  sim_counter g window _ fun _ h => incrExpiring_run ht (hn ▸ h)

/-- What was counted is taken back. -/
theorem sim_decrCounter {n : Nat} (hn : s.rateLimit (rateLimitGroup p g window) = n + 1) :
    Sim p (incrby (rateLimitGroup p g window) (-1)) s (counted p s g window n, (n : Int)) :=
  sim_counter g window n fun _ h => decrCounter_run (hn ▸ h)

/-- The reply as the table of the script. -/
def rateLimitReply (r : L2.RateLimitResult) : Scripts.RateLimitReply where
  allowed := if r.allowed then 1 else 0
  globalCount := r.globalCount
  globalLimit := r.globalLimit
  groupCount := r.groupCount
  perGroupLimit := r.perGroupLimit

section
variable {groupKey globalKey : String} {globalLimit n k : Nat} {g : GroupId}

theorem rateLimitCheck_overGlobal (hn : s.rateLimit globalKey = n) (hglobal : globalLimit < n + 1) :
    L2.rateLimitCheck groupKey globalKey globalLimit g s =
      ({ s with
          activeGroups := Store.sadd s.activeGroups g
          rateLimit := Function.update (Function.update s.rateLimit globalKey (n + 1)) globalKey n },
        ⟨false, n, globalLimit, 0, 0⟩) := by
  simp only [L2.rateLimitCheck, hn, Function.update_self, if_pos hglobal, Nat.add_sub_cancel]

theorem rateLimitCheck_overGroup (hn : s.rateLimit globalKey = n) (hglobal : ¬ globalLimit < n + 1)
    (hk : Function.update s.rateLimit globalKey (n + 1) groupKey = k)
    (hgroup : max 1 (globalLimit / max 1 (Store.sadd s.activeGroups g).length) < k + 1) :
    L2.rateLimitCheck groupKey globalKey globalLimit g s =
      ({ s with
          activeGroups := Store.sadd s.activeGroups g
          rateLimit := Function.update (Function.update (Function.update (Function.update s.rateLimit globalKey (n + 1))
            groupKey (k + 1)) groupKey k) globalKey n },
        ⟨false, n + 1, globalLimit, k, max 1 (globalLimit / max 1 (Store.sadd s.activeGroups g).length)⟩) := by
  -- the group's counter is as before, so the global one still counts this call
  have hback : Function.update (Function.update (Function.update s.rateLimit globalKey (n + 1)) groupKey (k + 1))
      groupKey k globalKey = n + 1 := by
    rw [Function.update_idem, ← hk, Function.update_eq_self, Function.update_self]
  simp only [L2.rateLimitCheck, hn, Function.update_self, if_neg hglobal, hk, if_pos hgroup, Nat.add_sub_cancel, hback]

theorem rateLimitCheck_allowed (hn : s.rateLimit globalKey = n) (hglobal : ¬ globalLimit < n + 1)
    (hk : Function.update s.rateLimit globalKey (n + 1) groupKey = k)
    (hgroup : ¬ max 1 (globalLimit / max 1 (Store.sadd s.activeGroups g).length) < k + 1) :
    L2.rateLimitCheck groupKey globalKey globalLimit g s =
      ({ s with
          activeGroups := Store.sadd s.activeGroups g
          rateLimit := Function.update (Function.update s.rateLimit globalKey (n + 1)) groupKey (k + 1) },
        ⟨true, n + 1, globalLimit, k + 1, max 1 (globalLimit / max 1 (Store.sadd s.activeGroups g).length)⟩) := by
  simp only [L2.rateLimitCheck, hn, Function.update_self, if_neg hglobal, hk, if_neg hgroup]

end

theorem sim_rateLimitCheck {ttl : Nat} (ht : 0 < ttl) (globalLimit : Nat) :
    Sim p (Scripts.rateLimitCheck (rateLimitGroup p g window) (rateLimitGlobal p window) (RedisKeyBuilder.activeGroups p)
        globalLimit g ttl) s
      ((L2.rateLimitCheck (rateLimitGroup p g window) (rateLimitGlobal p window) globalLimit g s).1,
        rateLimitReply (L2.rateLimitCheck (rateLimitGroup p g window) (rateLimitGlobal p window) globalLimit g s).2) := by
  rw [rateLimitGlobal_eq]
  obtain ⟨n, hn⟩ : ∃ n, s.rateLimit (rateLimitGroup p "global" window) = n := ⟨_, rfl⟩
  obtain ⟨k, hk⟩ : ∃ k, Function.update s.rateLimit (rateLimitGroup p "global" window) (n + 1)
      (rateLimitGroup p g window) = k := ⟨_, rfl⟩
  unfold Scripts.rateLimitCheck
  refine (sim_activate g).bind ((sim_incrExpiring "global" window ht (by exact hn)).bind ?_)
  by_cases hglobal : globalLimit < n + 1
  · rw [if_pos (by exact_mod_cast hglobal), rateLimitCheck_overGlobal hn hglobal]
    refine (sim_decrCounter "global" window (Function.update_self ..)).bind (.of_eq (.pure _) ?_)
    rw [Nat.cast_add, Nat.cast_one, add_sub_cancel_right]
    rfl
  rw [if_neg (by exact_mod_cast hglobal)]
  refine (activeAt p).scard.bind ((sim_incrExpiring g window ht (by exact hk)).bind ?_)
  by_cases hgroup : max 1 (globalLimit / max 1 (Store.sadd s.activeGroups g).length) < k + 1
  · rw [if_pos (by exact_mod_cast hgroup), rateLimitCheck_overGroup hn hglobal hk hgroup]
    refine (sim_decrCounter g window (Function.update_self ..)).bind ?_
    have hback : Function.update (Function.update (Function.update s.rateLimit (rateLimitGroup p "global" window) (n + 1))
        (rateLimitGroup p g window) (k + 1)) (rateLimitGroup p g window) k (rateLimitGroup p "global" window) = n + 1 := by
      rw [Function.update_idem, ← hk, Function.update_eq_self, Function.update_self]
    refine (sim_decrCounter "global" window (by exact hback)).bind (.of_eq (.pure _) ?_)
    rw [Nat.cast_add k, Nat.cast_one, add_sub_cancel_right]
    rfl
  · rw [if_neg (by exact_mod_cast hgroup), rateLimitCheck_allowed hn hglobal hk hgroup]
    exact .pure _

end RateLimit

theorem sim_readyQueuePush (j : JobId) (maxSize : Nat) :
    Sim p (Scripts.readyQueuePush (RedisKeyBuilder.readyQueue p) j maxSize) s
      ((L2.readyQueuePush maxSize j s).1, if (L2.readyQueuePush maxSize j s).2 then 1 else 0) := by
  unfold Scripts.readyQueuePush
  refine ((readyAt p).llen (show (readyAt p).get s = s.readyQueue from rfl)).bind ?_
  by_cases hs : s.readyQueue.length ≥ maxSize
  · rw [if_pos hs]
    refine .of_eq (.pure 0) ?_
    simp only [L2.readyQueuePush, not_lt.mpr hs, decide_false, Bool.false_eq_true, if_false]
  · rw [if_neg hs]
    refine ((readyAt p).rpush j).bind (.of_eq (.pure 1) ?_)
    simp only [L2.readyQueuePush, not_le.mp hs, decide_true, if_true]
    rfl

/-! ## Congestion -/

section Congestion
variable (g : GroupId)

/-- The count in the stats hash, no less than 0. -/
theorem sim_mirror (n : Int) :
    Sim p (hset (RedisKeyBuilder.congestionStats p g) [(.currentNonReadyCount, .int (max 0 n))]) s
      ((statsAt p g).set s { s.congestionStats g with currentNonReadyCount := some n.toNat }, ()) := by
  rw [max_comm, ← Int.toNat_eq_max]
  exact (statsAt p g).hset rfl _ (by funext f; cases f <;> rfl)

theorem sim_congestionRelease (k : Int) :
    Sim p (Scripts.congestionRelease (RedisKeyBuilder.congestionNonReadyCount p g) (RedisKeyBuilder.congestionStats p g) k)
      s ((L2.congestionRelease g k s).1, ((L2.congestionRelease g k s).2 : Int)) := by
  unfold Scripts.congestionRelease
  refine (sim_decrClamped g k).bind ((sim_mirror g _).bind (.of_eq (.pure _) ?_))
  rw [max_comm, ← Int.toNat_eq_max]
  rfl

theorem sim_moveJob (j : JobId) :
    Sim p (Scripts.moveJob (RedisKeyBuilder.nonReadyQueue p) (RedisKeyBuilder.readyQueue p) p j) s
      (L2.moveJob s j, ()) := by
  let moved : Store := { s with
    nonReadyQueue := s.nonReadyQueue.zrem j
    readyQueue := s.readyQueue ++ [j] }
  have hread : Sim p (hget (Lua.moveToReadyJobKey p j) .groupId) moved (moved, (s.jobs j).groupId.map .text) :=
    (jobAt p j).hget rfl .groupId
  unfold Scripts.moveJob L2.moveJob
  refine ((nonReadyAt p).zrem j).bind (((readyAt p).rpush j).bind (hread.bind ?_))
  cases (s.jobs j).groupId with
  | none => exact .pure ()
  | some g => exact sim_text.bind ((sim_decrClamped g 1).bind (sim_mirror g _))

theorem sim_moveToReady (currentTimeMs maxBatchSize : Nat) :
    Sim p (Scripts.moveToReady (RedisKeyBuilder.nonReadyQueue p) (RedisKeyBuilder.readyQueue p) currentTimeMs
        maxBatchSize p) s (L2.moveToReady currentTimeMs maxBatchSize s) := by
  unfold Scripts.moveToReady
  refine ((nonReadyAt p).zrangebyscore currentTimeMs maxBatchSize).bind ?_
  have hloop := Core.Simulates.foldlM (g := fun r j => (L2.moveJob r.1 j, ()))
    (fun _ _ j => sim_moveJob (p := p) j) (s.nonReadyQueue.rangeByScore currentTimeMs maxBatchSize) s ()
  exact (hloop.of_eq (List.foldl_hom (fun s => (s, ())) fun _ _ => rfl)).bind (.pure _)

/-- The integers of the script are the naturals of the function. -/
theorem cast_rateLimitSpeed (globalRps activeGroups : Nat) :
    (max 1 (globalRps / (activeGroups : Int)) : Int) = (max 1 (globalRps / activeGroups) : Nat) := by
  push_cast
  rfl

theorem cast_backoffMs (baseBackoffMs nonReadyCount rateLimitSpeed maxBackoffMs : Nat) :
    (min (baseBackoffMs + nonReadyCount / (rateLimitSpeed : Int) * 1000) maxBackoffMs : Int) =
      (min (baseBackoffMs + nonReadyCount / rateLimitSpeed * 1000) maxBackoffMs : Nat) := by
  push_cast
  rfl

theorem sim_congestionBackoff (globalRps baseBackoffMs maxBackoffMs currentTimeMs : Nat) (j : JobId) :
    Sim p (Scripts.congestionBackoff (RedisKeyBuilder.nonReadyQueue p) (RedisKeyBuilder.congestionStats p g)
        (RedisKeyBuilder.congestionNonReadyCount p g) (RedisKeyBuilder.activeGroups p) j globalRps baseBackoffMs
        maxBackoffMs currentTimeMs) s
      ((L2.congestionBackoff globalRps baseBackoffMs maxBackoffMs j g currentTimeMs s).1,
        (L2.congestionBackoff globalRps baseBackoffMs maxBackoffMs j g currentTimeMs s).2.backoffMs,
        (L2.congestionBackoff globalRps baseBackoffMs maxBackoffMs j g currentTimeMs s).2.nonReadyCount,
        (L2.congestionBackoff globalRps baseBackoffMs maxBackoffMs j g currentTimeMs s).2.rateLimitSpeed) := by
  let nonReadyCount := (s.congestionNonReadyCount g).getD 0 + 1
  let rateLimitSpeed := max 1 (globalRps / max 1 s.activeGroups.length)
  let backoffMs := min (baseBackoffMs + nonReadyCount / rateLimitSpeed * 1000) maxBackoffMs
  let s₁ := (countAt p g).set s (some nonReadyCount)
  have hactive : Sim p (scard (RedisKeyBuilder.activeGroups p)) s₁ (s₁, s.activeGroups.length) :=
    (activeAt p).scard
  unfold Scripts.congestionBackoff
  refine (sim_incrCount g).bind (hactive.bind ?_)
  simp only [cast_rateLimitSpeed, cast_backoffMs]
  rw [show (currentTimeMs : ℚ) + ((backoffMs : Int) : ℚ) = ((currentTimeMs + backoffMs : Nat) : ℚ) by push_cast; rfl]
  refine ((nonReadyAt p).zadd j _).bind ?_
  refine ((statsAt p g).hset rfl
    { currentNonReadyCount := some nonReadyCount
      lastBackoffMs := some backoffMs
      rateLimitSpeed := some rateLimitSpeed
      lastUpdatedMs := some currentTimeMs } (by funext f; cases f <;> rfl)).bind (.pure _)

end Congestion

/-! ## Results, status and locks -/

theorem sim_recordJobResult (r : JobProcessorResponse) (nowMs : Nat) :
    Sim p (Scripts.recordJobResult (RedisKeyBuilder.groupMeta p r.groupId) (RedisKeyBuilder.groupJobResults p r.groupId)
        (if r.success then "success" else "failed") (.response r) nowMs) s
      ((L2.recordJobResult r nowMs s).1, if (L2.recordJobResult r nowMs s).2.isGroupComplete then 1 else 0,
        (L2.recordJobResult r nowMs s).2.successCount, (L2.recordJobResult r nowMs s).2.failedCount,
        (L2.recordJobResult r nowMs s).2.totalJobs) := by
  let g := r.groupId
  let m := s.groupMeta g
  let counted : GroupMeta := { m with
    successCount := if r.success then some (m.successCount.getD 0 + 1) else m.successCount
    failedCount := if r.success then m.failedCount else some (m.failedCount.getD 0 + 1) }
  let started : GroupMeta := { counted with firstJobStartedAt := some (m.firstJobStartedAt.getD nowMs) }
  let updated : GroupMeta := { started with lastUpdatedAt := some nowMs }
  obtain ⟨n, hincr⟩ : ∃ n, Sim p (hincrby (RedisKeyBuilder.groupMeta p g)
      (if (if r.success then "success" else "failed") = "success" then .successCount else .failedCount) 1) s
      ((metaAt p g).set s counted, n) := by
    cases hr : r.success with
    | true =>
      refine ⟨_, (metaAt p g).hincr rfl m.successCount counted rfl ?_⟩
      simp only [counted, hr]
      funext f
      cases f <;> rfl
    | false =>
      refine ⟨_, (metaAt p g).hincr rfl m.failedCount counted rfl ?_⟩
      simp only [counted, hr]
      funext f
      cases f <;> rfl
  have hkept : (metaAt p g).get ((jobResultsAt p g).set ((metaAt p g).set s counted) (s.groupJobResults g ++ [r])) =
      counted := (metaAt p g).get_set s counted
  unfold Scripts.recordJobResult
  refine hincr.bind (((jobResultsAt p g).rpush r).bind ?_)
  refine ((metaAt p g).hsetnx hkept m.firstJobStartedAt started rfl (by funext f; cases f <;> rfl)).bind ?_
  refine ((metaAt p g).hset ((metaAt p g).get_set _ _) updated (by funext f; cases f <;> rfl)).bind ?_
  refine ((metaAt p g).hget ((metaAt p g).get_set _ _) .successCount).bind (sim_integer.bind ?_)
  refine ((metaAt p g).hget ((metaAt p g).get_set _ _) .failedCount).bind (sim_integer.bind ?_)
  refine ((metaAt p g).hget ((metaAt p g).get_set _ _) .totalJobs).bind (sim_integer.bind (.of_eq (.pure _) ?_))
  have hstore : (metaAt p g).set ((metaAt p g).set ((jobResultsAt p g).set ((metaAt p g).set s counted)
      (s.groupJobResults g ++ [r])) started) updated = (L2.recordJobResult r nowMs s).1 := by
    rw [(metaAt p g).set_set]
    exact (metaAt p g).set_set ((jobResultsAt p g).set s (s.groupJobResults g ++ [r])) counted updated
  have hcomplete : (updated.successCount.getD 0 : Int) + updated.failedCount.getD 0 ≥ updated.totalJobs.getD 0 ∧
      (updated.totalJobs.getD 0 : Int) > 0 ↔ (L2.recordJobResult r nowMs s).2.isGroupComplete = true :=
    Iff.trans (by norm_cast) decide_eq_true_iff.symm
  exact Prod.ext hstore (Prod.ext (if_congr hcomplete rfl rfl) rfl)

/-- The status compared by its text. -/
theorem status_eq_iff {status : Option GroupStatus} {st : GroupStatus} :
    (status.map fun st => Datum.text st.text) = some (.text st.text) ↔ status = some st := by
  cases status with
  | none => exact iff_of_false nofun nofun
  | some st' => simp only [Option.map_some, Option.some.injEq, Datum.text.injEq, GroupStatus.text_inj]

theorem sim_transitionStatus (g : GroupId) (source target : GroupStatus) (nowMs : Nat) :
    Sim p (Scripts.transitionStatus (RedisKeyBuilder.groupMeta p g) source.text target.text nowMs) s
      ((L2.transitionStatus g source target nowMs s).1,
        if (L2.transitionStatus g source target nowMs s).2 then 1 else 0) := by
  let moved : GroupMeta := { s.groupMeta g with status := some target }
  let updated : GroupMeta := { moved with lastUpdatedAt := some nowMs }
  have hread : Sim p (hget (RedisKeyBuilder.groupMeta p g) .status) s
      (s, (s.groupMeta g).status.map fun st => .text st.text) := (metaAt p g).hget rfl .status
  unfold Scripts.transitionStatus
  refine hread.bind ?_
  by_cases hs : (s.groupMeta g).status = some source
  · rw [if_neg (not_not_intro (status_eq_iff.mpr hs)), L2.transitionStatus, if_pos hs]
    refine ((metaAt p g).hset rfl moved (by funext f; cases f <;> rfl)).bind ?_
    refine ((metaAt p g).hset ((metaAt p g).get_set _ _) updated (by funext f; cases f <;> rfl)).bind ?_
    rw [(metaAt p g).set_set]
    have hstamp : ∀ (field : Field) (m' : GroupMeta),
        [(field, nat nowMs)].foldl Hash.set (metaFields updated) = metaFields m' →
        Sim p (do hset (RedisKeyBuilder.groupMeta p g) [(field, nat nowMs)]; return (1 : Int))
          ((metaAt p g).set s updated) ((metaAt p g).set s m', 1) := by
      intro field m' he
      refine ((metaAt p g).hset ((metaAt p g).get_set _ _) m' he).bind (.of_eq (.pure 1) ?_)
      rw [(metaAt p g).set_set]
    cases target with
    | aggregating => exact hstamp .aggregationStartAt _ (by funext f; cases f <;> rfl)
    | completed => exact hstamp .completedAt _ (by funext f; cases f <;> rfl)
    | failed => exact hstamp .failedAt _ (by funext f; cases f <;> rfl)
    | created => exact .pure 1
    | dispatched => exact .pure 1
    | running => exact .pure 1
  · rw [if_pos (mt status_eq_iff.mp hs), L2.transitionStatus, if_neg hs]
    exact .pure 0

theorem lockKey_eq (k : LockKey) : lockKey p k = (lockAt p k).key := by
  cases k <;> rfl

theorem sim_acquireLock (k : LockKey) (token : String) {ttl : Nat} (ht : 0 < ttl) :
    Sim p (Scripts.acquireLock (lockKey p k) token ttl) s
      ((L2.acquireLock k token s).1, if (L2.acquireLock k token s).2 then 1 else 0) := by
  have hset : Sim p (setNxPx (lockAt p k).key (.text token) ttl) s
      ((lockAt p k).set s (some ((s.locks k).getD token)), (s.locks k).isNone) :=
    (lockAt p k).writes _ fun _ h => setNxPx_run ht h
  rw [lockKey_eq]
  unfold Scripts.acquireLock L2.acquireLock
  refine hset.bind ?_
  cases hk : s.locks k with
  | none => exact .pure 1
  | some owner =>
    have hsame : (lockAt p k).set s (some owner) = s := by
      rw [← hk]
      exact (lockAt p k).set_get s
    exact .of_eq (.pure 0) (Prod.ext hsame rfl)

theorem sim_releaseLock (k : LockKey) (token : String) :
    Sim p (Scripts.releaseLock (lockKey p k) token) s
      ((L2.releaseLock k token s).1, if (L2.releaseLock k token s).2 then 1 else 0) := by
  have hread : Sim p (getString (lockAt p k).key) s (s, (s.locks k).map .text) :=
    (lockAt p k).reads fun _ h => getString_lockCell h
  have hdel : Sim p (del [(lockAt p k).key]) s ((lockAt p k).set s none, ()) :=
    (lockAt p k).writes none fun _ _ => del_run
  have howner : (s.locks k).map Datum.text = some (.text token) ↔ s.locks k = some token := by
    cases s.locks k with
    | none => exact iff_of_false nofun nofun
    | some owner => simp only [Option.map_some, Option.some.injEq, Datum.text.injEq]
  rw [lockKey_eq]
  unfold Scripts.releaseLock L2.releaseLock
  refine hread.bind ?_
  by_cases hk : s.locks k = some token
  · rw [if_neg (not_not_intro (howner.mpr hk)), if_pos hk]
    exact hdel.bind (.pure 1)
  · rw [if_pos (mt howner.mp hk), if_neg hk]
    exact .pure 0

/-! ## In-flight queue -/

theorem sim_reliableDequeue (ackTimeoutMs : Nat) (workerId instanceId : String) (retryCount : Nat) (g : GroupId)
    (nowMs : Nat) :
    Sim p (Scripts.reliableDequeue (RedisKeyBuilder.readyQueue p) (RedisKeyBuilder.inFlightQueue p)
        (RedisKeyBuilder.inFlightMetaPrefix p) ackTimeoutMs workerId instanceId (nat retryCount) g nowMs) s
      (L2.reliableDequeue ackTimeoutMs workerId instanceId retryCount g nowMs s) := by
  unfold Scripts.reliableDequeue L2.reliableDequeue
  cases hq : s.readyQueue with
  | nil => exact ((readyAt p).lpop_nil hq).bind (.pure none)
  | cons j rest =>
    refine ((readyAt p).lpop_cons hq).bind (sim_text.bind ?_)
    refine ((inFlightAt p).zadd j _).bind ?_
    refine ((inFlightMetaAt p j).hset rfl
      { jobId := some j
        workerId := some workerId
        instanceId := some instanceId
        deadline := some (nowMs + ackTimeoutMs)
        dequeuedAt := some nowMs
        retryCount := some retryCount
        groupId := some g } (by funext f; cases f <;> rfl)).bind (.pure _)

theorem sim_reliableAck (j : JobId) :
    Sim p (Scripts.reliableAck (RedisKeyBuilder.inFlightQueue p) (RedisKeyBuilder.inFlightMetaPrefix p) j) s
      ((L2.reliableAck j s).1, if (L2.reliableAck j s).2 then 1 else 0) := by
  unfold Scripts.reliableAck
  refine ((inFlightAt p).zrem j).bind (((inFlightMetaAt p j).del {} rfl).bind (.of_eq (.pure _) ?_))
  simp only [L2.reliableAck, decide_eq_true_eq]
  rfl

theorem sim_extendDeadline (j : JobId) (extensionMs nowMs : Nat) :
    Sim p (Scripts.extendDeadline (RedisKeyBuilder.inFlightQueue p) (RedisKeyBuilder.inFlightMetaPrefix p) j extensionMs
        nowMs) s
      ((L2.extendDeadline j extensionMs nowMs s).1, if (L2.extendDeadline j extensionMs nowMs s).2 then 1 else 0) := by
  have hread : Sim p (zscore (RedisKeyBuilder.inFlightQueue p) j) s (s, (scores s.inFlightQueue).score j) :=
    (inFlightAt p).zscore j
  have hmem : j ∈ s.inFlightQueue ↔ ((scores s.inFlightQueue).score j).isSome = true := by
    rw [Option.isSome_iff_exists, ← Core.ZSet.mem_iff_score]
    exact (Core.ZSet.mem_mapScore ..).symm
  unfold Scripts.extendDeadline L2.extendDeadline
  refine hread.bind ?_
  cases hs : (scores s.inFlightQueue).score j with
  | none =>
    rw [if_neg (by rw [hmem, hs]; exact Bool.false_ne_true)]
    exact .pure 0
  | some score =>
    rw [if_pos (by rw [hmem, hs]; rfl)]
    refine ((inFlightAt p).zadd j _).bind ?_
    exact ((inFlightMetaAt p j).hset rfl { s.inFlightMeta j with deadline := some (nowMs + extensionMs) }
      (by funext f; cases f <;> rfl)).bind (.pure 1)

section Orphans
variable (j : JobId) (nowMs maxRetryCount : Nat)

/-- By the metadata if there is any, else by the job hash. -/
theorem sim_orphan :
    Sim p (Scripts.orphan (inFlightFields (s.inFlightMeta j)) (RedisKeyBuilder.job p j)) s
      (s, (L2.orphanRetryCount s j : Int), L2.orphanGroupId s j) := by
  have hread : Sim p (hget (RedisKeyBuilder.job p j) .groupId) s (s, (s.jobs j).groupId.map .text) :=
    (jobAt p j).hget rfl .groupId
  unfold Scripts.orphan L2.orphanRetryCount L2.orphanGroupId
  by_cases hm : s.inFlightMeta j = {}
  · rw [if_pos (inFlightFields_isEmpty.mpr hm), if_pos hm, if_pos hm]
    refine ((jobAt p j).hget rfl .retryCount).bind (sim_integer.bind (hread.bind ?_))
    cases (s.jobs j).groupId with
    | none => exact .pure _
    | some g => exact sim_text.bind (.pure _)
  · rw [if_neg (mt inFlightFields_isEmpty.mp hm), if_neg hm, if_neg hm]
    have hgroup : inFlightFields (s.inFlightMeta j) .groupId = (s.inFlightMeta j).groupId.map .text := rfl
    refine sim_integer.bind ?_
    rw [hgroup]
    cases (s.inFlightMeta j).groupId with
    | none => exact .pure _
    | some g => exact sim_text.bind (.pure _)

/-- The loop counts one outcome. -/
def recorded (done : Scripts.Recovery) : Option (JobId × GroupId) → Scripts.Recovery
  | none => { done with recovered := done.recovered + 1 }
  | some dead => { done with
      deadLettered := done.deadLettered + 1
      deadLetteredPairs := done.deadLetteredPairs ++ [dead] }

theorem sim_recoverOrphan (done : Scripts.Recovery) :
    Sim p (Scripts.recoverOrphan (RedisKeyBuilder.inFlightQueue p) (RedisKeyBuilder.readyQueue p)
        (RedisKeyBuilder.deadLetterQueue p) (RedisKeyBuilder.inFlightMetaPrefix p) nowMs maxRetryCount
        (RedisKeyBuilder.jobKeyPrefix p) done j) s
      ((L2.recoverOrphan nowMs maxRetryCount s j).1, recorded done (L2.recoverOrphan nowMs maxRetryCount s j).2) := by
  let s₁ := (inFlightAt p).set s (s.inFlightQueue.zrem j)
  have hmeta : Sim p (hgetall (RedisKeyBuilder.inFlightMeta p j)) s₁ (s₁, inFlightFields (s.inFlightMeta j)) :=
    (inFlightMetaAt p j).hgetall rfl
  have horphan : Sim p (Scripts.orphan (inFlightFields (s.inFlightMeta j)) (RedisKeyBuilder.job p j)) s₁
      (s₁, (L2.orphanRetryCount s j : Int), L2.orphanGroupId s j) := sim_orphan j
  unfold Scripts.recoverOrphan
  refine ((inFlightAt p).zrem j).bind (hmeta.bind (horphan.bind (((inFlightMetaAt p j).del {} rfl).bind ?_)))
  by_cases hr : maxRetryCount ≤ L2.orphanRetryCount s j
  · rw [if_pos (by exact_mod_cast hr)]
    refine ((deadLettersAt p).rpush _).bind ?_
    refine ((jobAt p j).hset rfl { s.jobs j with status := some .failed } (by funext f; cases f <;> rfl)).bind
      (.of_eq (.pure _) ?_)
    simp only [L2.recoverOrphan, if_pos hr]
    rfl
  · rw [if_neg (by exact_mod_cast hr)]
    let counted : JobHash := { s.jobs j with retryCount := some ((s.jobs j).retryCount.getD 0 + 1) }
    refine ((jobAt p j).hincr rfl (s.jobs j).retryCount counted rfl (by funext f; cases f <;> rfl)).bind ?_
    refine ((jobAt p j).hset ((jobAt p j).get_set _ _) { counted with status := some .pending }
      (by funext f; cases f <;> rfl)).bind ?_
    rw [(jobAt p j).set_set]
    refine ((readyAt p).rpush j).bind (.of_eq (.pure _) ?_)
    simp only [L2.recoverOrphan, if_neg hr]
    rfl

end Orphans

theorem foldl_recorded (outcomes : List (Option (JobId × GroupId))) : ∀ done : Scripts.Recovery,
    outcomes.foldl recorded done =
      ⟨done.recovered + outcomes.countP Option.isNone, done.deadLettered + outcomes.countP Option.isSome,
        done.deadLetteredPairs ++ outcomes.filterMap id⟩ := by
  induction outcomes with
  | nil =>
    intro done
    simp
  | cons o outcomes ih =>
    intro done
    rw [List.foldl_cons, ih]
    cases o with
    | none => simp [recorded, Nat.add_assoc, Nat.add_comm 1]
    | some dead => simp [recorded, Nat.add_assoc, Nat.add_comm 1]

theorem foldl_recoverOrphan (nowMs maxRetryCount : Nat) (js : List JobId) : ∀ (s : Store) (done : Scripts.Recovery),
    js.foldl (fun r j => ((L2.recoverOrphan nowMs maxRetryCount r.1 j).1,
        recorded r.2 (L2.recoverOrphan nowMs maxRetryCount r.1 j).2)) (s, done) =
      ((L2.recoverBatch nowMs maxRetryCount s js).1, (L2.recoverBatch nowMs maxRetryCount s js).2.foldl recorded done) := by
  induction js with
  | nil => exact fun _ _ => rfl
  | cons j js ih => exact fun s done => ih _ _

theorem sim_recoverOrphans (nowMs batchSize maxRetryCount : Nat) :
    Sim p (Scripts.recoverOrphans (RedisKeyBuilder.inFlightQueue p) (RedisKeyBuilder.readyQueue p)
        (RedisKeyBuilder.deadLetterQueue p) (RedisKeyBuilder.inFlightMetaPrefix p) nowMs batchSize maxRetryCount
        (RedisKeyBuilder.jobKeyPrefix p)) s
      ((L2.recoverOrphans nowMs batchSize maxRetryCount s).1,
        ⟨(L2.recoverOrphans nowMs batchSize maxRetryCount s).2.recovered,
          (L2.recoverOrphans nowMs batchSize maxRetryCount s).2.deadLettered,
          (L2.recoverOrphans nowMs batchSize maxRetryCount s).2.pairs⟩) := by
  unfold Scripts.recoverOrphans
  refine ((inFlightAt p).zrangebyscore nowMs batchSize).bind ?_
  have hloop := Core.Simulates.foldlM
    (g := fun r j => ((L2.recoverOrphan nowMs maxRetryCount r.1 j).1,
      recorded r.2 (L2.recoverOrphan nowMs maxRetryCount r.1 j).2))
    (fun _ done j => sim_recoverOrphan (p := p) j nowMs maxRetryCount done)
    (s.inFlightQueue.rangeByScore nowMs batchSize) s {}
  refine hloop.of_eq ?_
  rw [foldl_recoverOrphan, foldl_recorded]
  simp only [Nat.zero_add, List.nil_append]
  rfl

end
end NestPlayground.L6
