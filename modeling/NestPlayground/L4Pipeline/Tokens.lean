import NestPlayground.L4Pipeline.Duties

/-!
# A job is one token

A job that was popped from its group is in the ready queue, in the non-ready
queue, in flight, or in the hands of an activity, until it is spent: recorded,
or counted as done. `token_step` is the balance of one call: nothing is copied
as long as no ack is late and no dead letter is put back.
-/
namespace NestPlayground.L4
open L1 L3

/-- How often `j` waits for a delivery. -/
def waiting (j : JobId) (s : Store) : Nat := s.readyQueue.count j + s.nonReadyQueue.members.count j

/-- How often `j` is in the three queues between the fetcher and the result. -/
def queued (j : JobId) (s : Store) : Nat :=
  s.readyQueue.count j + s.nonReadyQueue.members.count j + s.inFlightQueue.members.count j

/-- The duties that stand for the token of `j`: up to its record, or (`late`) up
to its count as done. A job in flight has its token in the queue. -/
def Duty.token (late : Bool) (j : JobId) : Duty → Bool
  | .queue j' => j' = j
  | .work _ => false
  | .park j' => j' = j
  | .bury j' _ => j' = j
  | .report j' _ => j' = j
  | .record j' _ => j' = j
  | .settle j' _ => late && j' = j

/-- A dead letter put back. -/
def retries : Cmd → Option JobId
  | .readyAppend j => some j
  | _ => none

/-- An ack or a nack. -/
def returns : Cmd → Option JobId
  | .reliableAck j => some j
  | _ => none

/-- The jobs a call spends. -/
def spends (late : Bool) (cmd : Cmd) : List (JobId × GroupId) :=
  if late then (acks cmd).toList else (records cmd).toList

section
variable {reg : Registry} {E : List (JobId × GroupId)} {cmd : Cmd} {r : Reply cmd} {inp : Input} {s : Store}
  {ds ds' : List Duty} {j : JobId} {late : Bool}

theorem queued_sameQueues {s' : Store} (h : SameQueues s s') (j : JobId) : queued j s' = queued j s := by
  simp only [queued, h.ready, h.nonReady, h.inFlight]

/-- A batch from the non-ready queue to the ready queue. -/
theorem waiting_moveToReady (j : JobId) : waiting j (exec reg .moveToReady inp s).1 = waiting j s := by
  obtain ⟨counts, stats, he⟩ := @moveToReady_frame reg inp s
  have := Core.ZSet.count_foldl_zrem (Core.ZSet.nodup_rangeByScore s.nonReadyQueue inp.now
    reg.config.backpressure.dispatchBatchSize) (fun m hm => Core.ZSet.mem_of_mem_rangeByScore hm) j
  simp only [waiting, he, List.count_append]
  omega

/-- A call that adds at most `n` waiting jobs and does not touch those in flight. -/
theorem queued_le_of_waiting {s' : Store} {n : Nat} (hf : s'.inFlightQueue = s.inFlightQueue)
    (h : waiting j s' ≤ waiting j s + n) : queued j s' ≤ queued j s + n := by
  unfold waiting at h
  simp only [queued, hf]
  omega

theorem queued_moveToReady (j : JobId) : queued j (exec reg .moveToReady inp s).1 = queued j s := by
  have hw := @waiting_moveToReady reg inp s j
  obtain ⟨counts, stats, he⟩ := @moveToReady_frame reg inp s
  simp only [waiting, he] at hw
  simp only [queued, he]
  omega

theorem queued_extendDeadline (j k : JobId) : queued j (exec reg (.extendDeadline k) inp s).1 = queued j s := by
  simp only [exec, L2.extendDeadline]
  split
  · rename_i hk
    simp only [queued, Core.ZSet.count_zadd]
    split
    · rename_i he
      subst he
      rw [Core.ZSet.count_members s.inFlightQueue, if_pos hk]
    · rfl
  · rfl

/-- The calls by which no job changes hands leave the queues alone, but for a
dead letter put back. -/
theorem queued_idle (h : carries cmd = false) (hr : retries cmd = none) (j : JobId) :
    queued j (exec reg cmd inp s).1 = queued j s := by
  cases cmd with
  | moveToReady => exact queued_moveToReady j
  | extendDeadline k => exact queued_extendDeadline j k
  | readyAppend k => cases hr
  | enqueue req => rfl
  | dlqAppend e => rfl
  | dlqPopHead => rfl
  | dlqDelete => rfl
  | _ => first | exact queued_sameQueues (queues_frame rfl) j | cases h

/-- An orphan goes to the ready queue or is reported. -/
theorem queued_recoverOrphans (j : JobId) :
    queued j (exec reg .recoverOrphans inp s).1 +
      (exec reg .recoverOrphans inp s).2.pairs.countP (·.1 = j) = queued j s := by
  obtain ⟨dead, jobs, he, hp, -⟩ := L2.recoverOrphans_spec inp.now reg.config.reliableQueue.maxRetryCount
    reg.config.reliableQueue.orphanRecoveryBatchSize s
  have hn := Core.ZSet.nodup_rangeByScore s.inFlightQueue inp.now
    reg.config.reliableQueue.orphanRecoveryBatchSize
  have hflight := Core.ZSet.count_foldl_zrem hn (fun m hm => mem_expired hm) j
  have hsplit := L2.count_orphans reg.config.reliableQueue.maxRetryCount s
    (s.inFlightQueue.rangeByScore inp.now reg.config.reliableQueue.orphanRecoveryBatchSize) j
  simp only [queued, exec, he, hp, List.count_append]
  omega

theorem queued_dequeue (j : JobId) : queued j (exec reg .dequeue inp s).1 = queued j s := by
  obtain ⟨_, _, _, he⟩ := @dequeue_frame reg inp s
  rw [he]
  rfl

/-- Putting a job into a queue adds at most its token. -/
theorem waiting_push_le (j k : JobId) :
    waiting j (exec reg (.readyQueuePush k) inp s).1 ≤ waiting j s + if k = j then 1 else 0 := by
  simp only [waiting, exec, L2.readyQueuePush]
  split
  · rw [List.count_append, List.count_singleton]
    simp only [beq_iff_eq]
    omega
  · exact Nat.le_add_right _ _

theorem waiting_park_le {s' : Store} {k : JobId} (hr : s'.readyQueue = s.readyQueue)
    (hz : ∃ score, s'.nonReadyQueue = s.nonReadyQueue.zadd score k) (j : JobId) :
    waiting j s' ≤ waiting j s + if k = j then 1 else 0 := by
  obtain ⟨score, hz⟩ := hz
  simp only [waiting, hr, hz, Core.ZSet.count_zadd]
  by_cases h : j = k
  · subst h
    simp only [if_true]
    omega
  · simp only [if_neg h, if_neg (Ne.symm h)]
    omega

theorem queued_push_le (j k : JobId) :
    queued j (exec reg (.readyQueuePush k) inp s).1 ≤ queued j s + if k = j then 1 else 0 := by
  apply queued_le_of_waiting
  · simp only [exec, L2.readyQueuePush]
  · exact waiting_push_le j k

theorem queued_nonReady_le {z : Core.ZSet JobId Nat} {counts : GroupId → Option Nat}
    {stats : GroupId → CongestionStats} {score : Nat} (j k : JobId) (hz : z = s.nonReadyQueue.zadd score k) :
    queued j { s with
      nonReadyQueue := z
      congestionNonReadyCount := counts
      congestionStats := stats } ≤ queued j s + if k = j then 1 else 0 := by
  apply queued_le_of_waiting
  · rfl
  · refine waiting_park_le ?_ ?_ j
    · rfl
    · exact ⟨score, hz⟩

/-- Handing a job out moves its token from the ready queue into flight. -/
theorem queued_reliableDequeue_le {w i : String} {n : Nat} {g : GroupId} (j : JobId) :
    queued j (exec reg (.reliableDequeue w i n g) inp s).1 ≤ queued j s := by
  simp only [exec, L2.reliableDequeue]
  split
  · exact le_refl _
  · rename_i k rest hr
    simp only [queued, hr, Core.ZSet.count_zadd, List.count_cons, beq_iff_eq]
    by_cases h : j = k
    · subst h
      simp only [if_true]
      omega
    · simp only [if_neg h, if_neg (Ne.symm h)]
      omega

/-- An ack that is not late takes the token out of flight. -/
theorem queued_reliableAck {k : JobId} (j : JobId) (h : k ∈ s.inFlightQueue) :
    queued j (exec reg (.reliableAck k) inp s).1 + (if k = j then 1 else 0) = queued j s := by
  simp only [queued, exec, L2.reliableAck, Core.ZSet.count_zrem]
  by_cases hj : j = k
  · subst hj
    rw [Core.ZSet.count_members s.inFlightQueue, if_pos h]
    simp only [if_true]
  · simp only [if_neg hj, if_neg (Ne.symm hj)]
    omega

theorem countP_pairDuties (pairs : List (JobId × GroupId)) (late : Bool) (j : JobId) :
    (pairDuties pairs).countP (Duty.token late j) = pairs.countP (·.1 = j) := by
  rw [pairDuties, List.countP_map]
  rfl

theorem spends_eq_nil (hr : records cmd = none) (ha : acks cmd = none) (late : Bool) : spends late cmd = [] := by
  cases late
  · simp [spends, hr]
  · simp [spends, ha]

theorem fetches_eq_none (h : cmd ≠ .dequeue) : fetches cmd r = none := by
  cases cmd <;> first | rfl | exact absurd rfl h

theorem not_spends_of_idle (h : carries cmd = false) : records cmd = none ∧ acks cmd = none := by
  cases cmd <;> first | exact ⟨rfl, rfl⟩ | cases h

/-- The balance of one call. -/
theorem token_step (hm : Moves reg E cmd r ds ds') (hr : (exec reg cmd inp s).2 = r)
    (hretry : retries cmd = none) (hflight : ∀ k ∈ returns cmd, k ∈ s.inFlightQueue) :
    queued j (exec reg cmd inp s).1 + (spends late cmd).countP (·.1 = j) + ds'.countP (Duty.token late j) ≤
      queued j s + ds.countP (Duty.token late j) + (fetches cmd r).toList.countP (·.1 = j) := by
  cases hm with
  | idle h =>
    obtain ⟨h1, h2⟩ := not_spends_of_idle h
    rw [queued_idle h hretry, spends_eq_nil h1 h2, List.countP_nil]
    omega
  | abandoned h =>
    obtain ⟨h1, h2⟩ := not_spends_of_idle h
    rw [queued_idle h hretry, spends_eq_nil h1 h2, List.countP_nil, List.countP_nil]
    omega
  | nothing =>
    rw [queued_dequeue, spends_eq_nil rfl rfl, List.countP_nil]
    omega
  | fetched h =>
    rw [queued_dequeue, spends_eq_nil rfl rfl]
    simp [fetches, Duty.token, h, List.countP_cons]
  | refused h =>
    rw [queued_idle rfl hretry, spends_eq_nil rfl rfl, List.countP_nil, List.countP_nil]
    omega
  | @pushed k b =>
    have := @queued_push_le reg inp s j k
    rw [spends_eq_nil rfl rfl]
    simp only [List.countP_cons, List.countP_nil, Duty.token, decide_eq_true_eq]
    omega
  | @backedOff k g r | @parked k g r =>
    rw [spends_eq_nil rfl rfl]
    simp only [List.countP_cons, List.countP_nil, Duty.token, decide_eq_true_eq]
    have : queued j (exec reg (.congestionBackoff k g) inp s).1 ≤ queued j s + if k = j then 1 else 0 :=
      queued_nonReady_le j k rfl
    omega
  | @backedOffFixed k | @parkedFixed k =>
    rw [spends_eq_nil rfl rfl]
    simp only [List.countP_cons, List.countP_nil, Duty.token, decide_eq_true_eq]
    have : queued j (exec reg (.nonReadyAdd k) inp s).1 ≤ queued j s + if k = j then 1 else 0 :=
      queued_nonReady_le j k rfl
    omega
  | idling | delivered =>
    have := @queued_reliableDequeue_le reg inp s
    rw [spends_eq_nil rfl rfl]
    simp only [List.countP_cons, List.countP_nil, Duty.token]
    refine le_trans (Nat.add_le_add_right (Nat.add_le_add_right (this j) _) _) ?_
    simp
  | cleaned =>
    have := @queued_reliableAck reg inp s _ j (hflight _ rfl)
    rw [spends_eq_nil rfl rfl]
    simp only [List.countP_cons, List.countP_nil, Duty.token]
    omega
  | acked | nacked | nackedOut =>
    have := @queued_reliableAck reg inp s _ j (hflight _ rfl)
    rw [spends_eq_nil rfl rfl]
    simp only [List.countP_cons, List.countP_nil, Duty.token, decide_eq_true_eq]
    omega
  | @buried k g n e =>
    have : queued j (exec reg (.deadLetter k g n e) inp s).1 = queued j s := rfl
    rw [spends_eq_nil rfl rfl, this]
    simp only [List.countP_cons, List.countP_nil, Duty.token, decide_eq_true_eq]
    omega
  | @recovered r =>
    have := @queued_recoverOrphans reg inp s j
    rw [spends_eq_nil rfl rfl, countP_pairDuties, ← hr]
    simp only [List.countP_nil]
    omega
  | @reported x b =>
    have : queued j (exec reg (.recordJobResult x) inp s).1 = queued j s := rfl
    rw [this]
    cases late <;> simp [spends, records, acks, Duty.token, List.countP_cons]
  | @recorded x b ds =>
    have : queued j (exec reg (.recordJobResult x) inp s).1 = queued j s := rfl
    rw [this]
    cases late with
    | false =>
      simp [spends, records, Duty.token, List.countP_cons]
      omega
    | true => simp [spends, acks, Duty.token, List.countP_cons]
  | @settled k g b ds =>
    have : queued j (exec reg (.ack k g) inp s).1 = queued j s := rfl
    rw [this]
    cases late with
    | false => simp [spends, records, Duty.token]
    | true =>
      simp [spends, acks, Duty.token, List.countP_cons]
      omega

end

/-! ## Runs -/

section
variable (reg : Registry)

/-- Every job is enqueued under an id of its own. -/
def Fresh : State → Label → Prop :=
  onCalls reg fun c _ cmd _ => ∀ x ∈ enqueues cmd, x.1 ∉ (enqueued c.log).map Prod.fst

/-- No dead letter is put back. -/
def NoRetry : State → Label → Prop := onCalls reg fun _ _ cmd _ => retries cmd = none

/-- No ack or nack is late: the job is still in flight. -/
def Punctual : State → Label → Prop :=
  onCalls reg fun c _ cmd _ => ∀ j ∈ returns cmd, j ∈ c.world.inFlightQueue

instance (c : State) (l : Label) : Decidable (Fresh reg c l) :=
  instDecidableOnCalls reg (fun c _ cmd _ => ∀ x ∈ enqueues cmd, x.1 ∉ (enqueued c.log).map Prod.fst) c l

instance (c : State) (l : Label) : Decidable (NoRetry reg c l) :=
  instDecidableOnCalls reg (fun _ _ cmd _ => retries cmd = none) c l

instance (c : State) (l : Label) : Decidable (Punctual reg c l) :=
  instDecidableOnCalls reg (fun c _ cmd _ => ∀ j ∈ returns cmd, j ∈ c.world.inFlightQueue) c l

end

section
variable {reg : Registry} {H : State → Label → Prop}

theorem fresh_nodup (hfresh : ∀ c l, H c l → Fresh reg c l) {c : State}
    (h : ((runs reg).restrict H).Reachable c) : ((enqueued c.log).map Prod.fst).Nodup := by
  have L : Core.Program.Ledgered (pipeline reg) (Fresh reg) fun _ log => ((enqueued log).map Prod.fst).Nodup := by
    refine ⟨?_, fun _ h => h⟩
    intro c i inp p cmd ok err hI hp hv hH
    have hf := onCalls_run hH hp hv
    rw [enqueued_cons]
    cases he : enqueues cmd with
    | none => exact hI
    | some x => exact List.nodup_cons.mpr ⟨hf x he, hI⟩
  have h₀ : ((enqueued initialState.log).map Prod.fst).Nodup := List.nodup_nil
  exact (L.inductive h₀).reachable c (h.weaken hfresh)

/-- A job enqueued once has one group. -/
theorem group_unique {E : List (JobId × GroupId)} (hn : (E.map Prod.fst).Nodup) {j : JobId} {g g' : GroupId}
    (h : (j, g) ∈ E) (h' : (j, g') ∈ E) : g = g' :=
  congrArg Prod.snd (List.inj_on_of_nodup_map hn h h' rfl)

/-- A job enters its group's list by its enqueue and leaves it when it is fetched. -/
theorem fetched_step {E : List (JobId × GroupId)} {cmd : Cmd} {inp : Input} {s : Store}
    (hid : Identified E s) (hn : (E.map Prod.fst).Nodup) (j : JobId) (g : GroupId) :
    ((exec reg cmd inp s).1.groupJobs g).count j +
        (fetches cmd (exec reg cmd inp s).2).toList.count (j, g) ≤
      (s.groupJobs g).count j + (enqueues cmd).toList.count (j, g) := by
  by_cases hd : cmd = .dequeue
  · subst hd
    rcases L2.dequeue_cases Core.binary64 reg.config.fairQueue.alpha inp.now s with ⟨q, he⟩ | ⟨g', k, rest, q, hl, he⟩
    · simp [exec, he, fetches, enqueues]
    · -- the popped job's hash names the group it was popped from
      have hk : (k, g') ∈ E := hid.groupJobs g' k (hl ▸ List.mem_cons_self)
      obtain ⟨hkid, -, g'', hgid, hm⟩ := hid.hash k ⟨g', hk⟩
      obtain rfl := group_unique hn hk hm
      have hfetch : fetches .dequeue (exec reg .dequeue inp s).2 = some (k, g') := by
        simp [exec, he, fetches, hkid, hgid]
      rw [hfetch]
      simp only [exec, he, enqueues, Option.toList_some, Option.toList_none, List.count_nil, List.count_singleton]
      rcases eq_or_ne g g' with rfl | hne
      · rw [Function.update_self, hl, List.count_cons]
        by_cases hkj : k = j
        · subst hkj
          simp
        · simp [hkj]
      · rw [Function.update_of_ne hne]
        simp [Ne.symm hne]
  · rw [fetches_eq_none hd, Option.toList_none, List.count_nil]
    cases henq : enqueues cmd with
    | none =>
      rw [groupJobs_frame henq hd]
      omega
    | some x =>
      cases cmd with
      | enqueue req =>
        cases henq
        simp only [exec, L2.enqueue, Option.toList_some, List.count_singleton]
        rcases eq_or_ne g req.jobGroupId with rfl | hne
        · rw [Function.update_self, List.count_append, List.count_singleton]
          by_cases hj : req.jobId = j
          · simp [hj]
          · simp [hj]
        · rw [Function.update_of_ne hne]
          omega
      | _ => cases henq

theorem fetched_le (hfresh : ∀ c l, H c l → Fresh reg c l) {c : State}
    (h : ((runs reg).restrict H).Reachable c) (j : JobId) (g : GroupId) :
    (c.world.groupJobs g).count j + (fetched c.log).count (j, g) ≤ (enqueued c.log).count (j, g) := by
  have hJ : ∀ c, ((runs reg).restrict H).Reachable c →
      ((enqueued c.log).map Prod.fst).Nodup ∧ Identified (enqueued c.log) c.world := by
    intro c h
    exact ⟨fresh_nodup hfresh h, (identity_reachable (fun c l _ => answers_true reg c l) h).1⟩
  have L : Core.Program.Ledgered (pipeline reg) (fun c l => H c l ∧ ((enqueued c.log).map Prod.fst).Nodup ∧
      Identified (enqueued c.log) c.world) fun w log => ∀ j g,
        (w.groupJobs g).count j + (fetched log).count (j, g) ≤ (enqueued log).count (j, g) := by
    refine ⟨?_, fun e hI => ?_⟩
    · intro c i inp p cmd ok err hI hp hv hstep j g
      obtain ⟨_, hn, hid⟩ := hstep
      have h1 := hI j g
      have h2 := @fetched_step reg _ cmd inp c.world hid hn j g
      simp only [fetched_cons, enqueued_cons, List.count_append]
      simp only [pipeline]
      omega
    · cases e <;> exact hI
  have h₀ : ∀ j g, (initialState.world.groupJobs g).count j + (fetched initialState.log).count (j, g) ≤
      (enqueued initialState.log).count (j, g) := fun _ _ => Nat.le_refl 0
  exact (L.inductive h₀).reachable c (h.enrich hJ) j g

/-- A job enqueued once is fetched at most once. -/
theorem fetched_le_one (hfresh : ∀ c l, H c l → Fresh reg c l) {c : State}
    (h : ((runs reg).restrict H).Reachable c) (j : JobId) : (fetched c.log).countP (·.1 = j) ≤ 1 := by
  have hsub : (fetched c.log).Subperm (enqueued c.log) := by
    refine List.subperm_ext_iff.mpr fun x _ => ?_
    exact le_trans (Nat.le_add_left _ _) (fetched_le hfresh h x.1 x.2)
  have hone := List.nodup_iff_count_le_one.mp (fresh_nodup hfresh h) j
  calc (fetched c.log).countP (·.1 = j) ≤ (enqueued c.log).countP (·.1 = j) := hsub.countP_le _
    _ = ((enqueued c.log).map Prod.fst).count j := countP_fst _ j
    _ ≤ 1 := hone

/-- What was spent of a job: its records, or its counts as done. -/
def spent (late : Bool) (log : Log) : List (JobId × GroupId) := if late then acked log else recorded log

theorem spent_cons (late : Bool) (i : Nat) (cmd : Cmd) (r : Reply cmd) (log : Log) :
    spent late (⟨i, cmd, r⟩ :: log) = spends late cmd ++ spent late log := by
  cases late
  · simp [spent, spends]
  · simp [spent, spends]

/-- The tokens of a job in the queues, in hand and spent. -/
def tokens (late : Bool) (j : JobId) (c : State) : Nat :=
  Core.Program.total (fun w log => queued j w + (spent late log).countP (·.1 = j))
    (fun p => (duties p).countP (Duty.token late j)) c

theorem token_drops {cmd : Cmd} {ds ds' : List Duty} (h : Drops cmd ds ds') (late : Bool) (j : JobId) :
    ds'.countP (Duty.token late j) ≤ ds.countP (Duty.token late j) := by
  obtain rfl | ⟨rfl, -⟩ := h
  · exact le_refl _
  · exact Nat.zero_le _

theorem duties_start (t : Task) : duties (Task.start reg t) = [] := by
  have hnone : ∀ {p : Proc}, Started p → duties p = [] := by
    intro p h
    cases h <;> rfl
  exact hnone (t.started reg)

theorem token_account (hown : ∀ c l, H c l → Answers Own reg c l) (hretry : ∀ c l, H c l → NoRetry reg c l)
    (hlate : ∀ c l, H c l → Punctual reg c l) (late : Bool) (j : JobId) :
    Core.Program.Account (pipeline reg)
      (fun c l => H c l ∧ Identified (enqueued c.log) c.world ∧
        ∀ (i : Nat) p, c.procs[i]? = some p → Sound Own (enqueued c.log) p)
      (fun w log => queued j w + (spent late log).countP (·.1 = j))
      (fun p => (duties p).countP (Duty.token late j)) fun log => (fetched log).countP (·.1 = j) where
  run := by
    intro c i inp p cmd ok err hp hv hstep
    obtain ⟨hH, hid, hs⟩ := hstep
    have hmoves := moves_of_run (hs i p hp) hv hid (onCalls_run (hown _ _ hH) hp hv)
    have hstep := @token_step reg _ cmd _ inp c.world _ _ j late hmoves rfl (onCalls_run (hretry _ _ hH) hp hv)
      (onCalls_run (hlate _ _ hH) hp hv)
    simp only [Core.Program.ran, spent_cons, fetched_cons, List.countP_append]
    simp only [pipeline]
    omega
  reject := by
    intro c i p cmd ok err hp hv hstep
    obtain ⟨_, _, hs⟩ := hstep
    exact token_drops (drops_of_reject (hs i p hp) hv) late j
  dead := rfl
  spawn := by
    intro t
    simp only [pipeline, duties_start]
    rfl
  env := by
    intro w log e
    cases e <;> exact le_refl _

/-- A job enqueued once has one token, as long as no ack is late and no dead
letter is put back. -/
theorem tokens_le_one (hown : ∀ c l, H c l → Answers Own reg c l) (hfresh : ∀ c l, H c l → Fresh reg c l)
    (hretry : ∀ c l, H c l → NoRetry reg c l) (hlate : ∀ c l, H c l → Punctual reg c l) {c : State}
    (h : ((runs reg).restrict H).Reachable c) (late : Bool) (j : JobId) : tokens late j c ≤ 1 := by
  have h₀ : tokens late j initialState ≤ (fetched initialState.log).countP (·.1 = j) := by
    cases late <;> exact Nat.le_refl 0
  have hr := h.enrich fun c h => identity_reachable hown h
  exact le_trans ((token_account hown hretry hlate late j).le_minted h₀ hr) (fetched_le_one hfresh h j)

theorem spent_le_one (hown : ∀ c l, H c l → Answers Own reg c l) (hfresh : ∀ c l, H c l → Fresh reg c l)
    (hretry : ∀ c l, H c l → NoRetry reg c l) (hlate : ∀ c l, H c l → Punctual reg c l) {c : State}
    (h : ((runs reg).restrict H).Reachable c) (late : Bool) (j : JobId) :
    (spent late c.log).countP (·.1 = j) ≤ 1 := by
  have := tokens_le_one hown hfresh hretry hlate h late j
  simp only [tokens, Core.Program.total] at this
  omega

end
end NestPlayground.L4
