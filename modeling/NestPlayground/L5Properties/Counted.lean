import NestPlayground.L4Pipeline.Books

/-!
# Counted after recorded

A job is counted as done by `ack.lua` and its result is recorded by
`record-job-result.lua`, two calls with everybody else in between. Whoever is
about to count (`settling`) has just recorded the same job for the same group,
and if the process stops there the count is missing, never the result. So a
group never shows more jobs done than results, a job is COMPLETED only with a
result in a list, and `ack.lua` never finds a group complete that shows fewer
results than jobs: whatever fails, whatever the processors answer and whatever
is delivered twice. A job that is recorded twice counts twice, so as many
results as jobs are not yet the results of all jobs.
-/
namespace NestPlayground.L5.Counted
open L1 L3 L4

/-- The job an activity is about to count as done, and the group it counts it in. -/
def settling : Proc → Option (JobId × GroupId)
  | .tick (.complete (.ack j g)) => some (j, g)
  | .tick (.failed (.ack job)) => some (job.id, job.groupId)
  | .recovery (.ack j g _) => some (j, g)
  | _ => none

/-- The calls that write COMPLETED into a job. -/
def finishes : Cmd → Bool
  | .ack _ _ | .jobSetStatus _ .completed => true
  | _ => false

/-- The one call an activity makes of these counts the job it is settling. -/
def Allowed (p : Proc) (cmd : Cmd) : Prop := finishes cmd = true → ∃ x, acks cmd = some x ∧ settling p = some x

theorem Allowed.other {p : Proc} {cmd : Cmd} (h : finishes cmd = false) : Allowed p cmd := by
  intro hf
  rw [h] at hf
  cases hf

theorem Allowed.housekeeping {p : Proc} {cmd : Cmd} (h : housekeeping cmd = true) : Allowed p cmd := by
  refine .other ?_
  cases cmd <;> first | rfl | cases h

section
variable {reg : Registry}

/-- A count follows the record of the same job for the same group. -/
abbrev Settles (p : Proc) (a : Core.Action Reply Proc) : Prop :=
  a.Spec (Allowed p) (fun cmd _ p' => ∀ x ∈ settling p', records cmd = some x) fun _ p' => settling p' = none

theorem forall_settling {p : Proc} {cmd : Cmd} (h : settling p = none) : ∀ x ∈ settling p, records cmd = some x := by
  intro x hx
  rw [h] at hx
  cases hx

/-- An awaited function that counts nothing and after which nothing is counted. -/
theorem settles_map {A : Type} {p : Proc} {a : Core.Action Reply A} {f : A → Proc} (hc : Calls (Allowed p) a)
    (hf : ∀ x, settling (f x) = none) : Settles p (a.map f) := by
  cases a with
  | call cmd ok err => exact ⟨hc.1, fun r => forall_settling (hf _), hf _⟩
  | halt => trivial

theorem finalize_allowed (p : Proc) (q : FinalizePc) : Calls (Allowed p) (q.view reg) :=
  Calls.mono (finalize_calls reg q) fun _ => .housekeeping

theorem settles_complete (p : CompletePc) : Settles (.tick (.complete p)) ((Proc.tick (.complete p)).view reg) := by
  cases p with
  | record r => exact ⟨.other rfl, fun _ x hx => hx, rfl⟩
  | ack j g =>
    refine ⟨fun _ => ⟨_, rfl, rfl⟩, fun b => forall_settling ?_, rfl⟩
    cases b <;> rfl
  | resetGroupStats g => exact ⟨.other rfl, fun _ => forall_settling rfl, rfl⟩
  | finalize q =>
    simp only [Proc.view, TickPc.view, CompletePc.view, Core.Action.map_map]
    refine settles_map (finalize_allowed _ q) fun x => ?_
    cases x <;> rfl

theorem settles_failed (p : FailedPc) : Settles (.tick (.failed p)) ((Proc.tick (.failed p)).view reg) := by
  cases p with
  | requeue p => cases p <;> exact ⟨.other rfl, fun _ => forall_settling rfl, rfl⟩
  | record job e => exact ⟨.other rfl, fun _ x hx => hx, rfl⟩
  | ack job => exact ⟨fun _ => ⟨_, rfl, rfl⟩, fun _ => forall_settling rfl, rfl⟩
  | incrRetryCount | setPending | deadLetter | setFailed => exact ⟨.other rfl, fun _ => forall_settling rfl, rfl⟩

/-- `handleJobFailed` starts with the retry count or with the dead letter. -/
theorem settling_failed_start (job : Job) (e : String) :
    settling (.tick (.failed (FailedPc.start reg job e))) = none := by
  unfold FailedPc.start
  split <;> rfl

theorem settles_tick (p : TickPc) : Settles (.tick p) ((Proc.tick p).view reg) := by
  cases p with
  | complete p => exact settles_complete p
  | failed p => exact settles_failed p
  | dequeue p =>
    simp only [Proc.view, TickPc.view, Core.Action.map_map]
    refine settles_map (by cases p <;> exact ⟨.other rfl, fun _ => trivial, trivial⟩) fun x => ?_
    cases x with
    | ret r => cases r <;> rfl
    | goto | throw => rfl
  | loadJob j =>
    refine ⟨.other rfl, fun hash => forall_settling ?_, rfl⟩
    simp only [TickPc.loaded]
    split
    · rfl
    · split <;> rfl
  | startTime j job =>
    refine ⟨.other rfl, fun now => forall_settling ?_, rfl⟩
    simp only
    split <;> rfl
  | process j job t =>
    refine ⟨.other rfl, fun o => forall_settling ?_, rfl⟩
    rcases o with _ | _ | _ <;> rfl
  | endTime j job t r =>
    refine ⟨.other rfl, fun now => forall_settling ?_, rfl⟩
    simp only [TickPc.settle]
    split
    · rfl
    · split
      · split <;> rfl
      · rfl
  | ack j job r => exact ⟨.other rfl, fun _ => forall_settling rfl, rfl⟩
  | nack j job e | nackCaught j job e =>
    exact ⟨.other rfl, fun _ => forall_settling (settling_failed_start job e), rfl⟩
  | cleanUp | heartbeat => exact ⟨.other rfl, fun _ => forall_settling rfl, rfl⟩

theorem settling_recovery_loop (pairs : List (JobId × GroupId)) :
    settling (resume .recovery (RecoveryPc.loop pairs)) = none := by
  cases pairs <;> rfl

theorem settles_recovery (p : RecoveryPc) : Settles (.recovery p) ((Proc.recovery p).view reg) := by
  cases p with
  | script => exact ⟨.other rfl, fun r => forall_settling (settling_recovery_loop r.pairs), rfl⟩
  | record j g pairs => exact ⟨.other rfl, fun _ x hx => hx, rfl⟩
  | ack j g pairs =>
    refine ⟨fun _ => ⟨_, rfl, rfl⟩, fun b => forall_settling ?_, rfl⟩
    cases b with
    | true => rfl
    | false => exact settling_recovery_loop pairs
  | finalize q pairs =>
    simp only [Proc.view, RecoveryPc.view, Core.Action.map_map]
    refine settles_map (finalize_allowed _ q) fun x => ?_
    cases x with
    | ret b => exact settling_recovery_loop pairs
    | goto | throw => rfl

theorem deadLetter_allowed (p : DeadLetterPc) : Calls (Allowed (.deadLetter p)) p.view := by
  cases p with
  | retryRemove p | purgeRemove p | cleanupRemove p =>
    rw [DeadLetterPc.view]
    refine Calls.map ?_
    cases p <;> exact ⟨.other rfl, fun _ => trivial, trivial⟩
  | _ => exact ⟨.other rfl, fun _ => trivial, trivial⟩

theorem settles (reg : Registry) (p : Proc) : Settles p (p.view reg) := by
  have haside : p.service ≠ .tick → p.service ≠ .recovery → Calls (Allowed p) (p.view reg) →
      Settles p (p.view reg) := by
    intro ht hr hc
    have hsame := same_service reg p
    have hnone : ∀ p' : Proc, p'.service = p.service ∨ p'.service = .done → settling p' = none := by
      intro p' h
      cases p' with
      | tick => exact absurd (h.resolve_right Service.noConfusion).symm ht
      | recovery => exact absurd (h.resolve_right Service.noConfusion).symm hr
      | _ => rfl
    cases hv : p.view reg with
    | call cmd ok err =>
      rw [hv] at hc hsame
      exact ⟨hc.1, fun r => forall_settling (hnone _ (hsame.2.1 r)), hnone _ hsame.2.2⟩
    | halt => trivial
  have hmay : (∀ cmd, p.mayCall cmd = true → finishes cmd = false) → Calls (Allowed p) (p.view reg) := fun h =>
    (may_call reg p).mono fun cmd hc => .other (h cmd hc)
  cases p with
  | tick p => exact settles_tick p
  | recovery p => exact settles_recovery p
  | deadLetter p => exact haside Service.noConfusion Service.noConfusion (Calls.map (deadLetter_allowed p))
  | done => trivial
  | submit | fetch | dispatch | watch | finalize | call =>
    refine haside Service.noConfusion Service.noConfusion (hmay fun cmd hc => ?_)
    cases cmd <;> first | rfl | cases hc

theorem settling_of_started {p : Proc} (h : Started p) : settling p = none := by
  cases h <;> rfl

/-! ## Runs -/

variable {g : GroupId} {j : JobId} {s : Store} {cmd : Cmd} {inp : Input} {c : State}

/-- Nothing is counted that was not recorded: the counts and those about to be made. -/
theorem settling_account (reg : Registry) (g : GroupId) :
    Core.Program.Account (pipeline reg) (fun _ _ => True) (fun _ log => (acked log).countP (·.2 = g))
      (fun p => (settling p).toList.countP (·.2 = g)) fun log => (recorded log).countP (·.2 = g) where
  run := by
    intro c i inp p cmd ok err hp hv _
    have hs := settles reg p
    rw [show p.view reg = .call cmd ok err from hv] at hs
    have hbefore : (acks cmd).toList.countP (·.2 = g) ≤ (settling p).toList.countP (·.2 = g) := by
      cases ha : acks cmd with
      | none => exact Nat.zero_le _
      | some x =>
        obtain ⟨y, hy, hsettling⟩ := hs.1 (by cases cmd <;> first | rfl | cases ha)
        cases ha.symm.trans hy
        rw [hsettling]
    have hafter : (settling (ok (exec reg cmd inp c.world).2)).toList.countP (·.2 = g) ≤
        (records cmd).toList.countP (·.2 = g) := by
      cases ha : settling (ok (exec reg cmd inp c.world).2) with
      | none => exact Nat.zero_le _
      | some x => rw [hs.2.1 _ x ha]
    simp only [Core.Program.ran, acked_cons, recorded_cons, List.countP_append]
    simp only [pipeline]
    omega
  reject := by
    intro c i p cmd ok err hp hv _
    have hs := settles reg p
    rw [show p.view reg = .call cmd ok err from hv] at hs
    simp [hs.2.2]
  dead := rfl
  spawn := by
    intro t
    simp only [pipeline, settling_of_started (Task.started reg t)]
    rfl
  env := fun _ _ _ => le_refl _

theorem counted_le (h : (runs reg).Reachable c) (g : GroupId) :
    Core.Program.total (fun _ log => (acked log).countP (·.2 = g)) (fun p => (settling p).toList.countP (·.2 = g)) c ≤
      (recorded c.log).countP (·.2 = g) := by
  have h₀ : Core.Program.total (fun _ log => (acked log).countP (·.2 = g))
      (fun p => (settling p).toList.countP (·.2 = g)) initialState ≤ (recorded initialState.log).countP (·.2 = g) :=
    Nat.le_refl 0
  exact (settling_account reg g).le_minted h₀ (h.of_forall fun _ _ => trivial)

/-- Recovery puts a job back or buries it; it completes none. -/
theorem recoverBatch_completed {now maxRetryCount : Nat} : ∀ (js : List JobId) (s : Store),
    ((L2.recoverBatch now maxRetryCount s js).1.jobs j).status = some .completed →
      (s.jobs j).status = some .completed := by
  intro js
  induction js with
  | nil => exact fun _ h => h
  | cons k js ih =>
    intro s h
    have h : ((L2.recoverOrphan now maxRetryCount s k).1.jobs j).status = some .completed := ih _ h
    rcases eq_or_ne j k with rfl | hne
    · rcases L2.recoverOrphan_cases now maxRetryCount s j with ⟨-, he⟩ | ⟨-, he⟩ <;> simp [he] at h
    · rw [(L2.recoverOrphan_other hne).2.2] at h
      exact h

/-- No other call makes a job COMPLETED. -/
theorem completed_exec (hf : finishes cmd = false)
    (h : ((exec reg cmd inp s).1.jobs j).status = some .completed) : (s.jobs j).status = some .completed := by
  have hupdate : ∀ {k : JobId} {hash : JobHash},
      (hash.status = some .completed → (s.jobs k).status = some .completed) →
      (Function.update s.jobs k hash j).status = some .completed → (s.jobs j).status = some .completed := by
    intro k hash hk h
    rcases eq_or_ne j k with rfl | hne
    · rw [Function.update_self] at h
      exact hk h
    · rwa [Function.update_of_ne hne] at h
  by_cases ha : aside cmd = true
  · rwa [(untouched ha).jobs] at h
  cases cmd with
  | ack k g => cases hf
  | enqueue req => exact hupdate (fun hs => by cases hs) h
  | jobIncrRetryCount k =>
    exact @hupdate k { s.jobs k with retryCount := some ((s.jobs k).retryCount.getD 0 + 1) } (fun hs => hs) h
  | jobResetRetryCount k => exact @hupdate k { s.jobs k with retryCount := some 0 } (fun hs => hs) h
  | jobSetStatus k st =>
    refine hupdate (fun hs => ?_) h
    cases hs
    cases hf
  | dequeue =>
    rcases L2.dequeue_cases Core.binary64 reg.config.fairQueue.alpha inp.now s with ⟨q, he⟩ | ⟨g, k, rest, q, -, he⟩
    · simp only [exec, he] at h
      exact h
    · simp only [exec, he] at h
      exact hupdate (fun hs => by cases hs) h
  | recoverOrphans => exact recoverBatch_completed _ _ h
  | moveToReady =>
    obtain ⟨_, _, he⟩ := @moveToReady_frame reg inp s
    rwa [he] at h
  | transitionStatus g t =>
    obtain ⟨m, he⟩ := @transitionStatus_frame reg inp s g t
    rwa [he] at h
  | reliableDequeue w i n g =>
    obtain ⟨_, _, _, he⟩ := @reliableDequeue_frame reg inp s w i n g
    rwa [he] at h
  | extendDeadline k =>
    obtain ⟨_, _, he⟩ := @extendDeadline_frame reg inp s k
    rwa [he] at h
  | _ => first | exact h | exact absurd rfl ha

/-- Who counts a job has recorded it, and so has whoever completed it. -/
theorem completed_outline (reg : Registry) :
    Core.Program.Outline (pipeline reg) (fun _ _ => True)
      (fun w log => Books w log ∧ ∀ j, (w.jobs j).status = some .completed → ∃ g, (j, g) ∈ recorded log)
      fun _ log _ p => ∀ x ∈ settling p, x ∈ recorded log where
  run := by
    intro c i inp p cmd ok err hI hA hp hv _
    have hv : p.view reg = .call cmd ok err := hv
    have hs := settles reg p
    rw [hv] at hs
    have hkeep : ∀ x ∈ recorded c.log, x ∈ recorded (⟨i, cmd, (exec reg cmd inp c.world).2⟩ :: c.log) := by
      intro x hx
      rw [recorded_cons]
      exact List.mem_append_right _ hx
    refine ⟨⟨hI.1.exec reg i cmd inp, fun j hj => ?_⟩, fun x hx => ?_, fun k q _ hk x hx => hkeep x (hA k q hk x hx)⟩
    · by_cases hf : finishes cmd = true
      · obtain ⟨⟨k, g⟩, hack, hsettling⟩ := hs.1 hf
        cases cmd with
        | ack k' g' =>
          cases hack
          rcases eq_or_ne j k with rfl | hne
          · exact ⟨g, hkeep _ (hA i p hp _ hsettling)⟩
          · have hj : (c.world.jobs j).status = some .completed := by
              simpa [pipeline, Core.Program.ran, exec, L2.ack, Function.update_of_ne hne] using hj
            obtain ⟨g'', hg⟩ := hI.2 j hj
            exact ⟨g'', hkeep _ hg⟩
        | _ => cases hack
      · obtain ⟨g, hg⟩ := hI.2 j (completed_exec (eq_false_of_ne_true hf) hj)
        exact ⟨g, hkeep _ hg⟩
    · have hrec := hs.2.1 _ x hx
      simp only [Core.Program.ran, recorded_cons, hrec]
      exact List.mem_append_left _ (List.mem_singleton_self x)
  reject := by
    intro c i p cmd ok err _ _ hp hv _
    have hs := settles reg p
    rw [show p.view reg = .call cmd ok err from hv] at hs
    intro x hx
    rw [hs.2.2] at hx
    cases hx
  dead := fun _ _ _ _ hx => by cases hx
  spawn := by
    intro c t _ _ x hx
    rw [show settling ((pipeline reg).start t) = none from settling_of_started (Task.started reg t)] at hx
    cases hx
  env := by
    intro w log e hI
    refine ⟨⟨(books reg).env e hI.1, fun j hj => hI.2 j ?_⟩, fun _ _ h => h⟩
    cases e <;> exact hj

/-- What is recorded behind every count of a group. -/
structure Recorded (reg : Registry) (c : State) : Prop where
  /-- the counters of a group count the results in its list -/
  counts : ∀ g, (c.world.groupMeta g).successCount.getD 0 + (c.world.groupMeta g).failedCount.getD 0 =
    (c.world.groupJobResults g).length
  /-- a group shows no more jobs done than results -/
  done : ∀ g, (c.world.groupMeta g).doneJobs.getD 0 ≤
    (c.world.groupMeta g).successCount.getD 0 + (c.world.groupMeta g).failedCount.getD 0
  /-- a job is COMPLETED only with a result -/
  job : ∀ j, (c.world.jobs j).status = some .completed → ∃ g, ∃ r ∈ c.world.groupJobResults g, r.jobId = j
  /-- `ack.lua` answers that a group is complete only when it has as many results as jobs -/
  complete : ∀ i j g inp, nextCall reg c i = some (.ack j g) → (exec reg (.ack j g) inp c.world).2 = true →
    (c.world.groupMeta g).totalJobs.getD 0 ≤
      (c.world.groupMeta g).successCount.getD 0 + (c.world.groupMeta g).failedCount.getD 0

/-- In every run, whatever fails or stops, whatever the processors answer and
however often a job is delivered. -/
theorem counted_recorded (reg : Registry) (c : State) (h : (runs reg).Reachable c) : Recorded reg c := by
  have h₀ : Core.Program.Holds
      (fun w log => Books w log ∧ ∀ j, (w.jobs j).status = some .completed → ∃ g, (j, g) ∈ recorded log)
      (fun _ log _ p => ∀ x ∈ settling p, x ∈ recorded log) initialState :=
    ⟨⟨books_empty, fun j hj => (by cases hj)⟩, fun i p hp => by simp [initialState] at hp⟩
  have hI := ((completed_outline reg).inductive h₀).reachable c (h.of_forall fun _ _ => trivial)
  obtain ⟨⟨hb, hcompleted⟩, -⟩ := hI
  have hle : ∀ g, (acked c.log).countP (·.2 = g) + (c.procs.map fun p => (settling p).toList.countP (·.2 = g)).sum ≤
      (recorded c.log).countP (·.2 = g) := counted_le h
  refine ⟨hb.counts_length, fun g => ?_, fun j hj => ?_, fun i j g inp hi hreply => ?_⟩
  · have := hb.done g
    have := hle g
    rw [hb.results_length g]
    omega
  · obtain ⟨g, hg⟩ := hcompleted j hj
    have hmem : (j, g) ∈ (c.world.groupJobResults g).map fun r => (r.jobId, r.groupId) := by
      rw [hb.results g]
      simpa using hg
    obtain ⟨r, hr, he⟩ := List.mem_map.mp hmem
    exact ⟨g, r, hr, congrArg Prod.fst he⟩
  · -- the caller's own record is not counted yet
    have hdone := hb.done g
    have hle := hle g
    unfold nextCall at hi
    split at hi
    · rename_i p hp
      split at hi
      · rename_i cmd ok err hv
        cases hi
        have hs := settles reg p
        rw [hv] at hs
        obtain ⟨x, hx, hsettling⟩ := hs.1 rfl
        cases hx
        have hhold := Core.Program.hold_le_sum (fun p => (settling p).toList.countP (·.2 = g)) (List.mem_of_getElem? hp)
        simp only [hsettling, Option.toList_some, List.countP_singleton, decide_true, if_true] at hhold
        have hc := of_decide_eq_true hreply
        rw [hb.results_length g]
        omega
      · cases hi
    · cases hi

/-- One job: its worker is about to count it, and then has. -/
theorem counted_recorded_oneJob : ∃ c : State, (runs {}).Reachable c ∧ (c.world.groupMeta "g").doneJobs = some 1 ∧
    (c.world.jobs "j").status = some .completed ∧ Recorded {} c := by
  obtain ⟨c, hr, hP⟩ := Core.Program.exists_of_replay (S := pipeline {})
    (P := fun c : State => decide ((c.world.groupMeta "g").doneJobs = some 1 ∧
      (c.world.jobs "j").status = some .completed))
    (show ((pipeline {}).replay (fun _ _ => true) initialState (oneJob ++ processed 2 3 ++ runsAt 2 3 3)).any _ =
      true by decide +kernel)
  obtain ⟨hdone, hs⟩ := of_decide_eq_true hP
  exact ⟨c, hr.unrestrict, hdone, hs, counted_recorded {} c hr.unrestrict⟩

end
end NestPlayground.L5.Counted
