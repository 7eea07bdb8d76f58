import NestPlayground.L4Pipeline.Tokens

/-!
# Deliveries and retry counts

Between two deliveries of a job the retry count in its hash goes up: after a
nack `handleJobFailed` increments it before it queues the job again, and orphan
recovery does both in one script. `raise_step` is the balance of one call, and
so a job was never delivered more than once over its retry count
(`deliveries_le`), whoever nacks and however late. `dequeue.lua` hands out an
id once, and `enqueue.lua`, which sets the count to 0, comes first.
-/
namespace NestPlayground.L4
open L1 L3

def retryCount (s : Store) (j : JobId) : Nat := (s.jobs j).retryCount.getD 0

/-- The calls of a dead-letter retry that bring a job back. -/
def retrying : Cmd → Bool
  | .jobResetRetryCount _ | .readyAppend _ => true
  | _ => false

def increments : Cmd → Option JobId
  | .jobIncrRetryCount j => some j
  | _ => none

/-- The jobs whose retry count a call raises, each by one. -/
def raised (reg : Registry) (inp : Input) (s : Store) : Cmd → List JobId
  | .jobIncrRetryCount j => [j]
  | .recoverOrphans => L2.requeued reg.config.reliableQueue.maxRetryCount s
      (s.inFlightQueue.rangeByScore inp.now reg.config.reliableQueue.orphanRecoveryBatchSize)
  | _ => []

/-- A job to be queued. -/
def Duty.carried (j : JobId) : Duty → Bool
  | .queue j' => j' = j
  | .park j' => j' = j
  | _ => false

/-- A job to be queued or dead-lettered. -/
def Duty.live (j : JobId) : Duty → Bool
  | .queue j' => j' = j
  | .park j' => j' = j
  | .bury j' _ => j' = j
  | _ => false

/-- The job of a nack: its id and the job object that was loaded. -/
def nacks : Proc → Option (JobId × Job)
  | .tick (.nack j job _) => some (j, job)
  | .tick (.nackCaught j job _) => some (j, job)
  | _ => none

/-- The job that was nacked and whose retry count is still to be raised. -/
def owing : Proc → Option Job
  | .tick (.failed (.incrRetryCount job)) => some job
  | _ => none

def owed (p : Proc) : Option JobId := (owing p).map (·.id)

/-- Where an ack or a nack leaves its caller. -/
inductive Returned (reg : Registry) (p : Proc) (cmd : Cmd) (p' : Proc) : Prop where
  | acked (hd : ∀ j, (duties p').countP (Duty.live j) = 0) (ho : owing p' = none)
  | nacked {j job e} (hn : nacks p = some (j, job)) (hc : cmd = .reliableAck j)
      (hp : p' = .tick (.failed (.start reg job e)))

/-- Whether `p` is about to queue `j` and owes nothing for it. -/
def paid (j : JobId) (p : Proc) : Nat := if owed p = none then (duties p).countP (Duty.carried j) else 0

section
variable {reg : Registry} {E : List (JobId × GroupId)} {cmd : Cmd} {r : Reply cmd} {inp : Input} {s : Store}
  {ds ds' : List Duty} {j : JobId} {p p' : Proc}

theorem retries_of_not_retrying (h : retrying cmd = false) : retries cmd = none := by
  cases cmd <;> first | rfl | cases h

/-! ## The retry count -/

/-- What a call makes of the retry count of a job it does not enqueue. -/
theorem retryCount_exec (he : enqueues cmd = none) (hr : retrying cmd = false) (j : JobId) :
    retryCount (exec reg cmd inp s).1 j = retryCount s j + (raised reg inp s cmd).count j := by
  have hsame : ∀ {s' : Store} {k : JobId} {hash : JobHash}, s'.jobs = Function.update s.jobs k hash →
      hash.retryCount = (s.jobs k).retryCount → retryCount s' j = retryCount s j := by
    intro s' k hash hs hk
    rw [retryCount, hs]
    rcases eq_or_ne j k with rfl | hne
    · rw [Function.update_self, hk]
      rfl
    · rw [Function.update_of_ne hne]
      rfl
  by_cases ha : aside cmd = true
  · have hnone : raised reg inp s cmd = [] := by
      cases cmd <;> first | rfl | cases ha
    simp only [retryCount, (untouched ha).jobs, hnone, List.count_nil, Nat.add_zero]
  cases cmd with
  | enqueue req => cases he
  | jobResetRetryCount k => cases hr
  | jobIncrRetryCount k =>
    simp only [retryCount, raised, exec, Store.modJob]
    rcases eq_or_ne j k with rfl | hne
    · simp
    · simp [Function.update_of_ne hne, Ne.symm hne]
  | ack k g => exact hsame (k := k) rfl rfl
  | jobSetStatus k st => exact hsame (k := k) rfl rfl
  | dequeue =>
    rcases L2.dequeue_cases Core.binary64 reg.config.fairQueue.alpha inp.now s with ⟨q, he⟩ | ⟨g, k, rest, q, -, he⟩
    · simp only [retryCount, exec, he]
      rfl
    · simp only [exec, he]
      exact hsame (k := k) rfl rfl
  | moveToReady =>
    obtain ⟨_, _, hs⟩ := @moveToReady_frame reg inp s
    rw [hs]
    rfl
  | transitionStatus g t =>
    obtain ⟨m, hs⟩ := @transitionStatus_frame reg inp s g t
    rw [hs]
    rfl
  | reliableDequeue w k n g =>
    obtain ⟨_, _, _, hs⟩ := @reliableDequeue_frame reg inp s w k n g
    rw [hs]
    rfl
  | extendDeadline k =>
    obtain ⟨_, _, hs⟩ := @extendDeadline_frame reg inp s k
    rw [hs]
    rfl
  | recoverOrphans =>
    exact L2.recoverBatch_retried inp.now reg.config.reliableQueue.maxRetryCount _ s
      (Core.ZSet.nodup_rangeByScore _ _ _)
  | _ => first | rfl | exact absurd rfl ha

theorem retryCount_enqueue {req : BulkActionRequest} (j : JobId) :
    retryCount (exec reg (.enqueue req) inp s).1 j = if j = req.jobId then 0 else retryCount s j := by
  simp only [retryCount, exec, L2.enqueue]
  split
  · rename_i h
    subst h
    simp only [Function.update_self]
    rfl
  · rename_i h
    simp only [Function.update_of_ne h]

/-! ## Waiting jobs -/

theorem waiting_idle (h : carries cmd = false) (hr : retries cmd = none) (j : JobId) :
    waiting j (exec reg cmd inp s).1 = waiting j s := by
  have hsame : ∀ {s' : Store}, SameQueues s s' → waiting j s' = waiting j s := by
    intro s' hs
    simp only [waiting, hs.ready, hs.nonReady]
  cases cmd with
  | moveToReady => exact waiting_moveToReady j
  | extendDeadline k =>
    obtain ⟨_, _, hs⟩ := @extendDeadline_frame reg inp s k
    rw [hs]
    rfl
  | readyAppend k => cases hr
  | _ => first | exact hsame (queues_frame rfl) | rfl | cases h

theorem waiting_dequeue (j : JobId) : waiting j (exec reg .dequeue inp s).1 = waiting j s := by
  obtain ⟨_, _, _, he⟩ := @dequeue_frame reg inp s
  rw [he]
  rfl

/-- A delivery takes the job from the ready queue. -/
theorem waiting_reliableDequeue {w i : String} {n : Nat} {g : GroupId} (j : JobId) :
    waiting j (exec reg (.reliableDequeue w i n g) inp s).1 +
      (delivers (.reliableDequeue w i n g) (exec reg (.reliableDequeue w i n g) inp s).2).toList.count j =
      waiting j s := by
  simp only [exec, L2.reliableDequeue]
  split
  · rfl
  · rename_i k rest hr
    simp only [waiting, delivers, hr, Option.toList_some, List.count_cons, List.count_nil]
    omega

theorem waiting_recoverOrphans (j : JobId) :
    waiting j (exec reg .recoverOrphans inp s).1 = waiting j s + (raised reg inp s .recoverOrphans).count j := by
  obtain ⟨dead, jobs, he, -⟩ := L2.recoverOrphans_spec inp.now reg.config.reliableQueue.maxRetryCount
    reg.config.reliableQueue.orphanRecoveryBatchSize s
  simp only [waiting, exec, he, raised, List.count_append]
  omega

/-! ## One call -/

/-- Only a nack that owes the increment makes it. -/
theorem increments_spec (reg : Registry) (p : Proc) : Calls (fun cmd => increments cmd = owed p) (p.view reg) := by
  cases p with
  | tick p =>
    refine Calls.map ?_
    cases p with
    | dequeue p =>
      rw [TickPc.view]
      refine Calls.map ?_
      cases p <;> exact ⟨rfl, fun _ => trivial, trivial⟩
    | complete p =>
      rw [TickPc.view]
      refine Calls.map (Calls.mono (complete_calls reg p) fun cmd hc => ?_)
      cases cmd <;> first | rfl | cases hc
    | failed p =>
      rw [TickPc.view]
      refine Calls.map ?_
      cases p with
      | requeue p => cases p <;> exact ⟨rfl, fun _ => trivial, trivial⟩
      | _ => exact ⟨rfl, fun _ => trivial, trivial⟩
    | _ => exact ⟨rfl, fun _ => trivial, trivial⟩
  | _ =>
    refine (may_call reg _).mono fun cmd hc => ?_
    cases cmd <;> first | rfl | cases hc

theorem paid_le (j : JobId) (p : Proc) : paid j p ≤ (duties p).countP (Duty.carried j) := by
  unfold paid
  split
  · exact le_refl _
  · exact Nat.zero_le _

theorem owing_of_service (h : p.service ≠ .tick) : owing p = none := by
  cases p with
  | tick p => exact absurd rfl h
  | _ => rfl

theorem returns_aside (h : p.service ≠ .tick) (hc : p.mayCall cmd = true) : returns cmd = none := by
  cases p with
  | tick p => exact absurd rfl h
  | _ => cases cmd <;> first | rfl | cases hc

theorem returned_aside (h : p.service ≠ .tick) :
    (p.view reg).Spec (fun _ => True)
      (fun cmd _ p' => if (returns cmd).isSome then Returned reg p cmd p' else owing p' = none)
      fun _ p' => owing p' = none := by
  have hnext : ∀ {p' : Proc}, p'.service = p.service ∨ p'.service = .done → owing p' = none := by
    intro p' hp'
    refine owing_of_service fun ht => ?_
    rcases hp' with hp' | hp'
    · exact h (hp'.symm.trans ht)
    · rw [hp'] at ht
      cases ht
  cases hv : p.view reg with
  | call cmd ok err =>
    have hservice := same_service reg p
    have hmay := may_call reg p
    rw [hv] at hservice hmay
    refine ⟨trivial, fun r => ?_, hnext hservice.2.2⟩
    simp only [returns_aside h hmay.1]
    exact hnext (hservice.2.1 r)
  | halt => trivial

/-- What comes after an ack or a nack; no other call makes its caller owe. -/
theorem returned_spec (reg : Registry) (p : Proc) :
    (p.view reg).Spec (fun _ => True)
      (fun cmd _ p' => if (returns cmd).isSome then Returned reg p cmd p' else owing p' = none)
      fun _ p' => owing p' = none := by
  have quiet : ∀ {Pc α : Type} {a : Await Pc α} {mk : Core.Next Pc α → Proc},
      Calls (fun cmd => returns cmd = none) a → (∀ x, owing (mk x) = none) → (a.map mk).Spec (fun _ => True)
        (fun cmd _ p' => if (returns cmd).isSome then Returned reg p cmd p' else owing p' = none)
        fun _ p' => owing p' = none := by
    intro Pc α a mk ha hmk
    cases a with
    | call cmd ok err =>
      have hc : returns cmd = none := ha.1
      refine ⟨trivial, fun r => ?_, hmk _⟩
      simp only [hc]
      exact hmk _
    | halt => trivial
  cases p with
  | tick p =>
    cases p with
    | dequeue p =>
      rw [Proc.view, TickPc.view, Core.Action.map_map]
      refine quiet ?_ fun x => ?_
      · cases p <;> exact ⟨rfl, fun _ => trivial, trivial⟩
      · rcases x with p | (_ | ⟨_, _⟩) | _ <;> rfl
    | loadJob j =>
      refine ⟨trivial, fun hash => ?_, rfl⟩
      show owing (resume .tick (TickPc.loaded j hash)) = none
      unfold TickPc.loaded
      split
      · rfl
      · split <;> rfl
    | cleanUp j => exact ⟨trivial, fun _ => .acked (fun _ => rfl) rfl, rfl⟩
    | startTime j job =>
      refine ⟨trivial, fun now => ?_, rfl⟩
      show owing (resume .tick (if _ then _ else _)) = none
      split <;> rfl
    | process j job t =>
      refine ⟨trivial, fun outcome => ?_, rfl⟩
      cases outcome with
      | none => rfl
      | some outcome => cases outcome <;> rfl
    | heartbeat j job t => exact ⟨trivial, fun _ => rfl, rfl⟩
    | endTime j job t r =>
      refine ⟨trivial, fun now => ?_, rfl⟩
      show owing (.tick (TickPc.settle j job _)) = none
      unfold TickPc.settle
      split
      · rfl
      · split
        · split <;> rfl
        · rfl
    | ack j job r => exact ⟨trivial, fun _ => .acked (fun _ => rfl) rfl, rfl⟩
    | nack j job e => exact ⟨trivial, fun _ => .nacked rfl rfl rfl, rfl⟩
    | nackCaught j job e => exact ⟨trivial, fun _ => .nacked rfl rfl rfl, rfl⟩
    | complete p =>
      rw [Proc.view, TickPc.view, Core.Action.map_map]
      refine quiet ?_ fun x => ?_
      · refine (complete_calls reg p).mono fun cmd hc => ?_
        cases cmd <;> first | rfl | cases hc
      · cases x <;> rfl
    | failed p =>
      cases p with
      | requeue p => cases p <;> exact ⟨trivial, fun _ => rfl, rfl⟩
      | _ => exact ⟨trivial, fun _ => rfl, rfl⟩
  | _ => exact returned_aside (by simp [Proc.service])

/-- Nothing is paid yet. -/
theorem Returned.paid (h : Returned reg p cmd p') (j : JobId) : paid j p' = 0 := by
  cases h with
  | acked hd ho =>
    have hle := paid_le j p'
    have : (duties p').countP (Duty.carried j) ≤ (duties p').countP (Duty.live j) := by
      refine List.countP_mono_left fun d _ h => ?_
      cases d <;> first | exact h | cases h
    rw [hd j] at this
    omega
  | @nacked _ job e hn hc hp =>
    subst hp
    unfold FailedPc.start
    split <;> rfl

theorem paid_of_not_owed (h : owed p = none) : paid j p = (duties p).countP (Duty.carried j) := if_pos h

theorem duties_of_owed {k : JobId} (h : owed p = some k) : duties p = [.park k] := by
  cases p with
  | tick p =>
    cases p with
    | failed p =>
      cases p with
      | incrRetryCount job =>
        cases h
        rfl
      | _ => cases h
    | _ => cases h
  | _ => cases h

/-- The increment of a nack. -/
theorem raise_increment {k : JobId} (hm : Moves reg E cmd r ds ds') (hds : ds = [.park k])
    (hcmd : increments cmd = some k) (j : JobId) :
    (delivers cmd r).toList.count j + waiting j (exec reg cmd inp s).1 + ds'.countP (Duty.carried j) ≤
      waiting j s + (raised reg inp s cmd).count j := by
  cases cmd with
  | jobIncrRetryCount k' =>
    cases hcmd
    rw [waiting_idle rfl rfl]
    cases hm with
    | idle h => simp [hds, delivers, raised, Duty.carried, List.count_singleton, List.countP_cons]
    | abandoned h => simp [delivers]
  | _ => cases hcmd

theorem paid_rejected {ok : Reply cmd → Proc} {err : Proc} (hv : p.view reg = .call cmd ok err)
    (hd : Drops cmd (duties p) (duties err)) (j : JobId) : paid j err ≤ paid j p := by
  have hle := paid_le j err
  cases ho : owed p with
  | some k =>
    have hdone : err = .done := by
      cases p with
      | tick p =>
        cases p with
        | failed p =>
          cases p with
          | incrRetryCount job =>
            cases hv
            rfl
          | _ => cases ho
        | _ => cases ho
      | _ => cases ho
    rw [hdone]
    exact Nat.zero_le _
  | none =>
    rw [paid_of_not_owed ho]
    refine hle.trans ?_
    obtain hd | ⟨hd, -⟩ := hd
    · rw [hd]
    · rw [hd]
      exact Nat.zero_le _

theorem carried_pairDuties (pairs : List (JobId × GroupId)) (j : JobId) :
    (pairDuties pairs).countP (Duty.carried j) = 0 := by
  rw [pairDuties, List.countP_map]
  simp [Function.comp_def, Duty.carried]

theorem gives_idle (h : carries cmd = false) : delivers cmd r = none ∧ returns cmd = none := by
  cases cmd <;> first | exact ⟨rfl, rfl⟩ | cases h

/-- The balance of a call that pays for nothing. -/
theorem raise_other (hm : Moves reg E cmd r ds ds') (hr : (exec reg cmd inp s).2 = r) (hretry : retries cmd = none)
    (j : JobId) :
    (delivers cmd r).toList.count j + waiting j (exec reg cmd inp s).1 +
        (if (returns cmd).isSome then 0 else ds'.countP (Duty.carried j)) ≤
      waiting j s + ds.countP (Duty.carried j) + (raised reg inp s cmd).count j +
        (fetches cmd r).toList.countP (·.1 = j) := by
  cases hm with
  | idle h | abandoned h =>
    obtain ⟨hd, hret⟩ := @gives_idle cmd r h
    rw [waiting_idle h hretry, hd, hret]
    simp
    omega
  | nothing =>
    rw [waiting_dequeue]
    simp [delivers, returns]
    omega
  | fetched h =>
    rw [waiting_dequeue]
    simp [delivers, returns, fetches, Duty.carried, h, List.countP_cons]
  | refused h =>
    rw [waiting_idle rfl hretry]
    simp [delivers, returns]
    omega
  | @pushed k b =>
    have := @waiting_push_le reg inp s j k
    simp [delivers, returns, Duty.carried, List.countP_cons]
    omega
  | @backedOff k g r | @parked k g r =>
    have : waiting j (exec reg (.congestionBackoff k g) inp s).1 ≤ waiting j s + if k = j then 1 else 0 := by
      refine waiting_park_le ?_ ⟨_, rfl⟩ j
      rfl
    simp [delivers, returns, Duty.carried, List.countP_cons]
    omega
  | @backedOffFixed k | @parkedFixed k =>
    have : waiting j (exec reg (.nonReadyAdd k) inp s).1 ≤ waiting j s + if k = j then 1 else 0 := by
      refine waiting_park_le ?_ ⟨_, rfl⟩ j
      rfl
    simp [delivers, returns, Duty.carried, List.countP_cons]
    omega
  | @idling w i n g | @delivered w i n g _ _ =>
    have := @waiting_reliableDequeue reg inp s w i n g j
    rw [hr] at this
    simp [returns, Duty.carried]
    omega
  | cleaned | acked | nacked | nackedOut =>
    show _ + waiting j s + 0 ≤ _
    simp [delivers]
    omega
  | @recovered r =>
    have := @waiting_recoverOrphans reg inp s j
    simp [delivers, returns, carried_pairDuties]
    omega
  | @buried k g n e =>
    show _ + waiting j s + _ ≤ _
    simp [delivers, returns, Duty.carried]
    omega
  | reported | recorded | settled =>
    show _ + waiting j s + _ ≤ _
    simp [delivers, returns, Duty.carried]
    omega

/-- The balance of one call. -/
theorem raise_step (hm : Moves reg E cmd r (duties p) (duties p')) (hr : (exec reg cmd inp s).2 = r)
    (hinc : increments cmd = owed p) (hret : if (returns cmd).isSome then Returned reg p cmd p' else owing p' = none)
    (hretry : retries cmd = none) (j : JobId) :
    (delivers cmd r).toList.count j + waiting j (exec reg cmd inp s).1 + paid j p' ≤
      waiting j s + paid j p + (raised reg inp s cmd).count j + (fetches cmd r).toList.countP (·.1 = j) := by
  have hle := paid_le j p'
  cases ho : owed p with
  | some k =>
    have := @raise_increment reg E cmd r inp s _ _ k hm (duties_of_owed ho) (hinc.trans ho) j
    omega
  | none =>
    have := @raise_other reg E cmd r inp s _ _ hm hr hretry j
    rw [← paid_of_not_owed ho] at this
    split at hret
    · rename_i hsome
      have := hret.paid j
      simp only [hsome, if_true] at *
      omega
    · rename_i hnone
      simp only [if_neg hnone] at this
      omega

end

/-! ## Runs -/

section
variable {reg : Registry} {H : State → Label → Prop} {c : State}

/-- No dead letter is retried. -/
def Unretried (reg : Registry) : State → Label → Prop := onCalls reg fun _ _ cmd _ => retrying cmd = false

instance (c : State) (l : Label) : Decidable (Unretried reg c l) :=
  instDecidableOnCalls reg (fun _ _ cmd _ => retrying cmd = false) c l

theorem raised_known {E : List (JobId × GroupId)} {ans : Job → JobId → GroupId → Prop} {p : Proc} {cmd : Cmd}
    {inp : Input} {s : Store} (hid : Identified E s) (hp : Sound ans E p) (hinc : increments cmd = owed p) {j : JobId}
    (hj : j ∈ raised reg inp s cmd) : Known E j := by
  cases cmd with
  | jobIncrRetryCount k =>
    obtain rfl := List.mem_singleton.mp hj
    cases p with
    | tick p =>
      cases p with
      | failed p =>
        cases p with
        | incrRetryCount job =>
          cases hinc
          exact ⟨_, hp⟩
        | _ => cases hinc
      | _ => cases hinc
    | _ => cases hinc
  | recoverOrphans => exact hid.inFlight j (mem_expired ((L2.mem_requeued _).mp hj).1)
  | _ => cases hj

/-- The hash of an unknown job has no retry count. -/
theorem retryCount_unknown (hretry : ∀ c l, H c l → Unretried reg c l) (h : ((runs reg).restrict H).Reachable c) :
    ∀ j, ¬ Known (enqueued c.log) j → retryCount c.world j = 0 := by
  induction h with
  | init hc =>
    cases hc
    exact fun _ _ => rfl
  | @step c l c' hr hs ih =>
    obtain ⟨hs, hH⟩ := hs
    intro j hj
    cases hs with
    | @run i inp p cmd ok err hp hv =>
      obtain ⟨hid, hsound⟩ := @identity_reachable reg (fun _ _ _ => True) H (fun c l _ => answers_true reg c l) c hr
      have hinc := increments_spec reg p
      rw [show p.view reg = .call cmd ok err from hv] at hinc
      simp only [Core.Program.ran, enqueued_cons] at hj ⊢
      have hj₀ : ¬ Known (enqueued c.log) j := fun hk => hj (hk.mono (List.subset_append_right _ _))
      cases he : enqueues cmd with
      | none =>
        have hraised : (raised reg inp c.world cmd).count j = 0 :=
          List.count_eq_zero.mpr fun hm => hj₀ (raised_known hid (hsound i p hp) hinc.1 hm)
        have := @retryCount_exec reg cmd inp c.world he (onCalls_run (hretry _ _ hH) hp hv) j
        rw [hraised, ih j hj₀] at this
        exact this
      | some x =>
        cases cmd with
        | enqueue req =>
          have := @retryCount_enqueue reg inp c.world req j
          rw [ih j hj₀, ite_self] at this
          exact this
        | _ => cases he
    | @env e => cases e <;> exact ih j hj
    | reject | stop | spawn => exact ih j hj

/-- Deliveries, jobs waiting and jobs about to wait, against the retry count. -/
theorem raised_reachable (hown : ∀ c l, H c l → Answers Own reg c l) (hfresh : ∀ c l, H c l → Fresh reg c l)
    (hretry : ∀ c l, H c l → Unretried reg c l) (h : ((runs reg).restrict H).Reachable c) (j : JobId) :
    ((delivered c.log).map Prod.fst).count j + waiting j c.world + (c.procs.map (paid j)).sum ≤
      retryCount c.world j + (fetched c.log).countP (·.1 = j) := by
  induction h with
  | init hc =>
    cases hc
    exact Nat.le_refl 0
  | @step c l c' hr hs ih =>
    obtain ⟨hs, hH⟩ := hs
    obtain ⟨hid, hsound⟩ := identity_reachable hown hr
    cases hs with
    | @run i inp p cmd ok err hp hv =>
      have hsum := Core.Program.sum_map_set (paid j) hp (ok (exec reg cmd inp c.world).2)
      have hmoves := moves_of_run (hsound i p hp) hv hid (onCalls_run (hown _ _ hH) hp hv)
      have hinc := increments_spec reg p
      have hret := returned_spec reg p
      rw [show p.view reg = .call cmd ok err from hv] at hinc hret
      have hcall := onCalls_run (hretry _ _ hH) hp hv
      have hstep := raise_step hmoves rfl hinc.1 (hret.2.1 _) (retries_of_not_retrying hcall) j
      have hcount : retryCount (exec reg cmd inp c.world).1 j =
          retryCount c.world j + (raised reg inp c.world cmd).count j := by
        cases he : enqueues cmd with
        | none => exact retryCount_exec he hcall j
        | some x =>
          cases cmd with
          | enqueue req =>
            -- a fresh id has no retry count to lose
            rw [retryCount_enqueue]
            split
            · rename_i hj
              have hnew : ¬ Known (enqueued c.log) j := by
                rintro ⟨g, hg⟩
                have hmem : j ∈ (enqueued c.log).map Prod.fst := List.mem_map_of_mem hg
                exact onCalls_run (hfresh _ _ hH) hp hv (req.jobId, req.jobGroupId) rfl (hj ▸ hmem)
              rw [retryCount_unknown hretry hr j hnew]
              rfl
            · rfl
          | _ => cases he
      have hlog : (delivered ((pipeline reg).ran c i cmd inp ok).log).map Prod.fst =
          (delivers cmd (exec reg cmd inp c.world).2).toList ++ (delivered c.log).map Prod.fst := by
        simp only [Core.Program.ran, pipeline, delivered_cons, List.map_append]
        cases delivers cmd (exec reg cmd inp c.world).2 <;> rfl
      rw [hlog]
      simp only [Core.Program.ran, pipeline, fetched_cons, List.countP_append, List.count_append, hcount] at hsum ⊢
      omega
    | @reject i p cmd ok err hp hv _ =>
      have hsum := Core.Program.sum_map_set (paid j) hp err
      have := paid_rejected hv (drops_of_reject (hsound i p hp) hv) j
      simp only
      omega
    | @stop i p hp =>
      have hsum := Core.Program.sum_map_set (paid j) hp Proc.done
      have hdead : paid j .done = 0 := rfl
      simp only [pipeline] at hsum ⊢
      omega
    | @spawn t =>
      have hstart : paid j (Task.start reg t) = 0 := by
        have := paid_le j (Task.start reg t)
        rw [duties_start] at this
        exact Nat.le_zero.mp this
      simp only [pipeline, List.map_append, List.map_cons, List.map_nil, List.sum_append, List.sum_cons, List.sum_nil,
        hstart]
      exact ih
    | @env e => cases e <;> exact ih

/-- Every delivery but the first followed a rise of the retry count. -/
theorem deliveries_le (hown : ∀ c l, H c l → Answers Own reg c l) (hfresh : ∀ c l, H c l → Fresh reg c l)
    (hretry : ∀ c l, H c l → Unretried reg c l) (h : ((runs reg).restrict H).Reachable c) (j : JobId) :
    ((delivered c.log).map Prod.fst).count j ≤ retryCount c.world j + 1 := by
  have hraised := raised_reachable hown hfresh hretry h j
  have hone := fetched_le_one hfresh h j
  omega

end
end NestPlayground.L4
