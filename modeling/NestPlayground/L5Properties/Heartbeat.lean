import NestPlayground.L4Pipeline.Deadlines
import NestPlayground.L4Pipeline.Timed

/-!
# Live workers and the deadline

The deadline of a job is renewed for `ackTimeoutMs` at a period derived from
`jobTimeoutMs`, and the module relates neither setting to the other. A job in
execution keeps a deadline in the future exactly if `ackTimeoutMs` is longer than the heartbeat
period or the whole execution, whichever is shorter.
-/
namespace NestPlayground.L5.Heartbeat
open L1 L3 L4

/-- If `j` is in flight, its deadline is at `b` or later. -/
def NotBefore (s : Store) (j : JobId) (b : Nat) : Prop := ∀ d, s.inFlightQueue.score j = some d → b ≤ d

/-- If activity `i` executes a job, the deadline is in the future and orphan
recovery, run now, leaves the job alone. -/
def Spared (reg : Registry) (t : Timed) (i : Nat) : Prop :=
  ∀ p j, t.state.procs[i]? = some p → executing p = some j →
    (∀ d, t.state.world.inFlightQueue.score j = some d → t.clock < d) ∧
    ∀ inp : Input, inp.now = t.clock → j ∉ expired reg inp t.state.world .recoverOrphans

/-- The invariant of activity `i`: when its timer was armed the deadline was
put off by `ackTimeoutMs`, and neither timer is overdue. -/
def Timely (reg : Registry) (lasts : Nat → Nat) (t : Timed) (i : Nat) : Proc → Prop
  | .tick (.loadJob j) | .tick (.startTime j _) =>
    NotBefore t.state.world j (t.clock + reg.config.reliableQueue.ackTimeoutMs)
  | .tick (.process j _ startTime) =>
    startTime ≤ t.armed i ∧ t.armed i ≤ t.clock ∧ t.clock ≤ t.armed i + heartbeatInterval reg ∧
    t.clock ≤ startTime + executionTime reg (lasts i) ∧
    NotBefore t.state.world j (t.armed i + reg.config.reliableQueue.ackTimeoutMs)
  | .tick (.heartbeat j _ startTime) =>
    t.armed i = t.clock ∧ t.clock ≤ startTime + executionTime reg (lasts i) ∧
    ∃ before, startTime ≤ before ∧ before + heartbeatInterval reg = t.clock ∧
      NotBefore t.state.world j (before + reg.config.reliableQueue.ackTimeoutMs)
  | _ => True

section
variable {reg : Registry} {lasts : Nat → Nat} {t t' : Timed} {i : Nat} {j : JobId} {b : Nat} {s : Store}

theorem NotBefore.mono (h : NotBefore s j b) {a : Nat} (hab : a ≤ b) : NotBefore s j a :=
  fun d hd => hab.trans (h d hd)

theorem notBefore_of_notMem (h : j ∉ s.inFlightQueue) : NotBefore s j b :=
  fun d hd => absurd (Core.ZSet.mem_iff_score.mpr ⟨d, hd⟩) h

theorem notBefore_zadd {k : JobId} {d : Nat} (h : NotBefore s j b) (hb : b ≤ d) {s' : Store}
    (hs : s'.inFlightQueue = s.inFlightQueue.zadd d k) : NotBefore s' j b := by
  intro e he
  rw [hs] at he
  rcases eq_or_ne j k with rfl | hne
  · rw [Core.ZSet.score_zadd_self] at he
    cases he
    exact hb
  · rw [Core.ZSet.score_zadd_ne _ _ hne] at he
    exact h e he

/-- No call brings a deadline forward to less than `ackTimeoutMs` from now. -/
theorem notBefore_exec {cmd : Cmd} {inp : Input} (h : NotBefore s j b)
    (hb : b ≤ inp.now + reg.config.reliableQueue.ackTimeoutMs) : NotBefore (exec reg cmd inp s).1 j b := by
  by_cases hf : flights cmd = true
  · cases cmd with
    | reliableDequeue w k n g =>
      simp only [exec, L2.reliableDequeue]
      cases s.readyQueue with
      | nil => exact h
      | cons x rest => exact notBefore_zadd h hb rfl
    | reliableAck k =>
      rcases eq_or_ne j k with rfl | hne
      · exact notBefore_of_notMem fun hmem => (Core.ZSet.mem_zrem.mp hmem).2 rfl
      · intro d hd
        simp only [exec, L2.reliableAck, Core.ZSet.score_zrem_ne _ hne] at hd
        exact h d hd
    | extendDeadline k =>
      simp only [exec, L2.extendDeadline]
      split
      · exact notBefore_zadd h hb rfl
      · exact h
    | recoverOrphans =>
      obtain ⟨dead, jobs, he, -⟩ := L2.recoverOrphans_spec inp.now reg.config.reliableQueue.maxRetryCount
        reg.config.reliableQueue.orphanRecoveryBatchSize s
      intro d hd
      simp only [exec, he] at hd
      by_cases hj : j ∈ s.inFlightQueue.rangeByScore inp.now reg.config.reliableQueue.orphanRecoveryBatchSize
      · exact absurd (Core.ZSet.mem_iff_score.mpr ⟨d, hd⟩) fun hmem => (Core.ZSet.mem_foldl_zrem.mp hmem).2 hj
      · rw [Core.ZSet.score_foldl_zrem hj] at hd
        exact h d hd
    | _ => cases hf
  · intro d hd
    rw [(@flight_frame reg cmd inp s (eq_false_of_ne_true hf)).1] at hd
    exact h d hd

/-- The worker that a delivery hands a job to has the whole `ackTimeoutMs`. -/
theorem notBefore_delivered {cmd : Cmd} {inp : Input} (h : delivers cmd (exec reg cmd inp s).2 = some j) :
    NotBefore (exec reg cmd inp s).1 j (inp.now + reg.config.reliableQueue.ackTimeoutMs) := by
  cases cmd with
  | reliableDequeue w k n g =>
    simp only [exec, L2.reliableDequeue] at h ⊢
    cases hr : s.readyQueue with
    | nil =>
      rw [hr] at h
      cases h
    | cons x rest =>
      rw [hr] at h
      cases h
      intro d hd
      rw [Core.ZSet.score_zadd_self] at hd
      cases hd
      exact le_refl _
  | _ => cases h

theorem notBefore_extended {inp : Input} :
    NotBefore (exec reg (.extendDeadline j) inp s).1 j (inp.now + reg.config.reliableQueue.ackTimeoutMs) := by
  simp only [exec, L2.extendDeadline]
  split
  · intro d hd
    rw [Core.ZSet.score_zadd_self] at hd
    cases hd
    exact le_refl _
  · rename_i hj
    exact notBefore_of_notMem hj

theorem timely_of_idle {p : Proc} (h : executing p = none) : Timely reg lasts t i p := by
  unfold Timely
  split <;> first | cases h | trivial

/-- What the others do in no time leaves the invariant of an activity alone. -/
theorem Timely.other {p : Proc} (h : Timely reg lasts t i p) (hclock : t'.clock = t.clock)
    (harmed : t'.armed i = t.armed i)
    (hworld : ∀ j b, b ≤ t.clock + reg.config.reliableQueue.ackTimeoutMs → NotBefore t.state.world j b →
      NotBefore t'.state.world j b) : Timely reg lasts t' i p := by
  by_cases hp : executing p = none
  · exact timely_of_idle hp
  cases p with
  | tick p =>
    cases p with
    | loadJob | startTime =>
      simp only [Timely, hclock] at h ⊢
      exact hworld _ _ (le_refl _) h
    | process j job startTime =>
      simp only [Timely, hclock, harmed] at h ⊢
      obtain ⟨h1, h2, h3, h4, h5⟩ := h
      exact ⟨h1, h2, h3, h4, hworld _ _ (Nat.add_le_add_right h2 _) h5⟩
    | heartbeat j job startTime =>
      simp only [Timely, hclock, harmed] at h ⊢
      obtain ⟨h1, h2, a, h3, h4, h5⟩ := h
      exact ⟨h1, h2, a, h3, h4, hworld _ _ (by omega) h5⟩
    | _ => exact absurd rfl hp
  | _ => exact absurd rfl hp

/-- A step of the worker itself, when it is due. -/
theorem timely_run {p : Proc} {cmd : Cmd} {ok : Reply cmd → Proc} {err : Proc} {inp : Input}
    (h : Timely reg lasts t i p) (hv : p.view reg = .call cmd ok err) (hnow : inp.now = t.clock)
    (hdue : Due reg lasts t i inp p) (hworld : t'.state.world = (exec reg cmd inp t.state.world).1)
    (hclock : t'.clock = t.clock) (harmed : t'.armed i = if arms p then t.clock else t.armed i) :
    Timely reg lasts t' i (ok (exec reg cmd inp t.state.world).2) := by
  by_cases hex : executing p = none
  · have hspec := @enters_spec reg p hex
    rw [hv] at hspec
    rcases hspec.2.1 (exec reg cmd inp t.state.world).2 with hnone | ⟨j, hj, hdel⟩
    · exact timely_of_idle hnone
    · rw [hj]
      simp only [Timely, hworld, hclock]
      exact hnow ▸ notBefore_delivered hdel
  cases p with
  | tick p =>
    cases p with
    | loadJob j =>
      cases hv
      simp only [exec] at hworld ⊢
      have hstart : Timely reg lasts t' i (.tick (.loadJob j)) := by
        simpa only [Timely, hworld, hclock] using h
      simp only [TickPc.loaded]
      split
      · trivial
      · split
        · exact hstart
        · trivial
    | startTime j job =>
      cases hv
      simp only [exec] at hworld ⊢
      split
      · simp only [arms, if_true] at harmed
        simp only [resume, Timely, harmed, hworld, hclock, hnow]
        exact ⟨le_refl _, le_refl _, Nat.le_add_right _ _, Nat.le_add_right _ _, h⟩
      · trivial
    | process j job startTime =>
      cases hv
      obtain ⟨h1, h2, h3, h4, h5⟩ := h
      simp only [exec] at hworld ⊢
      split
      · rename_i ho
        simp only [Due, ho] at hdue
        simp only [arms, if_true] at harmed
        simp only [resume, Timely, harmed, hworld, hclock]
        exact ⟨trivial, h4, _, h1, hdue.symm, h5⟩
      · trivial
      · trivial
    | heartbeat j job startTime =>
      cases hv
      obtain ⟨h1, h2, a, h3, h4, h5⟩ := h
      have hbeat : startTime ≤ t.clock := h4 ▸ Nat.le_add_right_of_le h3
      have harmed : t'.armed i = t.clock := harmed.trans h1
      simp only [resume, Timely, harmed, hworld, hclock]
      exact ⟨hbeat, le_refl _, Nat.le_add_right _ _, h2, hnow ▸ notBefore_extended⟩
    | _ => exact absurd rfl hex
  | _ => exact absurd rfl hex

/-- While everybody waits, no timer becomes overdue. -/
theorem timely_elapse {p : Proc} (h : Timely reg lasts t i p) (hw : Waits reg lasts t i p) :
    Timely reg lasts { t with clock := t.clock + 1 } i p := by
  by_cases hex : executing p = none
  · exact timely_of_idle hex
  cases p with
  | tick p =>
    cases p with
    | process j job startTime =>
      obtain ⟨h1, h2, h3, h4, h5⟩ := h
      exact ⟨h1, Nat.le_succ_of_le h2, hw.1, hw.2, h5⟩
    | _ => exact absurd hw hex
  | _ => exact absurd hw hex

theorem timely_step {l : Option Label} (hs : TimedStep reg lasts t l t')
    (h : ∀ (i : Nat) p, t.state.procs[i]? = some p → Timely reg lasts t i p) :
    ∀ (i : Nat) p, t'.state.procs[i]? = some p → Timely reg lasts t' i p := by
  cases hs with
  | elapse hwait => exact fun i p hp => timely_elapse (h i p hp) (hwait i p hp)
  | @act l c hstep hon =>
    cases hstep with
    | @run k inp q cmd ok err hq hv =>
      obtain ⟨hnow, hdue⟩ := hon
      refine Core.Program.forall_set (fun i p hne hp => ?_) ?_
      · refine (h i p hp).other rfl ?_ fun j b hb hj => notBefore_exec hj (hnow ▸ hb)
        simp only [armedAfter]
        split
        · exact Function.update_of_ne hne _ _
        · rfl
      · refine timely_run (h k q hq) hv hnow (hdue q hq) rfl rfl ?_
        simp only [armedAfter, hq, Option.any_some]
        split
        · exact Function.update_self _ _ _
        · rfl
    | reject => cases hon
    | stop hq =>
      refine Core.Program.forall_set (fun i p _ hp => (h i p hp).other rfl rfl fun _ _ _ hj => hj) ?_
      exact timely_of_idle rfl
    | @spawn task =>
      refine Core.Program.forall_append (fun i p hp => (h i p hp).other rfl rfl fun _ _ _ hj => hj) ?_
      exact timely_of_idle (executing_of_started (task.started reg))
    | @env e => exact fun i p hp => (h i p hp).other rfl rfl fun _ _ _ hj => by cases e <;> exact hj

theorem timely_reachable (h : (timedRuns reg lasts).Reachable t) :
    ∀ (i : Nat) p, t.state.procs[i]? = some p → Timely reg lasts t i p := by
  induction h with
  | init h => exact fun i p hp => timely_of_idle (h p (List.mem_of_getElem? hp))
  | step _ hs ih => exact timely_step hs ih

/-- The condition: a renewal outlasts the time to the next one, or the whole execution. -/
theorem spared_of_timely (h : ∀ (i : Nat) p, t.state.procs[i]? = some p → Timely reg lasts t i p)
    (hlong : min (heartbeatInterval reg) (executionTime reg (lasts i)) < reg.config.reliableQueue.ackTimeoutMs) :
    Spared reg t i := by
  intro p j hp hj
  have hlate : NotBefore t.state.world j (t.clock + 1) := by
    have hi := h i p hp
    unfold executing at hj
    split at hj
    · cases hj
      exact hi.mono (by omega)
    · cases hj
      exact hi.mono (by omega)
    · cases hj
      obtain ⟨h1, h2, h3, h4, h5⟩ := hi
      exact h5.mono (by omega)
    · cases hj
      obtain ⟨h1, h2, a, h3, h4, h5⟩ := hi
      exact h5.mono (by omega)
    · cases hj
  refine ⟨hlate, fun inp hnow hmem => ?_⟩
  obtain ⟨d, hd, hle⟩ := Core.ZSet.score_le_of_mem_rangeByScore hmem
  have := hlate d hd
  omega

/-! ## A deadline that passes -/

/-- Activity `i` is at `p`, all others have ended. -/
structure Alone (t : Timed) (i : Nat) (p : Proc) (w : Store) : Prop where
  at_ : t.state.procs[i]? = some p
  others : ∀ (k : Nat) q, k ≠ i → t.state.procs[k]? = some q → q = .done
  world : t.state.world = w

theorem Alone.run {p : Proc} {w : Store} {cmd : Cmd} {ok : Reply cmd → Proc} {err : Proc} (h : Alone t i p w)
    (hr : (timedRuns reg lasts).Reachable t) (hv : p.view reg = .call cmd ok err)
    (hdue : Due reg lasts t i { now := t.clock } p) :
    ∃ t', (timedRuns reg lasts).Reachable t' ∧ t'.clock = t.clock ∧
      t'.armed i = (if arms p then t.clock else t.armed i) ∧
      Alone t' i (ok (exec reg cmd { now := t.clock } w).2) (exec reg cmd { now := t.clock } w).1 := by
  have hon : OnTime reg lasts t (.run i { now := t.clock }) := by
    refine ⟨rfl, fun q hq => ?_⟩
    rw [h.at_, Option.some.injEq] at hq
    exact hq ▸ hdue
  refine ⟨_, hr.step (.act (.run h.at_ hv) hon), rfl, ?_, ?_⟩
  · simp only [armedAfter, h.at_, Option.any_some]
    split
    · exact Function.update_self _ _ _
    · rfl
  · have hlt := (List.getElem?_eq_some_iff.mp h.at_).1
    obtain ⟨-, hothers, rfl⟩ := h
    refine ⟨List.getElem?_set_self hlt, fun k q hk hq => ?_, rfl⟩
    simp only [Core.Program.ran, List.getElem?_set_ne (Ne.symm hk)] at hq
    exact hothers k q hk hq

/-- Time passes up to the next timer. -/
theorem Alone.elapse {job : Job} {startTime : Nat} {w : Store} (n : Nat) (hr : (timedRuns reg lasts).Reachable t)
    (h : Alone t i (.tick (.process j job startTime)) w) (hbeat : t.clock + n ≤ t.armed i + heartbeatInterval reg)
    (hend : t.clock + n ≤ startTime + executionTime reg (lasts i)) :
    ∃ t', (timedRuns reg lasts).Reachable t' ∧ t'.clock = t.clock + n ∧
      Alone t' i (.tick (.process j job startTime)) w := by
  induction n generalizing t with
  | zero => exact ⟨t, hr, rfl, h⟩
  | succ n ih =>
    have hwait : ∀ (k : Nat) q, t.state.procs[k]? = some q → Waits reg lasts t k q := by
      intro k q hq
      rcases eq_or_ne k i with rfl | hk
      · rw [h.at_, Option.some.injEq] at hq
        subst hq
        exact ⟨by omega, by omega⟩
      · rw [h.others k q hk hq]
        rfl
    obtain ⟨t', hr', hclock, h'⟩ := ih (hr.step (.elapse hwait)) ⟨h.at_, h.others, h.world⟩
      (by simp only; omega) (by simp only; omega)
    exact ⟨t', hr', by simp only at hclock; omega, h'⟩

/-- Worker `i` is about to take the only job there is. -/
def taking (type : String) (i : Nat) : Timed where
  state :=
    { world := { Store.empty with
        readyQueue := ["j"]
        jobs := fun _ => { id := some "j", groupId := some "g", processorType := some type, payload := some "null" } }
      procs := List.replicate i .done ++ [.tick (.dequeue (.script "worker-0" "i" 0 "g"))]
      log := [] }
  clock := 0
  armed := fun _ => 0

/-- The job, as the worker loads it. -/
def loaded (type : String) : Job where
  id := "j"
  groupId := "g"
  processorType := type
  payload := "null"
  status := .pending
  retryCount := 0
  createdAt := 0

/-- The database once the worker has taken it. -/
def handedOver (reg : Registry) (type : String) (i : Nat) : Store :=
  (exec reg (.reliableDequeue "worker-0" "i" 0 "g") {} (taking type i).state.world).1

/-- A deadline that neither the first heartbeat nor the end of the execution
precedes passes during the execution. -/
theorem passes {type : String} (htype : type ∈ reg.processors)
    (hshort : reg.config.reliableQueue.ackTimeoutMs ≤ min (heartbeatInterval reg) (executionTime reg (lasts i))) :
    ∃ t, (timedRuns reg lasts).Reachable t ∧ t.clock = reg.config.reliableQueue.ackTimeoutMs ∧
      Alone t i (.tick (.process "j" (loaded type) 0)) (handedOver reg type i) := by
  have h₀ : Alone (taking type i) i (.tick (.dequeue (.script "worker-0" "i" 0 "g"))) (taking type i).state.world := by
    refine ⟨?_, fun k q hk hq => ?_, rfl⟩
    · simp [taking]
    · rcases Nat.lt_or_gt_of_ne hk with hlt | hgt
      · rw [taking, List.getElem?_append_left (by simpa using hlt), List.getElem?_replicate_of_lt hlt] at hq
        exact (Option.some.inj hq).symm
      · rw [taking, List.getElem?_eq_none (by simp; omega)] at hq
        cases hq
  have hr₀ : (timedRuns reg lasts).Reachable (taking type i) := by
    refine .init fun p hp => ?_
    rcases List.mem_append.mp hp with hp | hp
    · rw [List.eq_of_mem_replicate hp]
      rfl
    · rw [List.mem_singleton.mp hp]
      rfl
  -- the script, the load, the clock and `setInterval`, all at 0
  obtain ⟨t₁, hr₁, hclock₁, -, h₁⟩ := h₀.run hr₀ rfl trivial
  have h₁ : Alone t₁ i (.tick (.loadJob "j")) (handedOver reg type i) := h₁
  obtain ⟨t₂, hr₂, hclock₂, -, h₂⟩ := h₁.run hr₁ rfl trivial
  have h₂ : Alone t₂ i (.tick (.startTime "j" (loaded type))) (handedOver reg type i) := h₂
  obtain ⟨t₃, hr₃, hclock₃, harmed₃, h₃⟩ := h₂.run hr₂ rfl trivial
  have hzero : t₂.clock = 0 := hclock₂.trans hclock₁
  rw [hzero] at hclock₃ harmed₃
  have h₃ : Alone t₃ i (.tick (.process "j" (loaded type) 0)) (handedOver reg type i) := by
    simpa only [exec, loaded, htype, if_true, resume, hzero] using h₃
  have harmed₃ : t₃.armed i = 0 := harmed₃
  obtain ⟨hbeat, hend⟩ := Nat.le_min.mp hshort
  obtain ⟨t, hr, hclock, h⟩ := h₃.elapse reg.config.reliableQueue.ackTimeoutMs hr₃ (by omega) (by omega)
  exact ⟨t, hr, by omega, h⟩

/-- For every configuration and every duration of the processor runs, from any
state of the database: the worker's jobs are spared in all runs exactly if
`ackTimeoutMs` is longer than the heartbeat period or the execution. -/
theorem live_worker_spared (reg : Registry) (hprocessors : reg.processors ≠ []) (lasts : Nat → Nat) (i : Nat) :
    (∀ t, (timedRuns reg lasts).Reachable t → Spared reg t i) ↔
      min (heartbeatInterval reg) (executionTime reg (lasts i)) < reg.config.reliableQueue.ackTimeoutMs := by
  constructor
  · intro hspared
    by_contra hshort
    obtain ⟨type, htype⟩ := List.exists_mem_of_ne_nil _ hprocessors
    obtain ⟨t, hr, hclock, h⟩ := passes htype (Nat.le_of_not_lt hshort)
    have hlate := (hspared t hr _ _ h.at_ rfl).1 reg.config.reliableQueue.ackTimeoutMs
    rw [h.world, hclock] at hlate
    refine absurd (hlate ?_) (Nat.lt_irrefl _)
    simp [handedOver, taking, exec, L2.reliableDequeue]
  · exact fun hlong t hr => spared_of_timely (timely_reachable hr) hlong

theorem live_worker_spared_default :
    ({} : Registry).processors ≠ [] ∧ ∀ t, (timedRuns {} fun _ => 30000).Reachable t → Spared {} t 0 :=
  ⟨by decide, (live_worker_spared {} (by decide) (fun _ => 30000) 0).mpr (by decide)⟩

/-- A deadline of half the time limit. -/
def hasty : Registry := { config := { reliableQueue := { ackTimeoutMs := 15000 } } }

/-- A job that takes 20 of its 30 seconds: the first heartbeat is due after 18,
and recovery gives the job away after 15. -/
theorem recovered_from_live_worker : 20000 ≤ hasty.config.workerPool.jobTimeoutMs ∧
    ∃ t, (timedRuns hasty fun _ => 20000).Reachable t ∧ ¬ Spared hasty t 0 ∧
      (t.state.procs[0]?).bind executing = some "j" ∧
      (exec hasty .recoverOrphans { now := t.clock } t.state.world).1.readyQueue = ["j"] := by
  refine ⟨by decide, ?_⟩
  obtain ⟨t, hr, hclock, h⟩ := @passes hasty (fun _ => 20000) 0 "SEND_EMAIL" (by decide) (by decide)
  refine ⟨t, hr, fun hspared => ?_, by rw [h.at_]; rfl, by rw [h.world, hclock]; decide +kernel⟩
  refine (hspared _ _ h.at_ rfl).2 { now := t.clock } rfl ?_
  rw [h.world, hclock]
  decide +kernel

end
end NestPlayground.L5.Heartbeat
