import NestPlayground.L4Pipeline.Frames

/-!
# The active groups

`rate-limit-check.lua` adds its group to `active-groups`, and the size of the
set divides the global rate: for the limit of a group there, and for the speed
`congestion-backoff.lua` goes by. Only `deactivateGroup` takes a group out, and
nothing calls it: a group that ever had a job checked stays in the set after it
has finished (`finished_active`). The set is exactly the groups checked and not
deactivated since (`checked_iff`), so it holds unfinished groups only as long
as no finished group is among these.
-/
namespace NestPlayground.L5.ActiveGroups
open L1 L3 L4

/-- The jobs in the four queues. -/
def queuedJobs (w : Store) : List JobId :=
  w.readyQueue ++ w.nonReadyQueue.members ++ w.inFlightQueue.members ++ w.deadLetterQueue.map (·.jobId)

/-- COMPLETED or FAILED, with no job left in any queue. -/
def Finished (w : Store) (g : GroupId) : Prop :=
  (w.groupMeta g).status.any isTerminal = true ∧ w.groupJobs g = [] ∧
    ∀ j ∈ queuedJobs w, (w.jobs j).groupId ≠ some g

instance (w : Store) (g : GroupId) : Decidable (Finished w g) := inferInstanceAs (Decidable (_ ∧ _))

/-- What a call says about `g` in the set. -/
def marks (g : GroupId) : Cmd → Option Bool
  | .rateLimitCheck g' => if g' = g then some true else none
  | .activeRemove g' => if g' = g then some false else none
  | _ => none

/-- The rate limit of `g` has been checked, and `g` has not been deactivated since. -/
def checked (g : GroupId) (log : Log) : Bool := ((log.filterMap fun e => marks g e.cmd).head?).getD false

/-- The rate of one of `k` groups. -/
def share (reg : Registry) (k : Nat) : Nat := max 1 (reg.config.backpressure.globalRps / max 1 k)

/-- The groups that still have work. -/
def unfinished (w : Store) (gs : List GroupId) : List GroupId := gs.filter fun g => ¬ Finished w g

/-- No finished group is active; a check that gets as far as the group's limit
and every backoff go by the number of groups with work (the checked group is
one of them). -/
structure Unfinished (reg : Registry) (w : Store) : Prop where
  members : ∀ g, Finished w g → g ∉ w.activeGroups
  limit : ∀ g inp, (exec reg (.rateLimitCheck g) inp w).2.perGroupLimit = 0 ∨
    (exec reg (.rateLimitCheck g) inp w).2.perGroupLimit =
      share reg (Store.sadd (unfinished w w.activeGroups) g).length
  speed : ∀ j g inp, (exec reg (.congestionBackoff j g) inp w).2.rateLimitSpeed =
    share reg (unfinished w w.activeGroups).length

section
variable {reg : Registry} {cmd : Cmd} {inp : Input} {s : Store} {g : GroupId}

theorem mem_active_exec : g ∈ (exec reg cmd inp s).1.activeGroups ↔
    (marks g cmd).getD (decide (g ∈ s.activeGroups)) = true := by
  have hkeep : ∀ {s' : Store}, s'.activeGroups = s.activeGroups → marks g cmd = none →
      (g ∈ s'.activeGroups ↔ (marks g cmd).getD (decide (g ∈ s.activeGroups)) = true) := by
    intro s' hs hm
    rw [hs, hm, Option.getD_none, decide_eq_true_eq]
  cases cmd with
  | rateLimitCheck g' =>
    have hactive : (exec reg (.rateLimitCheck g') inp s).1.activeGroups = Store.sadd s.activeGroups g' := by
      simp only [exec, L2.rateLimitCheck]
      split
      · rfl
      · split <;> rfl
    rw [hactive, Store.mem_sadd, marks]
    rcases eq_or_ne g' g with rfl | hne
    · simp
    · simp [hne, hne.symm]
  | activeRemove g' =>
    simp only [exec, Store.mem_srem, marks]
    rcases eq_or_ne g' g with rfl | hne
    · simp
    · simp [hne, hne.symm]
  | acquireLock k t =>
    obtain ⟨_, he⟩ := L2.acquireLock_frame k t s
    exact hkeep (by simp only [exec, he]) rfl
  | releaseLock k t =>
    obtain ⟨_, he⟩ := L2.releaseLock_frame k t s
    exact hkeep (by simp only [exec, he]) rfl
  | transitionStatus g' t =>
    obtain ⟨_, he⟩ := @transitionStatus_frame reg inp s g' t
    exact hkeep (by rw [he]) rfl
  | dequeue =>
    obtain ⟨_, _, _, he⟩ := @dequeue_frame reg inp s
    exact hkeep (by rw [he]) rfl
  | moveToReady =>
    obtain ⟨_, _, he⟩ := @moveToReady_frame reg inp s
    exact hkeep (by rw [he]) rfl
  | reliableDequeue w i n g' =>
    obtain ⟨_, _, _, he⟩ := @reliableDequeue_frame reg inp s w i n g'
    exact hkeep (by rw [he]) rfl
  | extendDeadline j =>
    obtain ⟨_, _, he⟩ := @extendDeadline_frame reg inp s j
    exact hkeep (by rw [he]) rfl
  | recoverOrphans =>
    obtain ⟨dead, jobs, he, -⟩ := L2.recoverOrphans_spec inp.now reg.config.reliableQueue.maxRetryCount
      reg.config.reliableQueue.orphanRecoveryBatchSize s
    exact hkeep (by simp only [exec, he]) rfl
  | _ => exact hkeep rfl rfl

theorem checked_cons {i : Nat} {r : Reply cmd} {log : Log} :
    checked g (⟨i, cmd, r⟩ :: log) = (marks g cmd).getD (checked g log) := by
  unfold checked
  cases h : marks g cmd <;> simp [h]

/-- The set is the groups checked and not deactivated since. -/
theorem checked_iff {c : State} (h : (runs reg).Reachable c) (g : GroupId) :
    g ∈ c.world.activeGroups ↔ checked g c.log = true := by
  induction h with
  | init hc =>
    cases hc
    exact iff_of_false List.not_mem_nil (by simp [initialState, checked])
  | @step c l c' _ hs ih =>
    cases hs with
    | @run i inp p cmd ok err hp hv =>
      have hstep := @mem_active_exec reg cmd inp c.world g
      have hcons := @checked_cons cmd g i (exec reg cmd inp c.world).2 c.log
      have hbefore : decide (g ∈ c.world.activeGroups) = checked g c.log := by
        rw [Bool.eq_iff_iff, decide_eq_true_eq]
        exact ih
      rw [hbefore, ← hcons] at hstep
      exact hstep
    | @env e => cases e <;> exact ih
    | reject | stop | spawn => exact ih

/-- With unfinished members only, the whole set is counted. -/
theorem unfinished_of_members (h : ∀ g, Finished s g → g ∉ s.activeGroups) : Unfinished reg s := by
  have hall : unfinished s s.activeGroups = s.activeGroups := by
    refine List.filter_eq_self.mpr fun g hg => ?_
    exact decide_eq_true fun hf => h g hf hg
  refine ⟨h, fun g inp => ?_, fun j g inp => ?_⟩
  · rw [hall]
    simp only [exec, L2.rateLimitCheck]
    split
    · exact .inl rfl
    · split <;> exact .inr rfl
  · rw [hall]
    rfl

/-- In every reachable state the set holds unfinished groups only, and limit and
speed go by their number, exactly when no finished group has had its rate limit
checked since it was last deactivated. -/
theorem active_groups_unfinished (reg : Registry) (c : State) (h : (runs reg).Reachable c) :
    Unfinished reg c.world ↔ ∀ g, Finished c.world g → checked g c.log = false := by
  have hset : ∀ g, g ∉ c.world.activeGroups ↔ checked g c.log = false := by
    intro g
    rw [checked_iff h g, Bool.not_eq_true]
  constructor
  · intro hu g hg
    exact (hset g).mp (hu.members g hg)
  · intro hchecked
    exact unfinished_of_members fun g hg => (hset g).mpr (hchecked g hg)

end

/-- The group of `oneJob` is active while its job waits. -/
theorem active_groups_unfinished_admitted : ∃ c : State, "g" ∈ c.world.activeGroups ∧ Unfinished {} c.world := by
  obtain ⟨c, hr, hP⟩ := Core.Program.exists_of_replay (S := pipeline {})
    (P := fun c : State => decide ("g" ∈ c.world.activeGroups ∧ c.world.activeGroups = ["g"] ∧
      (c.world.groupMeta "g").status.any isTerminal = false))
    (show ((pipeline {}).replay (fun _ _ => true) initialState oneJob).any _ = true by decide +kernel)
  obtain ⟨hmem, hactive, hstatus⟩ := of_decide_eq_true hP
  refine ⟨c, hmem, (active_groups_unfinished {} c hr.unrestrict).mpr fun g hg => ?_⟩
  -- the only active group has not finished
  by_contra hne
  have hin := (checked_iff hr.unrestrict g).mpr (Bool.not_eq_false _ ▸ hne)
  rw [hactive, List.mem_singleton] at hin
  have := hg.1
  rw [hin, hstatus] at this
  cases this

/-- The group of one job completes and stays active. -/
theorem finished_active : ¬ ∀ (reg : Registry) (c : State), (runs reg).Reachable c → Unfinished reg c.world := by
  intro h
  obtain ⟨c, hr, hP⟩ := Core.Program.exists_of_replay (S := pipeline {})
    (P := fun c : State => decide (Finished c.world "g" ∧ "g" ∈ c.world.activeGroups))
    (show ((pipeline {}).replay (fun _ _ => true) initialState
      (oneJob ++ processed 2 3 ++ runsAt 2 4 13)).any _ = true by decide +kernel)
  obtain ⟨hfin, hmem⟩ := of_decide_eq_true hP
  exact (h {} c hr.unrestrict).members "g" hfin hmem

end NestPlayground.L5.ActiveGroups
