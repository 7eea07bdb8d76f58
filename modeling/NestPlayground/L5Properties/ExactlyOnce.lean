import NestPlayground.L4Pipeline.Books
import NestPlayground.L4Pipeline.Charges

/-!
# Exactly-once accounting

A recorded result and a count in `doneJobs` each spend the one token of their
job. That a job has one token needs what `Worker.tick` does not check: its ack
or nack may be late (the script answers 0, and the result is recorded all the
same) and then the job, recovered in between, is in the pipeline a second time.
And a group is charged for its own jobs only if recovery dead-letters under the
right group, which it takes from the in-flight metadata.
-/
namespace NestPlayground.L5.ExactlyOnce
open L1 L3 L4

/-- Distinct ids, processors that answer with their job's ids, and no
dead-letter retry. -/
def Assumed (reg : Registry) (c : State) (l : Label) : Prop :=
  Fresh reg c l ∧ Answers Own reg c l ∧ NoRetry reg c l

/-- No ack is late, and recovery charges the right group. -/
def Guarded (reg : Registry) (c : State) (l : Label) : Prop := Punctual reg c l ∧ OwnGroup reg c l

instance (reg : Registry) (c : State) (l : Label) : Decidable (Assumed reg c l) :=
  inferInstanceAs (Decidable (_ ∧ _ ∧ _))

instance (reg : Registry) (c : State) (l : Label) : Decidable (Guarded reg c l) :=
  inferInstanceAs (Decidable (_ ∧ _))

section
variable {reg : Registry}

/-- In every run of the assumed kind in which no ack is late and recovery
charges the right groups: at most one result and one count for each job, and no
group shows more results, more done jobs or more progress than it has jobs. -/
theorem exactly_once (c : State)
    (h : ((runs reg).restrict fun c l => Assumed reg c l ∧ Guarded reg c l).Reachable c) :
    (∀ g j, (c.world.groupJobResults g).countP (·.jobId = j) ≤ 1) ∧
    (∀ j, (recorded c.log).countP (·.1 = j) ≤ 1) ∧ (∀ j, (acked c.log).countP (·.1 = j) ≤ 1) ∧
    ∀ g, (getProgress g (c.world.groupMeta g)).successCount + (getProgress g (c.world.groupMeta g)).failedCount ≤
        (getProgress g (c.world.groupMeta g)).totalJobs ∧
      (getProgress g (c.world.groupMeta g)).doneJobs ≤ (getProgress g (c.world.groupMeta g)).totalJobs ∧
      (getProgress g (c.world.groupMeta g)).progressPercent ≤ 100 := by
  have hrec : ∀ j, (recorded c.log).countP (·.1 = j) ≤ 1 := fun j =>
    spent_le_one (fun _ _ h => h.1.2.1) (fun _ _ h => h.1.1) (fun _ _ h => h.1.2.2) (fun _ _ h => h.2.1) h false j
  have hack : ∀ j, (acked c.log).countP (·.1 = j) ≤ 1 := fun j =>
    spent_le_one (fun _ _ h => h.1.2.1) (fun _ _ h => h.1.1) (fun _ _ h => h.1.2.2) (fun _ _ h => h.2.1) h true j
  obtain ⟨hrecE, hackE⟩ := charged_reachable (fun _ _ h => h.1.2.1) (fun _ _ h => h.2.2) h
  have hb := books_reachable h
  refine ⟨fun g j => (hb.results_of g j).trans (hrec j), hrec, hack, fun g => ?_⟩
  · have hdone : (c.world.groupMeta g).doneJobs.getD 0 ≤ (c.world.groupMeta g).totalJobs.getD 0 := by
      rw [hb.total g]
      exact le_trans (hb.done g) ((subperm_of_spent hack hackE).countP_le _)
    refine ⟨?_, hdone, progressPercent_le hdone⟩
    simp only [getProgress]
    rw [hb.results_length g, hb.total g]
    exact (subperm_of_spent hrec hrecE).countP_le _

end

/-- A run of the assumed kind that gets to a recorded and counted result. -/
theorem exactly_once_one_job :
    ∃ c : State, (c.world.groupJobResults "g").length = 1 ∧ (acked c.log).length = 1 ∧
      (∀ g j, (c.world.groupJobResults g).countP (·.jobId = j) ≤ 1) := by
  obtain ⟨c, hr, hs⟩ := Core.Program.exists_of_replay (S := pipeline {})
    (P := fun c => decide ((c.world.groupJobResults "g").length = 1 ∧ (acked c.log).length = 1))
    (show ((pipeline {}).replay
      (fun c l => decide (Assumed {} c l ∧ Guarded {} c l)) initialState
      (oneJob ++ processed 2 3 ++ runsAt 2 3 3)).any _ = true by decide +kernel)
  have hr' : ((runs {}).restrict fun c l => Assumed {} c l ∧ Guarded {} c l).Reachable c :=
    Core.LTS.Reachable.weaken (fun _ _ h => of_decide_eq_true h) hr
  obtain ⟨h1, h2⟩ := of_decide_eq_true hs
  exact ⟨c, h1, h2, (exactly_once c hr').1⟩

/-- The worker's deadline passes while it processes the job, recovery puts the
job back, the worker's ack is late and its result recorded; the next worker
records the job again. -/
theorem recorded_twice :
    ¬ ∀ (reg : Registry) (c : State), ((runs reg).restrict (Assumed reg)).Reachable c → ∀ g j,
      (c.world.groupJobResults g).countP (·.jobId = j) ≤ 1 := by
  intro h
  obtain ⟨c, hr, hs⟩ := Core.Program.exists_of_replay (S := pipeline {})
    (P := fun c => decide ((c.world.groupJobResults "g").countP (·.jobId = "j") = 2))
    (show ((pipeline {}).replay (fun c l => decide (Assumed {} c l)) initialState
      (oneJob ++ processed 2 3 ++ [.spawn .recoverOnce, runAt 3 50003] ++ runsAt 2 50004 2 ++
        processed 4 50005 ++ runsAt 4 50005 2)).any _ = true by decide +kernel)
  have hr' : ((runs {}).restrict (Assumed {})).Reachable c :=
    Core.LTS.Reachable.weaken (fun _ _ h => of_decide_eq_true h) hr
  have := h {} c hr' "g" "j"
  rw [of_decide_eq_true hs] at this
  omega

end NestPlayground.L5.ExactlyOnce
