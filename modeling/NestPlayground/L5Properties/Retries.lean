import NestPlayground.L4Pipeline.Books
import NestPlayground.L4Pipeline.Charges
import NestPlayground.L5Properties.DeadLetters

/-!
# The books of a retried job

A dead-lettered job has a failed result and is counted as done. `retry` and
`retryAll` reset its hash and put it back, but leave the books of its group, so
what becomes of the job the second time is recorded and counted on top. The
books stay right as long as no job is recorded or counted a second time, and a
second result that is a success always spoils them.
-/
namespace NestPlayground.L5.Retries
open L1 L3 L4 DeadLetters

/-- The results of the job `j` in the list of `g`, in the order of their recording. -/
def resultsOf (s : Store) (g : GroupId) (j : JobId) : List JobProcessorResponse :=
  (s.groupJobResults g).filter (·.jobId = j)

/-- `j` succeeded in the end. -/
def Succeeded (s : Store) (g : GroupId) (j : JobId) : Prop := (resultsOf s g j).getLast?.any (·.success) = true

/-- The books of all groups are right: no more results and no more done jobs
than jobs, and a job that succeeded in the end is one success and no failure. -/
structure Right (s : Store) : Prop where
  results : ∀ g, (s.groupMeta g).successCount.getD 0 + (s.groupMeta g).failedCount.getD 0 ≤
    (s.groupMeta g).totalJobs.getD 0
  done : ∀ g, (s.groupMeta g).doneJobs.getD 0 ≤ (s.groupMeta g).totalJobs.getD 0
  success : ∀ g j, Succeeded s g j → (resultsOf s g j).countP (·.success) = 1 ∧
    (resultsOf s g j).countP (!·.success) = 0

/-- Distinct ids, and processors that answer with their job's ids. -/
def Assumed (reg : Registry) (c : State) (l : Label) : Prop := Fresh reg c l ∧ Answers Own reg c l

/-- No job is recorded or counted again. -/
def FirstTime (reg : Registry) : State → Label → Prop :=
  onCalls reg fun c _ cmd _ =>
    (∀ x ∈ records cmd, x.1 ∉ (recorded c.log).map Prod.fst) ∧ ∀ x ∈ acks cmd, x.1 ∉ (acked c.log).map Prod.fst

/-- That, and recovery charges the right groups. -/
def Guarded (reg : Registry) (c : State) (l : Label) : Prop := FirstTime reg c l ∧ OwnGroup reg c l

instance (reg : Registry) (c : State) (l : Label) : Decidable (Assumed reg c l) :=
  inferInstanceAs (Decidable (_ ∧ _))

instance (reg : Registry) (c : State) (l : Label) : Decidable (FirstTime reg c l) :=
  instDecidableOnCalls reg (fun c _ cmd _ =>
    (∀ x ∈ records cmd, x.1 ∉ (recorded c.log).map Prod.fst) ∧ ∀ x ∈ acks cmd, x.1 ∉ (acked c.log).map Prod.fst) c l

instance (reg : Registry) (c : State) (l : Label) : Decidable (Guarded reg c l) :=
  inferInstanceAs (Decidable (_ ∧ _))

section
variable {reg : Registry} {H : State → Label → Prop}

/-- One record and one ack for each job. -/
theorem once_reachable (hH : ∀ c l, H c l → FirstTime reg c l) {c : State}
    (h : ((runs reg).restrict H).Reachable c) :
    ((recorded c.log).map Prod.fst).Nodup ∧ ((acked c.log).map Prod.fst).Nodup := by
  have L : Core.Program.Ledgered (pipeline reg) H fun _ log =>
      ((recorded log).map Prod.fst).Nodup ∧ ((acked log).map Prod.fst).Nodup := by
    refine ⟨?_, fun _ h => h⟩
    intro c i inp p cmd ok err hI hp hv hstep
    obtain ⟨hrec, hack⟩ := onCalls_run (hH _ _ hstep) hp hv
    have hadd : ∀ {o : Option (JobId × GroupId)} {xs : List (JobId × GroupId)},
        (∀ x ∈ o, x.1 ∉ xs.map Prod.fst) → (xs.map Prod.fst).Nodup → ((o.toList ++ xs).map Prod.fst).Nodup := by
      intro o xs ho hxs
      cases o with
      | none => exact hxs
      | some x => exact List.nodup_cons.mpr ⟨ho x rfl, hxs⟩
    simp only [recorded_cons, acked_cons]
    exact ⟨hadd hrec hI.1, hadd hack hI.2⟩
  have h₀ : ((recorded initialState.log).map Prod.fst).Nodup ∧ ((acked initialState.log).map Prod.fst).Nodup :=
    ⟨List.nodup_nil, List.nodup_nil⟩
  exact (L.inductive h₀).reachable c h

theorem countP_le_one {xs : List (JobId × GroupId)} (h : (xs.map Prod.fst).Nodup) (j : JobId) :
    xs.countP (·.1 = j) ≤ 1 := by
  rw [countP_fst]
  exact List.nodup_iff_count_le_one.mp h j

/-- A single result that is a success. -/
theorem counted_of_succeeded {rs : List JobProcessorResponse} (hlen : rs.length ≤ 1)
    (h : rs.getLast?.any (·.success) = true) : rs.countP (·.success) = 1 ∧ rs.countP (!·.success) = 0 := by
  match rs, hlen with
  | [], _ => cases h
  | [r], _ =>
    have hr : r.success = true := h
    simp [hr]

/-- A further result that is a success leaves the first one beside it. -/
theorem spoiled {rs : List JobProcessorResponse} {r : JobProcessorResponse} (hrs : rs ≠ []) (hr : r.success = true) :
    ¬ ((rs ++ [r]).countP (·.success) = 1 ∧ (rs ++ [r]).countP (!·.success) = 0) := by
  rintro ⟨hone, hnone⟩
  obtain ⟨r', rs', rfl⟩ := List.exists_cons_of_ne_nil hrs
  cases hr' : r'.success <;> simp [hr, hr'] at hone hnone

/-- The books are right in every run in which no job is recorded or counted a
second time and recovery charges the right groups; and a success recorded for a
job that has a result in the group already spoils them in any run. -/
theorem retried_books (reg : Registry) :
    (∀ c, ((runs reg).restrict fun c l => Assumed reg c l ∧ Guarded reg c l).Reachable c → Right c.world) ∧
    ∀ c i inp c' r, (runs reg).Reachable c → nextCall reg c i = some (.recordJobResult r) → r.success = true →
      resultsOf c.world r.groupId r.jobId ≠ [] → (pipeline reg).Step c (.run i inp) c' → ¬ Right c'.world := by
  refine ⟨fun c h => ?_, fun c i inp c' r _ hcall hsuccess hrs hs hright => ?_⟩
  · obtain ⟨hrec, hack⟩ := once_reachable (fun _ _ h => h.2.1) h
    obtain ⟨hrecE, hackE⟩ := charged_reachable (fun _ _ h => h.1.2) (fun _ _ h => h.2.2) h
    have hb := books_reachable h
    refine ⟨fun g => ?_, fun g => ?_, fun g j hj => counted_of_succeeded ?_ hj⟩
    · rw [hb.results_length g, hb.total g]
      exact (subperm_of_spent (countP_le_one hrec) hrecE).countP_le _
    · rw [hb.total g]
      exact (hb.done g).trans ((subperm_of_spent (countP_le_one hack) hackE).countP_le _)
    · rw [resultsOf, ← List.countP_eq_length_filter]
      exact (hb.results_of g j).trans (countP_le_one hrec j)
  · cases hs with
    | @run _ _ p cmd ok err hp hv =>
      obtain rfl : cmd = .recordJobResult r := Option.some.inj ((nextCall_eq hp hv).symm.trans hcall)
      have hlist : resultsOf (exec reg (.recordJobResult r) inp c.world).1 r.groupId r.jobId =
          resultsOf c.world r.groupId r.jobId ++ [r] := by
        simp [resultsOf, exec, L2.recordJobResult]
      have hlast : Succeeded (exec reg (.recordJobResult r) inp c.world).1 r.groupId r.jobId := by
        rw [Succeeded, hlist]
        simpa using hsuccess
      have hbooks := hright.success r.groupId r.jobId hlast
      exact spoiled hrs hsuccess (hlist ▸ hbooks)

end
/-- The job fails, is retried and waits for a worker: its failure is all that is in the books. -/
theorem retried_books_waiting : ∃ c : State, c.world.readyQueue = ["j"] ∧
    (c.world.groupMeta "g").failedCount = some 1 ∧ Right c.world := by
  obtain ⟨c, hr, hP⟩ := Core.Program.exists_of_replay (S := pipeline noRetries)
    (P := fun c : State => decide (c.world.readyQueue = ["j"] ∧ (c.world.groupMeta "g").failedCount = some 1))
    (show ((pipeline noRetries).replay (fun c l => decide (Assumed noRetries c l ∧ Guarded noRetries c l)) initialState
      (oneJob ++ failing 2 3 ++ [.spawn (.retry "j")] ++ runsAt 3 4 6)).any _ = true by decide +kernel)
  obtain ⟨hready, hfailed⟩ := of_decide_eq_true hP
  exact ⟨c, hready, hfailed, (retried_books noRetries).1 c (hr.weaken fun _ _ h => of_decide_eq_true h)⟩

/-- The retried job succeeds: one job, two results, done twice. -/
theorem counted_on_top : ¬ ∀ (reg : Registry) (c : State),
    ((runs reg).restrict fun c l => Assumed reg c l ∧ Faultless l).Reachable c → Right c.world := by
  intro h
  obtain ⟨c, hr, hP⟩ := Core.Program.exists_of_replay (S := pipeline noRetries)
    (P := fun c : State => decide ((c.world.groupMeta "g").totalJobs = some 1 ∧
      (c.world.groupMeta "g").successCount = some 1 ∧ (c.world.groupMeta "g").failedCount = some 1 ∧
      (c.world.groupMeta "g").doneJobs = some 2))
    (show ((pipeline noRetries).replay (fun c l => decide (Assumed noRetries c l ∧ Faultless l)) initialState
      (oneJob ++ failing 2 3 ++ [.spawn (.retry "j")] ++ runsAt 3 4 6 ++ processed 4 5 ++ runsAt 4 5 3)).any _ = true by
        decide +kernel)
  obtain ⟨htotal, hsuccess, hfailed, -⟩ := of_decide_eq_true hP
  have := (h noRetries c (hr.weaken fun _ _ h => of_decide_eq_true h)).results "g"
  rw [htotal, hsuccess, hfailed] at this
  exact absurd this (by decide)

end NestPlayground.L5.Retries
