import NestPlayground.L4Pipeline.Books
import NestPlayground.L4Pipeline.Finalizing

/-!
# No premature completion

`submitBulkJobs` enqueues its jobs one by one while workers already run, and
`ack.lua` compares `doneJobs` with the jobs enqueued so far: when the workers
catch up with the submission it sets AGGREGATING and the group is finalized
without the rest (`completed_while_submitting`). It does not look at
`registeredJobs`, which is written after the last job and which the watcher
waits for. While no `ack.lua` catches up, the group stays CREATED (or FAILED)
and without a result until the last job is enqueued.
-/
namespace NestPlayground.L5.Completion
open L1 L3 L4

/-- Every job of the request has been enqueued to its group, one that is listed
twice as often as it is listed. -/
def AllEnqueued (req : SubmitBulkJobsRequest) (log : Log) : Prop :=
  ∀ job ∈ req.jobs, (req.jobs.map (·.jobId)).count job.jobId ≤ (enqueued log).count (job.jobId, req.groupId)

/-- Nothing else is submitted to the group. -/
def Sole (req : SubmitBulkJobsRequest) : Label → Prop
  | .spawn (.submitJob r) => r.jobGroupId ≠ req.groupId
  | .spawn (.submitBulkJobs r) => r.groupId = req.groupId → r = req
  | _ => True

/-- While the request is being submitted, `ack.lua` finds the group incomplete. -/
def Unfinished (reg : Registry) (req : SubmitBulkJobsRequest) : State → Label → Prop :=
  onCalls reg fun c _ cmd _ => ∀ x ∈ acks cmd, x.2 = req.groupId → ¬ AllEnqueued req c.log →
    (c.world.groupMeta x.2).doneJobs.getD 0 + 1 < (c.world.groupMeta x.2).totalJobs.getD 0

instance (req : SubmitBulkJobsRequest) (log : Log) : Decidable (AllEnqueued req log) :=
  inferInstanceAs (Decidable (∀ job ∈ req.jobs, _))

instance (req : SubmitBulkJobsRequest) (l : Label) : Decidable (Sole req l) :=
  match l with
  | .spawn (.submitJob r) => inferInstanceAs (Decidable (r.jobGroupId ≠ req.groupId))
  | .spawn (.submitBulkJobs r) => inferInstanceAs (Decidable (r.groupId = req.groupId → r = req))
  | .spawn .fetchCycle | .spawn .dispatchOnce | .spawn (.tick _ _) | .spawn .recoverOnce => isTrue trivial
  | .spawn .watchCycle | .spawn (.finalizeGroup _) | .spawn (.retry _) | .spawn .retryAll => isTrue trivial
  | .spawn (.purge _) | .spawn (.cleanup _) | .spawn (.releaseFromNonReady _ _) => isTrue trivial
  | .spawn (.resetGroupStats _) | .spawn (.deactivateGroup _) => isTrue trivial
  | .run _ _ | .reject _ | .stop _ | .env _ => isTrue trivial

instance (reg : Registry) (req : SubmitBulkJobsRequest) (c : State) (l : Label) :
    Decidable (Unfinished reg req c l) :=
  instDecidableOnCalls reg (fun c _ cmd _ => ∀ x ∈ acks cmd, x.2 = req.groupId → ¬ AllEnqueued req c.log →
    (c.world.groupMeta x.2).doneJobs.getD 0 + 1 < (c.world.groupMeta x.2).totalJobs.getD 0) c l

/-- Until then the group is neither AGGREGATING nor COMPLETED and has no result. -/
def NotPremature (req : SubmitBulkJobsRequest) (c : State) : Prop :=
  ¬ AllEnqueued req c.log → (c.world.groupMeta req.groupId).status ≠ some .aggregating ∧
    (c.world.groupMeta req.groupId).status ≠ some .completed ∧ (c.world.groupResult req.groupId).result = none

/-- What the group looks like while it is being submitted. -/
structure Early (req : SubmitBulkJobsRequest) (w : Store) : Prop where
  status : ∀ st, (w.groupMeta req.groupId).status = some st → st = .created ∨ st = .failed
  registered : (w.groupMeta req.groupId).registeredJobs = none
  result : (w.groupResult req.groupId).result = none

section
variable {reg : Registry} {req : SubmitBulkJobsRequest} {cmd : Cmd} {inp : Input} {s : Store} {log : Log} {F : Prop}

theorem count_enqueued_cons (e : Core.Entry Reply) (x : JobId × GroupId) :
    (enqueued log).count x ≤ (enqueued (e :: log)).count x := by
  obtain ⟨i, cmd, r⟩ := e
  rw [enqueued_cons, List.count_append]
  omega

theorem AllEnqueued.mono {e : Core.Entry Reply} (h : AllEnqueued req log) : AllEnqueued req (e :: log) :=
  fun job hjob => (h job hjob).trans (count_enqueued_cons e _)

/-- Only the end of a submission writes `registeredJobs`. -/
theorem registered_frame {g : GroupId} (h : ∀ n, cmd ≠ .metaSetRegisteredJobs g n) :
    ((exec reg cmd inp s).1.groupMeta g).registeredJobs = (s.groupMeta g).registeredJobs := by
  have hm := meta_step reg cmd inp s g
  generalize (exec reg cmd inp s).1.groupMeta g = m' at hm ⊢
  cases hm with
  | registered => exact absurd rfl (h _)
  | moved => rw [(L2.setStatus_counters _ _ _).2.2.2.2.1]
  | _ => rfl

/-- An aggregation of the group has started: not before the submission is over. -/
def Begun (req : SubmitBulkJobsRequest) (F : Prop) (q : FinalizePc) : Prop :=
  ∀ g token a, q = .aggregate g token a → aggregated a = req.groupId → F

/-- The triple of `finalizeGroup`: an aggregation starts from AGGREGATING or RUNNING. -/
theorem begun_spec (hs : ∀ st, (s.groupMeta req.groupId).status = some st → ¬ F → st = .created ∨ st = .failed)
    {q : FinalizePc} (hq : Begun req F q) :
    FinalizeSpec reg (fun cmd => (∀ r, cmd = .resultSet req.groupId r → F) ∧
        ∀ g t, cmd = .transitionStatus g t → t.target = .aggregating ∨ t.target = .completed)
      (fun cmd r q' => ∀ inp, (exec reg cmd inp s).2 = r → Begun req F q') (fun _ q' => Begun req F q') q := by
  have hno : ∀ {cmd : Cmd}, decides cmd = false → (∀ r, cmd = .resultSet req.groupId r → F) ∧
      ∀ g t, cmd = .transitionStatus g t → t.target = .aggregating ∨ t.target = .completed := by
    intro cmd h
    refine ⟨fun r he => ?_, fun g t he => ?_⟩ <;> rw [he] at h <;> cases h
  have hbegun : ∀ {q' : FinalizePc}, (∀ g token a, q' ≠ .aggregate g token a) → Begun req F q' :=
    fun h g token a he => absurd he (h g token a)
  have hactive : ∀ {g token t}, (s.groupMeta g).status = some .aggregating ∨ (s.groupMeta g).status = some .running →
      Begun req F (.aggregate g token (.metaGetAll g t)) := by
    intro g token t h g' token' a he hg
    cases he
    cases hg
    by_contra hF
    rcases h with h | h
    · rcases hs _ h hF with h | h <;> cases h
    · rcases hs _ h hF with h | h <;> cases h
  cases q with
  | acquire g p =>
    exact finalize_acquire (hno rfl) (fun _ _ => hno rfl) (fun _ _ _ _ _ => hbegun (by simp))
      fun _ _ _ _ _ => hbegun (by simp)
  | metaGetAll g token =>
    refine ⟨hno rfl, fun m => ?_, hbegun (by simp)⟩
    simp only
    split
    · rename_i hm
      intro inp hr
      rw [← hr] at hm
      exact hactive (.inl hm)
    · exact fun inp _ => hbegun (by simp)
    · exact fun inp _ => hbegun (by simp)
  | toAggregating g token t =>
    refine ⟨⟨by simp, fun g' t' he => ?_⟩, fun b => ?_, hbegun (by simp)⟩
    · cases he
      exact .inl rfl
    · cases b with
      | false => exact fun inp _ => hbegun (by simp)
      | true =>
        intro inp hr
        refine hactive (.inr ?_)
        simp only [exec, L2.transitionStatus] at hr
        split at hr
        · assumption
        · cases hr
  | aggregate g token a =>
    have hgoto : ∀ a', aggregated a' = aggregated a → Begun req F (.aggregate g token a') := by
      intro a' ha g' token' a'' he hg
      cases he
      exact hq g token a rfl (ha.symm.trans hg)
    rw [FinalizeSpec, FinalizePc.view]
    refine ((aggregated_spec reg batchSize a).mono
      (fun cmd h => ⟨fun r he => hq g token a rfl (aggregates_result h he).symm,
        fun g' t he => absurd he (aggregates_transition h)⟩)
      (fun _ _ _ h => h) (fun _ _ h => h)).map (fun _ _ x hx => ?_) fun _ x hx => ?_
    · cases x with
      | goto a' => exact fun _ _ => hgoto a' hx
      | ret r => exact fun _ _ => hbegun (by simp)
      | throw => exact fun _ _ => hbegun (by simp)
    · cases x with
      | goto a' => exact hgoto a' hx
      | ret r => exact hbegun (by simp)
      | throw => exact hbegun (by simp)
  | toCompleted g token =>
    refine ⟨⟨by simp, fun g' t' he => ?_⟩, fun b inp _ => hbegun (by simp), hbegun (by simp)⟩
    cases he
    exact .inr rfl
  | release g token result => exact finalize_release (hno rfl)

/-- How far a submission to the group has come. -/
def Submitting (req : SubmitBulkJobsRequest) (log : Log) : Proc → Prop
  | .submit (.enqueueBulk r job rest) =>
    r.groupId = req.groupId → r = req ∧ ∀ j, (req.jobs.map (·.jobId)).count j ≤
      (enqueued log).count (j, req.groupId) + ((job :: rest).map (·.jobId)).count j
  | .submit (.registered r) => r.groupId = req.groupId → AllEnqueued req log
  | _ => True

theorem Submitting.mono {e : Core.Entry Reply} {p : Proc} (h : Submitting req log p) :
    Submitting req (e :: log) p := by
  cases p with
  | submit p =>
    cases p with
    | enqueueBulk r job rest =>
      intro hr
      obtain ⟨he, hcount⟩ := h hr
      refine ⟨he, fun j => ?_⟩
      have := hcount j
      have := @count_enqueued_cons log e (j, req.groupId)
      omega
    | registered r => exact fun hr => (h hr).mono
    | _ => trivial
  | _ => trivial

theorem submitting_loop {r : SubmitBulkJobsRequest} (hr : r.groupId = req.groupId → r = req) {rest : List BulkJob}
    (h : r.groupId = req.groupId → ∀ j, (req.jobs.map (·.jobId)).count j ≤
      (enqueued log).count (j, req.groupId) + (rest.map (·.jobId)).count j) :
    Submitting req log (.submit (SubmitPc.loop r rest)) := by
  cases rest with
  | nil => exact fun hg job _ => h hg job.jobId
  | cons job rest => exact fun hg => ⟨hr hg, h hg⟩

/-- `registeredJobs` is written when all jobs are enqueued. -/
theorem submitting_spec {i : Nat} {p : Proc} (h : Submitting req log p) :
    (p.view reg).Spec (fun cmd => ∀ n, cmd = .metaSetRegisteredJobs req.groupId n → AllEnqueued req log)
      (fun cmd r p' => Submitting req (⟨i, cmd, r⟩ :: log) p') fun _ p' => Submitting req log p' := by
  have other : ∀ {p' : Proc} {log : Log}, p'.service ≠ .submit → Submitting req log p' := by
    intro p' log hp'
    cases p' with
    | submit q => exact absurd rfl hp'
    | _ => trivial
  by_cases hp : p.service = .submit
  · cases p with
    | submit q =>
      cases q with
      | enqueueBulk r job rest =>
        refine ⟨by simp, fun x => submitting_loop (fun hg => (h hg).1) fun hg j => ?_, trivial⟩
        have hcount := (h hg).2 j
        -- the job just enqueued moves from the rest of the request to the history
        rw [List.map_cons, List.count_cons] at hcount
        simp only [enqueued_cons, enqueues, SubmitBulkJobsRequest.options, hg, Option.toList_some,
          List.singleton_append, List.count_cons, beq_iff_eq, Prod.mk.injEq, and_true] at hcount ⊢
        omega
      | registered r =>
        refine ⟨fun n he => ?_, fun _ => trivial, trivial⟩
        injection he with hg
        exact h hg
      | enqueue | jobWatch | bulkWatch | timeout => exact ⟨by simp, fun _ => trivial, trivial⟩
    | _ => cases hp
  · -- the other services write no `registeredJobs`
    have hstay : ∀ {p' : Proc}, p'.service = p.service ∨ p'.service = .done → p'.service ≠ .submit := by
      rintro p' (h | h)
      · rw [h]
        exact hp
      · rw [h]
        decide
    have hcalls := may_call reg p
    have hsame := same_service reg p
    cases hv : p.view reg with
    | call cmd ok err =>
      rw [hv] at hcalls hsame
      refine ⟨fun n he => ?_, fun r => other (hstay (hsame.2.1 r)), other (hstay hsame.2.2)⟩
      have hmay := hcalls.1
      rw [he] at hmay
      cases p with
      | submit q => exact absurd rfl hp
      | _ => cases hmay
    | halt => trivial

theorem Begun.mono {F' : Prop} {q : FinalizePc} (h : Begun req F q) (hF : F → F') : Begun req F' q :=
  fun g token a he hg => hF (h g token a he hg)

theorem begun_start (g : GroupId) {F : Prop} : Begun req F (.start g) := by
  intro g' token a he
  cases he

/-- One call of an activity while the group is early: no aggregation starts before the submission is over. -/
theorem begun_call {p : Proc} (hearly : ¬ F → Early req s) (hbegun : ∀ q ∈ finalizing p, Begun req F q) :
    (p.view reg).Spec
      (fun cmd => (finalizing p).isSome → (∀ r, cmd = .resultSet req.groupId r → F) ∧
        ∀ g t, cmd = .transitionStatus g t → t.target = .aggregating ∨ t.target = .completed)
      (fun cmd r p' => ∀ q ∈ finalizing p', ∀ inp, (exec reg cmd inp s).2 = r → Begun req F q)
      fun _ p' => ∀ q ∈ finalizing p', Begun req F q := by
  have hstatus : ∀ st, (s.groupMeta req.groupId).status = some st → ¬ F → st = .created ∨ st = .failed :=
    fun st hst hF => (hearly hF).status st hst
  exact finalizing_spec (fun q hq => begun_spec hstatus (hbegun q hq)) fun _ _ g _ _ _ => begun_start g

/-- What the watcher knows of the group's metadata, and when it may dispatch it. -/
abbrev Minding (req : SubmitBulkJobsRequest) (log : Log) : Proc → Prop :=
  Watching (fun g m => g = req.groupId → 0 < m.registeredJobs.getD 0 → AllEnqueued req log)
    (fun g => g = req.groupId → AllEnqueued req log) fun _ => True

theorem minding_mono {e : Core.Entry Reply} {p : Proc} (h : Minding req log p) : Minding req (e :: log) p :=
  Watching.mono _ _ _ h (fun _ _ hk hg hr => (hk hg hr).mono) (fun _ hd hg => (hd hg).mono) fun _ hf => hf

theorem minding_heeds : Heeds (fun g m => g = req.groupId → 0 < m.registeredJobs.getD 0 → AllEnqueued req log)
    (fun g => g = req.groupId → AllEnqueued req log) fun _ => True where
  created := fun g m hk _ hle hpos hg => hk hg (by omega)
  running := fun _ _ _ _ _ _ => trivial
  aggregating := fun _ _ _ _ => trivial

/-- A status that is neither CREATED nor FAILED is not reached from these two
but by the watcher, with the registration in hand, or by `ack.lua`. -/
theorem early_exec {p : Proc} (hE : Early req s) (hF : ¬ F)
    (hack : ∀ x ∈ acks cmd, x.2 = req.groupId →
      (s.groupMeta x.2).doneJobs.getD 0 + 1 < (s.groupMeta x.2).totalJobs.getD 0)
    (hp : Permitted (fun g => g = req.groupId → F) p cmd)
    (hf : (finalizing p).isSome → (∀ r, cmd = .resultSet req.groupId r → F) ∧
      ∀ g t, cmd = .transitionStatus g t → t.target = .aggregating ∨ t.target = .completed)
    (hs : ∀ n, cmd = .metaSetRegisteredJobs req.groupId n → F) : Early req (exec reg cmd inp s).1 where
  status := by
    intro st hst
    rcases status_cases reg cmd inp s req.groupId with h | ⟨r, rfl, hg, -, h⟩ | ⟨j, rfl, hle, h⟩ | ⟨t, rfl, hsrc, h⟩
    · rw [h] at hst
      exact hE.status st hst
    · rw [h] at hst
      cases hst
      exact .inl rfl
    · have := hack _ rfl rfl
      simp only at this
      omega
    · rw [h] at hst
      cases hst
      have hvalid := t.valid
      have hno : t.target ≠ .aggregating ∧ t.target ≠ .completed ∧ t.target ≠ .running := by
        rcases hE.status _ hsrc with hc | hc
        · rw [hc] at hvalid
          refine ⟨?_, ?_, ?_⟩ <;> intro ht <;> rw [ht] at hvalid <;> cases hvalid
        · rw [hc] at hvalid
          refine ⟨?_, ?_, ?_⟩ <;> intro ht <;> rw [ht] at hvalid <;> cases hvalid
      rcases hp.2 _ t rfl with hin | ⟨-, hd⟩ | hr | hr
      · rcases (hf hin).2 _ t rfl with ha | hc
        · exact absurd ha hno.1
        · exact absurd hc hno.2.1
      · exact absurd (hd rfl) hF
      · exact absurd hr hno.2.2
      · exact .inr hr
  registered := by
    rw [registered_frame fun n he => hF (hs n he)]
    exact hE.registered
  result := by
    rw [result_frame fun r he => hF ((hf (hp.1 (by rw [he]; rfl))).1 r he)]
    exact hE.result

theorem completion_outline :
    Core.Program.Outline (pipeline reg) (fun c l => Sole req l ∧ Unfinished reg req c l)
      (fun w log => ¬ AllEnqueued req log → Early req w)
      fun _ log _ p => Minding req log p ∧ (∀ q ∈ finalizing p, Begun req (AllEnqueued req log) q) ∧
        Submitting req log p where
  run := by
    intro c i inp p cmd ok err hI hA hp hv hH
    obtain ⟨hmind, hbegun, hsub⟩ := hA i p hp
    have hv : p.view reg = .call cmd ok err := hv
    have hw := @watching_spec reg _ _ _ minding_heeds p hmind
    have hf := @begun_call reg _ _ _ p hI hbegun
    have hs := @submitting_spec reg req c.log i p hsub
    rw [hv] at hw hf hs
    refine ⟨fun hF' => ?_, ⟨minding_mono (hw.2.1 _ fun y hy hg hpos => ?_), fun q hq => ?_, hs.2.1 _⟩,
      fun k q _ hk => ?_⟩
    · have hF : ¬ AllEnqueued req c.log := fun h => hF' h.mono
      have hack := onCalls_run hH.2 hp hv
      exact early_exec (hI hF) hF (fun x hx hg => hack x hx hg hF) hw.1 hf.1 hs.1
    · -- before the registration the watcher reads none
      by_contra hF
      cases cmd with
      | metaGetAll g =>
        cases hy
        simp only [pipeline, exec] at hg hpos
        rw [hg, (hI hF).registered] at hpos
        cases hpos
      | _ => cases hy
    · exact (hf.2.1 _ q hq inp rfl).mono AllEnqueued.mono
    · obtain ⟨h1, h2, h3⟩ := hA k q hk
      exact ⟨minding_mono h1, fun q' hq' => (h2 q' hq').mono AllEnqueued.mono, h3.mono⟩
  reject := by
    intro c i p cmd ok err hI hA hp hv _
    obtain ⟨hmind, hbegun, hsub⟩ := hA
    have hv : p.view reg = .call cmd ok err := hv
    have hw := @watching_spec reg _ _ _ minding_heeds p hmind
    have hf := @begun_call reg _ _ _ p hI hbegun
    have hs := @submitting_spec reg req c.log i p hsub
    rw [hv] at hw hf hs
    exact ⟨hw.2.2, hf.2.2, hs.2.2⟩
  dead := fun _ _ _ => ⟨trivial, forall_finalizing rfl, trivial⟩
  spawn := by
    intro c t _ hH
    refine ⟨watching_of_started _ _ _ (t.started reg),
      finalizing_of_started (fun g => begun_start g) (t.started reg), ?_⟩
    cases t with
    | submitBulkJobs r =>
      exact submitting_loop hH.1 fun hg j => by
        rw [hH.1 hg]
        omega
    | fetchCycle =>
      simp only [pipeline, Task.start, FetchPc.loop]
      split <;> trivial
    | _ => trivial
  env := by
    intro w log e hI
    refine ⟨fun hF => ?_, fun i q h => h⟩
    obtain ⟨h1, h2, h3⟩ := hI hF
    cases e <;> exact ⟨h1, h2, h3⟩

/-- In every run in which nothing else is submitted to the group and no
`ack.lua` finds it complete while it is being submitted: before its last job is
enqueued it is neither AGGREGATING nor COMPLETED and has no result. -/
theorem no_premature_completion (req : SubmitBulkJobsRequest) (c : State)
    (h : ((runs reg).restrict fun c l => Sole req l ∧ Unfinished reg req c l).Reachable c) :
    NotPremature req c := by
  have h₀ : Core.Program.Holds (fun w log => ¬ AllEnqueued req log → Early req w)
      (fun _ log _ p => Minding req log p ∧ (∀ q ∈ finalizing p, Begun req (AllEnqueued req log) q) ∧
        Submitting req log p) initialState :=
    ⟨fun _ => ⟨fun _ hs => (by cases hs), rfl, rfl⟩, fun i p hp => by simp [initialState] at hp⟩
  intro hF
  have hE := ((completion_outline.inductive h₀).reachable c h).1 hF
  refine ⟨fun hs => ?_, fun hs => ?_, hE.result⟩
  · rcases hE.status _ hs with h | h <;> cases h
  · rcases hE.status _ hs with h | h <;> cases h

end

/-- A group of two jobs. -/
def twoJobs : SubmitBulkJobsRequest := ⟨"g", "SEND_EMAIL", [⟨"j", "null"⟩, ⟨"k", "null"⟩], 0, .normal⟩

/-- The first job is fetched and processed before the second is enqueued. -/
def overtaken : List Label :=
  [.spawn (.submitBulkJobs twoJobs)] ++ runsAt 0 1 1 ++ [.spawn .fetchCycle] ++ runsAt 1 2 5 ++ processed 2 3

/-- The worker has recorded the result and not yet counted the job. -/
theorem no_premature_completion_two_jobs : ∃ c : State,
    ¬ AllEnqueued twoJobs c.log ∧ (recorded c.log).length = 1 ∧ NotPremature twoJobs c := by
  obtain ⟨c, hr, hP⟩ := Core.Program.exists_of_replay (S := pipeline {})
    (P := fun c : State => decide (¬ AllEnqueued twoJobs c.log ∧ (recorded c.log).length = 1))
    (show ((pipeline {}).replay (fun c l => decide (Sole twoJobs l ∧ Unfinished {} twoJobs c l)) initialState
      (overtaken ++ runsAt 2 3 2)).any _ = true by decide +kernel)
  have hr' : ((runs {}).restrict fun c l => Sole twoJobs l ∧ Unfinished {} twoJobs c l).Reachable c :=
    Core.LTS.Reachable.weaken (fun _ _ h => of_decide_eq_true h) hr
  obtain ⟨hF, hrec⟩ := of_decide_eq_true hP
  exact ⟨c, hF, hrec, no_premature_completion twoJobs c hr'⟩

/-- The worker's `ack.lua` finds one job done of the one enqueued so far. -/
theorem completed_while_submitting :
    ¬ ∀ (reg : Registry) (req : SubmitBulkJobsRequest) (c : State),
      ((runs reg).restrict fun _ l => Sole req l).Reachable c → NotPremature req c := by
  intro h
  obtain ⟨c, hr, hP⟩ := Core.Program.exists_of_replay (S := pipeline {})
    (P := fun c : State => decide (¬ AllEnqueued twoJobs c.log ∧ (c.world.groupMeta "g").status = some .aggregating))
    (show ((pipeline {}).replay (fun _ l => decide (Sole twoJobs l)) initialState
      (overtaken ++ runsAt 2 3 3)).any _ = true by decide +kernel)
  have hr' : ((runs {}).restrict fun _ l => Sole twoJobs l).Reachable c :=
    Core.LTS.Reachable.weaken (fun _ _ h => of_decide_eq_true h) hr
  obtain ⟨hF, hs⟩ := of_decide_eq_true hP
  exact (h {} twoJobs c hr' hF).1 hs

end NestPlayground.L5.Completion
