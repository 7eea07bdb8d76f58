import NestPlayground.Core.Sequential
import NestPlayground.Core.Traced
import NestPlayground.L4Pipeline.Frames

/-!
# Submitting to a group

`submitJob` and `submitBulkJobs` as sequences of calls. Each makes a fixed list
of Redis calls (`script`) and stops at the first that rejects, so what it does
to a group's counters and list is read off the calls that were executed. The
counters: `enqueue.lua` counts every job, `registeredJobs` is written once per
bulk request with the length of that request, so the two agree only while one
bulk request has brought all jobs (`registered_eq_total`). A bulk request that
failed on the way and is sent again adds its jobs again (`resubmitted`).
-/
namespace NestPlayground.L5.Registration
open L1 L3 L4

/-! ## The two functions -/

inductive Submission where
  | job (req : BulkActionRequest)
  | bulk (req : SubmitBulkJobsRequest)

namespace Submission

def groupId : Submission → GroupId
  | .job req => req.jobGroupId
  | .bulk req => req.groupId

/-- The number of jobs. -/
def size : Submission → Nat
  | .job _ => 1
  | .bulk req => req.jobs.length

/-- `registeredJobs` after the call, when it was `n` before. -/
def registers (n : Nat) : Submission → Nat
  | .job _ => n
  | .bulk req => req.jobs.length

def isBulk : Submission → Bool
  | .job _ => false
  | .bulk _ => true

def start : Submission → SubmitPc
  | .job req => .enqueue req
  | .bulk req => SubmitPc.loop req req.jobs

/-- What a bulk request does after the loop. -/
def registration (req : SubmitBulkJobsRequest) : List Cmd :=
  [.metaSetRegisteredJobs req.groupId req.jobs.length, .watcherAdd req.groupId, .metaSetTimeoutAt req.groupId]

def enqueueAll (req : SubmitBulkJobsRequest) (jobs : List BulkJob) : List Cmd :=
  jobs.map fun job => .enqueue (req.options job)

/-- The calls it makes, in order. -/
def script : Submission → List Cmd
  | .job req => [.enqueue req, .watcherAdd req.jobGroupId]
  | .bulk req => enqueueAll req req.jobs ++ registration req

theorem straight_loop (req : SubmitBulkJobsRequest) (jobs : List BulkJob) :
    Core.Straight SubmitPc.view (enqueueAll req jobs ++ registration req) (.goto (SubmitPc.loop req jobs)) := by
  induction jobs with
  | nil =>
    refine .call rfl fun _ => ?_
    refine .call rfl fun _ => ?_
    exact .call rfl fun _ => .ret
  | cons job jobs ih => exact .call rfl fun _ => ih

theorem straight (sub : Submission) : Core.Straight SubmitPc.view sub.script (.goto sub.start) := by
  cases sub with
  | job req =>
    refine .call rfl fun _ => ?_
    exact .call rfl fun _ => .ret
  | bulk req => exact straight_loop req req.jobs

end Submission

/-- The run of a submission, with `rely` between its calls. -/
abbrev Runs (reg : Registry) (rely : Store → Store → Prop) (s : Store) (sub : Submission) :
    List (Core.Answer Reply) → Store → Core.Next SubmitPc Nat → Prop :=
  Core.Run (exec reg) rely (Core.Next.view SubmitPc.view) s (.goto sub.start)

theorem returns (reg : Registry) (rely : Store → Store → Prop) (s : Store) (sub : Submission) :
    ∃ es s' n, Runs reg rely s sub es s' (.ret n) := by
  obtain ⟨es, s', n, hrun, -⟩ := (show Runs reg rely s sub [] s _ from .nil).straight {} sub.straight
  exact ⟨es, s', n, hrun⟩

/-! ## The two counters -/

/-- `totalJobs` and `registeredJobs`, absent read as 0. -/
def counters (g : GroupId) (s : Store) : Nat × Nat :=
  ((s.groupMeta g).totalJobs.getD 0, (s.groupMeta g).registeredJobs.getD 0)

/-- What a call does to them. -/
def count (g : GroupId) (n : Nat × Nat) : Cmd → Nat × Nat
  | .enqueue req => if req.jobGroupId = g then (n.1 + 1, n.2) else n
  | .metaSetRegisteredJobs g' k => if g' = g then (n.1, k) else n
  | _ => n

section Counters
variable {reg : Registry} {g : GroupId}

theorem counters_exec (cmd : Cmd) (inp : Input) (s : Store) :
    counters g (exec reg cmd inp s).1 = count g (counters g s) cmd := by
  have hm := meta_step reg cmd inp s g
  unfold counters
  generalize (exec reg cmd inp s).1.groupMeta g = m' at hm ⊢
  cases hm with
  | other h =>
    cases cmd with
    | enqueue req =>
      have hne : req.jobGroupId ≠ g := fun he => h (by rw [← he]; rfl)
      simp [count, hne]
    | metaSetRegisteredJobs g' k =>
      have hne : g' ≠ g := fun he => h (by rw [← he]; rfl)
      simp [count, hne]
    | _ => rfl
  | created hg h => simp [count, hg, h]
  | enqueued hg h => simp [count, hg]
  | @moved t h =>
    obtain ⟨ht, -, -, -, hr, -⟩ := L2.setStatus_counters t.target inp.now (s.groupMeta g)
    simp [count, ht, hr]
  | registered => simp [count]
  | _ => rfl

theorem count_enqueueAll (req : SubmitBulkJobsRequest) (hg : req.groupId = g) (jobs : List BulkJob)
    (n : Nat × Nat) : (Submission.enqueueAll req jobs).foldl (count g) n = (n.1 + jobs.length, n.2) := by
  induction jobs generalizing n with
  | nil => rfl
  | cons job jobs ih =>
    have hone : count g n (.enqueue (req.options job)) = (n.1 + 1, n.2) := if_pos hg
    simp only [Submission.enqueueAll, List.map_cons, List.foldl_cons, hone] at ih ⊢
    rw [ih, List.length_cons]
    congr 1
    omega

/-- A whole submission. -/
theorem count_script (sub : Submission) (hg : sub.groupId = g) (n : Nat × Nat) :
    sub.script.foldl (count g) n = (n.1 + sub.size, sub.registers n.2) := by
  cases sub with
  | job req => exact if_pos hg
  | bulk req =>
    simp only [Submission.script, List.foldl_append, count_enqueueAll req hg]
    simp [Submission.registration, count, show req.groupId = g from hg, Submission.size, Submission.registers]

/-- The counters of the group are left alone. -/
def Keeps (g : GroupId) (s s' : Store) : Prop := counters g s' = counters g s

/-- Everything but a submission keeps the counters. -/
theorem keeps_of_service {p : Proc} {cmd : Cmd} {ok : Reply cmd → Proc} {err : Proc}
    (hv : p.view reg = .call cmd ok err) (hp : p.service ≠ .submit) (inp : Input) (s : Store) :
    Keeps g s (exec reg cmd inp s).1 := by
  have hmay := mayCall_of_view hv
  unfold Keeps
  rw [counters_exec]
  cases cmd with
  | enqueue req => cases p <;> first | exact absurd rfl hp | cases hmay
  | metaSetRegisteredJobs g' k => cases p <;> first | exact absurd rfl hp | cases hmay
  | _ => rfl

theorem keeps_expire (e : Expiry) (s : Store) : Keeps g s (expire e s) := by
  cases e <;> rfl

end Counters

/-! ## Sequences of submissions -/

/-- The calls `calls`, latest first, have been made one after the other and
have all returned; during and between them others may do anything that keeps
the counters of the group. -/
inductive Completed (reg : Registry) (g : GroupId) (s : Store) : List Submission → Store → Prop where
  | nil : Completed reg g s [] s
  | others {calls s₁ s₂} (h : Completed reg g s calls s₁) (hk : Keeps g s₁ s₂) : Completed reg g s calls s₂
  | call {calls sub s₁ s₂ es n} (h : Completed reg g s calls s₁) (hg : sub.groupId = g)
      (hrun : Runs reg (Keeps g) s₁ sub es s₂ (.ret n)) :
      Completed reg g s (sub :: calls) s₂

/-- The jobs submitted. -/
def submitted (calls : List Submission) : Nat := (calls.map Submission.size).sum

/-- The length of the last bulk request. -/
def registered : List Submission → Nat
  | [] => 0
  | sub :: calls => sub.registers (registered calls)

/-- One bulk request has brought all jobs, and none came after it. -/
def OneRequest (calls : List Submission) : Prop :=
  (∀ sub ∈ calls, sub.isBulk = true) ∧ ∀ sub ∈ calls.tail, sub.size = 0

@[simp] theorem submitted_cons (sub : Submission) (calls : List Submission) :
    submitted (sub :: calls) = sub.size + submitted calls := List.sum_cons

theorem registered_le_submitted (calls : List Submission) : registered calls ≤ submitted calls := by
  induction calls with
  | nil => exact le_refl _
  | cons sub calls ih =>
    rw [submitted_cons]
    cases sub with
    | job req => exact le_trans ih (Nat.le_add_left _ _)
    | bulk req => exact Nat.le_add_right _ _

theorem registered_eq_submitted (calls : List Submission) :
    registered calls = submitted calls ↔ OneRequest calls := by
  cases calls with
  | nil => simp [registered, submitted, OneRequest]
  | cons sub calls =>
    have hle := registered_le_submitted calls
    cases sub with
    | job req =>
      have hone : submitted (.job req :: calls) = 1 + submitted calls := rfl
      have hreg : registered (.job req :: calls) = registered calls := rfl
      constructor
      · intro h
        omega
      · intro h
        cases h.1 _ (List.mem_cons_self)
    | bulk req =>
      have hsum : submitted (.bulk req :: calls) = req.jobs.length + submitted calls := rfl
      have hreg : registered (.bulk req :: calls) = req.jobs.length := rfl
      have hzero : submitted calls = 0 ↔ ∀ sub ∈ calls, sub.size = 0 := by
        unfold submitted
        rw [List.sum_eq_zero_iff]
        simp
      constructor
      · intro h
        have hall := hzero.mp (by omega)
        refine ⟨fun sub hsub => ?_, hall⟩
        rcases List.mem_cons.mp hsub with rfl | hsub
        · rfl
        · have := hall sub hsub
          cases sub with
          | job req' => cases this
          | bulk req' => rfl
      · intro h
        have := hzero.mpr h.2
        omega

/-! ## In a run of the pipeline -/

def submissionOf : Task → Option Submission
  | .submitJob req => some (.job req)
  | .submitBulkJobs req => some (.bulk req)
  | _ => none

/-- The group an activity submits to. -/
def submitsTo : Proc → Option GroupId
  | .submit q => some q.groupId
  | _ => none

def startedBy (g : GroupId) : Label → Option Submission
  | .spawn t => (submissionOf t).filter fun sub => sub.groupId = g
  | _ => none

/-- The submissions to `g` that a run has started, latest first. -/
def started (g : GroupId) (past : List (State × Label)) : List Submission := past.filterMap fun e => startedBy g e.2

/-- A submission to `g` starts when there is no other, and is not cut off. -/
def OneByOne (g : GroupId) (c : State) : Label → Prop
  | .spawn t => ∀ sub ∈ submissionOf t, sub.groupId = g → ∀ p ∈ c.procs, submitsTo p ≠ some g
  | .stop i => ∀ p ∈ c.procs[i]?, submitsTo p ≠ some g
  | .reject i => ∀ p ∈ c.procs[i]?, submitsTo p ≠ some g
  | _ => True

section
variable {reg : Registry} {g : GroupId} {c : State}

theorem submit_spec (q : SubmitPc) : q.view.Spec (fun _ => True)
    (fun _ _ x => x ≠ .throw ∧ ∀ q', x = .goto q' → q'.groupId = q.groupId) fun _ x => x = .throw := by
  cases q with
  | enqueueBulk req job rest =>
    refine ⟨trivial, fun _ => ⟨nofun, fun q' hq' => ?_⟩, rfl⟩
    cases hq'
    cases rest <;> rfl
  | _ => exact ⟨trivial, fun _ => ⟨nofun, fun q' hq' => by cases hq' <;> rfl⟩, rfl⟩

theorem submitsTo_resume (x : Core.Next SubmitPc Nat) {g : GroupId} (h : submitsTo (resume .submit x) = some g) :
    ∃ q, x = .goto q ∧ q.groupId = g := by
  cases x with
  | goto q => exact ⟨q, rfl, Option.some.inj h⟩
  | ret | throw => cases h

theorem service_of_submitsTo {p : Proc} (h : submitsTo p = some g) : p.service = .submit := by
  cases p <;> first | rfl | cases h

/-- An activity goes on submitting to the same group. -/
theorem submitsTo_spec (reg : Registry) (p : Proc) (g : GroupId) (hp : submitsTo p ≠ some g) :
    (p.view reg).Spec (fun _ => True) (fun _ _ p' => submitsTo p' ≠ some g) fun _ p' => submitsTo p' ≠ some g := by
  by_cases hs : p.service = .submit
  · obtain ⟨q, rfl⟩ : ∃ q, p = .submit q := by
      cases p <;> first | exact ⟨_, rfl⟩ | cases hs
    refine (submit_spec q).map (fun _ _ x hx hg => ?_) fun _ x hx hg => ?_
    · obtain ⟨q', rfl, hq'⟩ := submitsTo_resume x hg
      exact hp (congrArg some ((hx.2 q' rfl).symm.trans hq'))
    · subst hx
      cases hg
  · have hother : ∀ p' : Proc, p'.service = p.service ∨ p'.service = .done → submitsTo p' ≠ some g := by
      intro p' hp' hg
      have hsubmit := service_of_submitsTo hg
      rcases hp' with he | he
      · exact hs (he.symm.trans hsubmit)
      · rw [hsubmit] at he
        cases he
    exact (same_service reg p).mono (fun _ _ => trivial) (fun _ _ p' h => hother p' h) fun _ p' h => hother p' h

/-- Whoever does not submit to the group keeps its counters. -/
theorem keeps_of_view {p : Proc} {cmd : Cmd} {ok : Reply cmd → Proc} {err : Proc}
    (hv : p.view reg = .call cmd ok err) (hp : submitsTo p ≠ some g) (inp : Input) (s : Store) :
    Keeps g s (exec reg cmd inp s).1 := by
  by_cases hs : p.service = .submit
  · obtain ⟨q, rfl⟩ : ∃ q, p = .submit q := by
      cases p <;> first | exact ⟨_, rfl⟩ | cases hs
    have hq : q.groupId ≠ g := fun he => hp (congrArg some he)
    unfold Keeps
    rw [counters_exec]
    cases q <;> cases hv <;> first | rfl | exact if_neg hq
  · exact keeps_of_service hv hs inp s

/-- Nobody but activity `i` submits to the group. -/
def OnlyBy (g : GroupId) (i : Nat) (ps : List Proc) : Prop :=
  ∀ (k : Nat) p, k ≠ i → ps[k]? = some p → submitsTo p ≠ some g

theorem OnlyBy.set {i k : Nat} {ps : List Proc} {p' : Proc} (h : OnlyBy g i ps) (hp' : k ≠ i → submitsTo p' ≠ some g) :
    OnlyBy g i (ps.set k p') := by
  have hall := Core.Program.forall_set (P := fun k x => k ≠ i → submitsTo x ≠ some g) (i := k)
    (fun k x _ hx hk => h k x hk hx) hp'
  exact fun k x hk hx => hall k x hx hk

theorem OnlyBy.append {i : Nat} {ps : List Proc} {p' : Proc} (h : OnlyBy g i ps)
    (hp' : ps.length ≠ i → submitsTo p' ≠ some g) : OnlyBy g i (ps ++ [p']) := by
  have hall := Core.Program.forall_append (P := fun k x => k ≠ i → submitsTo x ≠ some g)
    (fun k x hx hk => h k x hk hx) hp'
  exact fun k x hk hx => hall k x hx hk

/-- Where the submissions to `g` are: all have returned, or the latest is under way. -/
inductive Turn (reg : Registry) (g : GroupId) (c : State) : List Submission → Prop where
  | idle {calls} (hdone : Completed reg g .empty calls c.world)
      (hnone : ∀ (k : Nat) p, c.procs[k]? = some p → submitsTo p ≠ some g) : Turn reg g c calls
  | underWay {calls sub i q s es} (hdone : Completed reg g .empty calls s) (hg : sub.groupId = g)
      (hi : c.procs[i]? = some (.submit q)) (hq : q.groupId = g)
      (hone : OnlyBy g i c.procs) (hrun : Runs reg (Keeps g) s sub es c.world (.goto q)) : Turn reg g c (sub :: calls)

theorem groupId_start (sub : Submission) : sub.start.groupId = sub.groupId := by
  cases sub with
  | job req => rfl
  | bulk req =>
    have hloop : ∀ jobs, (SubmitPc.loop req jobs).groupId = req.groupId := by
      intro jobs
      cases jobs <;> rfl
    exact hloop req.jobs

/-- A task that is a submission starts as one, and any other as none. -/
theorem start_cases (reg : Registry) (t : Task) :
    (∃ sub, submissionOf t = some sub ∧ t.start reg = .submit sub.start) ∨
      submissionOf t = none ∧ ∀ g, submitsTo (t.start reg) ≠ some g := by
  cases t with
  | submitJob req => exact .inl ⟨.job req, rfl, rfl⟩
  | submitBulkJobs req => exact .inl ⟨.bulk req, rfl, rfl⟩
  | fetchCycle =>
    refine .inr ⟨rfl, fun g h => ?_⟩
    simp only [Task.start, FetchPc.loop] at h
    split at h <;> cases h
  | _ => exact .inr ⟨rfl, fun g h => by cases h⟩

variable {calls : List Submission}

/-- A step of somebody who does not submit to the group. -/
theorem Turn.other (h : Turn reg g c calls) {i : Nat} {p p' : Proc} (hp : c.procs[i]? = some p)
    (hsub : submitsTo p ≠ some g) (hsub' : submitsTo p' ≠ some g) {w : Store} (hkeep : Keeps g c.world w) (log : Log) :
    Turn reg g ⟨w, c.procs.set i p', log⟩ calls := by
  cases h with
  | idle hdone hnone =>
    exact .idle (.others hdone hkeep) (Core.Program.forall_set (fun k q _ hk => hnone k q hk) hsub')
  | @underWay _ _ i' q _ _ hdone hg hi hq hone hrun =>
    have hne : i ≠ i' := by
      rintro rfl
      cases hp.symm.trans hi
      exact hsub (congrArg some hq)
    exact .underWay hdone hg ((List.getElem?_set_ne hne).trans hi) hq (hone.set fun _ => hsub') (hrun.rely hkeep)

/-- A call of the submission under way, which may be its last. -/
theorem Turn.own {calls : List Submission} {sub : Submission} {i : Nat} {q : SubmitPc} {s : Store}
    {es : List (Core.Answer Reply)} (hdone : Completed reg g .empty calls s) (hg : sub.groupId = g)
    (hi : c.procs[i]? = some (.submit q)) (hq : q.groupId = g)
    (hone : OnlyBy g i c.procs) (hrun : Runs reg (Keeps g) s sub es c.world (.goto q))
    {cmd : Cmd} {ok : Reply cmd → Core.Next SubmitPc Nat} {err : Core.Next SubmitPc Nat} (hv : q.view = .call cmd ok err) (inp : Input) (log : Log) :
    Turn reg g ⟨(exec reg cmd inp c.world).1,
      c.procs.set i (resume .submit (ok (exec reg cmd inp c.world).2)), log⟩ (sub :: calls) := by
  have hnext := hrun.call inp hv
  have hs := submit_spec q
  rw [hv] at hs
  obtain ⟨hthrow, hgroup⟩ := hs.2.1 (exec reg cmd inp c.world).2
  generalize ok (exec reg cmd inp c.world).2 = x at hnext hthrow hgroup ⊢
  have hlt := (List.getElem?_eq_some_iff.mp hi).1
  cases x with
  | goto q' =>
    exact .underWay hdone hg (List.getElem?_set_self hlt) ((hgroup q' rfl).trans hq)
      (hone.set fun hk => absurd rfl hk) hnext
  | ret n => exact .idle (.call hdone hg hnext) (Core.Program.forall_set (fun k p hk hp => hone k p hk hp) nofun)
  | throw => exact absurd rfl hthrow

theorem Turn.step {c' : State} {l : Label} (h : Turn reg g c calls) (hs : (pipeline reg).Step c l c')
    (hH : OneByOne g c l) : Turn reg g c' ((startedBy g l).toList ++ calls) := by
  cases hs with
  | @run i inp p cmd ok err hp hv =>
    have hv : p.view reg = .call cmd ok err := hv
    by_cases hsub : submitsTo p = some g
    · cases h with
      | idle hdone hnone => exact absurd hsub (hnone i p hp)
      | @underWay _ _ i' q _ _ hdone hg hi hq hone hrun =>
        obtain rfl : i = i' := by
          by_contra hne
          exact hone i p hne hp hsub
        cases hp.symm.trans hi
        cases hview : q.view with
        | halt =>
          rw [Proc.view, hview] at hv
          cases hv
        | call cmd' ok' err' =>
          rw [Proc.view, hview] at hv
          cases hv
          exact Turn.own hdone hg hi hq hone hrun hview inp _
    · have hnext := submitsTo_spec reg p g hsub
      rw [hv] at hnext
      exact h.other hp hsub (hnext.2.1 _) (keeps_of_view hv hsub inp c.world) _
  | @reject i p cmd ok err hp hv hr =>
    have hsub := hH p hp
    have hnext := submitsTo_spec reg p g hsub
    rw [show p.view reg = .call cmd ok err from hv] at hnext
    exact h.other hp hsub hnext.2.2 rfl c.log
  | @stop i p hp =>
    have hdead : submitsTo .done ≠ some g := nofun
    exact h.other hp (hH p hp) hdead rfl c.log
  | @spawn t =>
    have hquiet : submitsTo (t.start reg) ≠ some g → Turn reg g { c with procs := c.procs ++ [t.start reg] } calls := by
      intro hsub
      cases h with
      | idle hdone hnone => exact .idle hdone (Core.Program.forall_append hnone hsub)
      | @underWay _ _ i' q _ _ hdone hg hi hq hone hrun =>
        have hlt := (List.getElem?_eq_some_iff.mp hi).1
        exact .underWay hdone hg ((List.getElem?_append_left hlt).trans hi) hq (hone.append fun _ => hsub) hrun
    rcases start_cases reg t with ⟨sub, ht, hstart⟩ | ⟨ht, hstart⟩
    · by_cases hg : sub.groupId = g
      · have hnone := hH sub ht hg
        rw [show startedBy g (.spawn t) = some sub by simp [startedBy, ht, hg]]
        cases h with
        | idle hdone hnone =>
          have hothers : OnlyBy g c.procs.length c.procs := fun k x _ hx => hnone k x hx
          have hlast : (c.procs ++ [(pipeline reg).start t])[c.procs.length]? = some (.submit sub.start) := by
            rw [List.getElem?_concat_length]
            exact congrArg some hstart
          exact .underWay hdone hg hlast ((groupId_start sub).trans hg) (hothers.append fun hk => absurd rfl hk) .nil
        | underWay _ _ hi hq => exact absurd (congrArg some hq) (hnone _ (List.mem_of_getElem? hi))
      · rw [show startedBy g (.spawn t) = none by simp [startedBy, ht, hg]]
        refine hquiet ?_
        rw [hstart]
        exact fun he => hg ((groupId_start sub).symm.trans (Option.some.inj he))
    · rw [show startedBy g (.spawn t) = none by simp [startedBy, ht]]
      exact hquiet (hstart g)
  | @env e =>
    cases h with
    | idle hdone hnone => exact .idle (.others hdone (keeps_expire e _)) hnone
    | underWay hdone hg hi hq hone hrun => exact .underWay hdone hg hi hq hone (hrun.rely (keeps_expire e _))

theorem turn_reachable {t : Core.Traced State Label}
    (h : ((runs reg).traced.restrict fun t l => OneByOne g t.state l).Reachable t) :
    Turn reg g t.state (started g t.past) := by
  induction h with
  | init hi =>
    obtain ⟨hc, hp⟩ := hi
    rw [hp, hc]
    exact .idle .nil (by simp [initialState])
  | @step t l t' _ hs ih =>
    obtain ⟨⟨hs, hpast⟩, hH⟩ := hs
    have hstarted : started g t'.past = (startedBy g l).toList ++ started g t.past := by
      rw [hpast]
      cases hl : startedBy g l <;> simp [started, hl]
    rw [hstarted]
    exact ih.step hs hH

/-- In every run in which the submissions to `g` come one after the other, they
have been completed when none is under way. -/
theorem completed_of_runs {t : Core.Traced State Label}
    (h : ((runs reg).traced.restrict fun t l => OneByOne g t.state l).Reachable t)
    (hidle : ∀ p ∈ t.state.procs, submitsTo p ≠ some g) : Completed reg g .empty (started g t.past) t.state.world := by
  have hturn := turn_reachable h
  generalize started g t.past = calls at hturn ⊢
  cases hturn with
  | idle hdone _ => exact hdone
  | underWay _ _ hi hq => exact absurd (congrArg some hq) (hidle _ (List.mem_of_getElem? hi))

end

section
variable {reg : Registry} {g : GroupId} {s s' : Store} {calls : List Submission}

theorem counters_completed (h : Completed reg g s calls s') (h₀ : counters g s = (0, 0)) :
    counters g s' = (submitted calls, registered calls) := by
  induction h with
  | nil => exact h₀
  | others _ hk ih => exact hk.trans ih
  | @call calls sub s₁ s₂ es n _ hg hrun ih =>
    obtain ⟨hex, -⟩ := sub.straight.executed hrun
    rw [hex.observe (fun cmd _ inp w => counters_exec cmd inp w) (fun _ _ hk => hk), count_script sub hg, ih,
      submitted_cons, Nat.add_comm]
    rfl

/-- After any sequence of submissions to a fresh group `registeredJobs` is
`totalJobs` exactly when one bulk request has brought all jobs and none came
after it; the watcher then finds the condition of CREATED → DISPATCHED met, and
in no other case. -/
theorem registered_eq_total (h : Completed reg g s calls s') (h₀ : counters g s = (0, 0)) :
    ((s'.groupMeta g).registeredJobs.getD 0 = (s'.groupMeta g).totalJobs.getD 0 ↔ OneRequest calls) ∧
    ∀ rest, 0 < (s'.groupMeta g).totalJobs.getD 0 →
      (WatchPc.check g (s'.groupMeta g) .created rest = .goto (.transition g .dispatch rest) ↔ OneRequest calls) := by
  have hc := counters_completed h h₀
  unfold counters at hc
  obtain ⟨ht, hr⟩ := Prod.mk.inj hc
  have hle := registered_le_submitted calls
  rw [← registered_eq_submitted, ht, hr]
  refine ⟨Iff.rfl, fun rest hpos => ?_⟩
  simp only [WatchPc.check, ht, hr]
  constructor
  · intro hw
    split at hw
    · omega
    · cases rest <;> cases hw
  · intro he
    rw [if_pos ⟨by omega, hpos⟩]
    rfl

end

/-- A group of one job. -/
def oneJobRequest : SubmitBulkJobsRequest := ⟨"g", "SEND_EMAIL", [⟨"j", "null"⟩], 0, .normal⟩

theorem registered_eq_total_bulk : ∃ s' : Store,
    (s'.groupMeta "g").registeredJobs.getD 0 = (s'.groupMeta "g").totalJobs.getD 0 ∧
    WatchPc.check "g" (s'.groupMeta "g") .created [] = .goto (.transition "g" .dispatch []) := by
  obtain ⟨es, s', n, hrun⟩ := returns {} (Keeps "g") .empty (.bulk oneJobRequest)
  have hdone : Completed {} "g" .empty [.bulk oneJobRequest] s' := .call .nil rfl hrun
  have hone : OneRequest [.bulk oneJobRequest] := ⟨by simp [Submission.isBulk], by simp⟩
  have htotal : (s'.groupMeta "g").totalJobs.getD 0 = 1 := (Prod.mk.inj (counters_completed hdone rfl)).1
  obtain ⟨heq, hwatch⟩ := registered_eq_total hdone rfl
  exact ⟨s', heq.mpr hone, (hwatch [] (by omega)).mpr hone⟩

/-- One `submitJob` is counted and not registered. -/
theorem submitJob_unregistered : ¬ ∀ (reg : Registry) (g : GroupId) (s s' : Store) (calls : List Submission),
    Completed reg g s calls s' → counters g s = (0, 0) →
      (s'.groupMeta g).registeredJobs.getD 0 = (s'.groupMeta g).totalJobs.getD 0 := by
  intro h
  obtain ⟨es, s', n, hrun⟩ := returns {} (Keeps "g") .empty (.job ⟨"g", "j", "SEND_EMAIL", "null", 0, .normal⟩)
  have hdone := Completed.call (g := "g") .nil rfl hrun
  have hc := Prod.mk.inj (counters_completed hdone rfl)
  have heq := h {} "g" _ s' _ hdone rfl
  rw [hc.1, hc.2] at heq
  cases heq

/-! ## A bulk request that failed -/

/-- A submission with nobody else at work. -/
abbrev Alone (reg : Registry) : Store → Submission → List (Core.Answer Reply) → Store → Core.Next SubmitPc Nat → Prop :=
  Runs reg Eq

/-- The calls of a submission to `g`. -/
def Submits (g : GroupId) : Cmd → Prop
  | .enqueue req => req.jobGroupId = g
  | .metaSetRegisteredJobs _ _ | .watcherAdd _ | .metaSetTimeoutAt _ => True
  | _ => False

/-- The ids of the jobs enqueued, in order. -/
def enqueuedBy (cmds : List Cmd) : List JobId := cmds.filterMap fun cmd => (enqueues cmd).map Prod.fst

/-- The ids of a request's jobs. -/
def ids (req : SubmitBulkJobsRequest) : List JobId := req.jobs.map (·.jobId)

@[simp] theorem enqueuedBy_append (cmds cmds' : List Cmd) :
    enqueuedBy (cmds ++ cmds') = enqueuedBy cmds ++ enqueuedBy cmds' := List.filterMap_append

theorem enqueuedBy_script (req : SubmitBulkJobsRequest) : enqueuedBy (Submission.bulk req).script = ids req := by
  have hjobs : ∀ jobs, enqueuedBy (Submission.enqueueAll req jobs) = jobs.map (·.jobId) := by
    intro jobs
    induction jobs with
    | nil => rfl
    | cons job jobs ih => exact congrArg (job.jobId :: ·) ih
  rw [Submission.script, enqueuedBy_append, hjobs]
  exact List.append_nil _

theorem submits_script (req : SubmitBulkJobsRequest) :
    ∀ cmd ∈ (Submission.bulk req).script, Submits req.groupId cmd := by
  intro cmd hcmd
  rcases List.mem_append.mp hcmd with hcmd | hcmd
  · obtain ⟨job, -, rfl⟩ := List.mem_map.mp hcmd
    rfl
  · simp only [Submission.registration, List.mem_cons, List.not_mem_nil, or_false] at hcmd
    rcases hcmd with rfl | rfl | rfl <;> trivial

section Again
variable {reg : Registry} {g : GroupId} {s s' : Store} {cmds : List Cmd}

theorem counters_executed (h : Core.Executed (exec reg) Eq s cmds s') :
    counters g s' = cmds.foldl (count g) (counters g s) :=
  h.observe (fun cmd _ inp w => counters_exec cmd inp w) fun _ _ he => by rw [he]

theorem groupJobs_executed (h : Core.Executed (exec reg) Eq s cmds s') (hg : ∀ cmd ∈ cmds, Submits g cmd) :
    s'.groupJobs g = s.groupJobs g ++ enqueuedBy cmds := by
  induction h with
  | nil => simp [enqueuedBy]
  | rely _ hw ih => rw [← hw, ih hg]
  | @call cmds s₁ cmd inp _ ih =>
    have hcmd := hg cmd (List.mem_append_right _ (List.mem_singleton_self cmd))
    rw [enqueuedBy_append, ← List.append_assoc, ← ih fun c hc => hg c (List.mem_append_left _ hc)]
    cases cmd with
    | enqueue req =>
      cases show req.jobGroupId = g from hcmd
      simp [exec, L2.enqueue, enqueuedBy, enqueues]
    | metaSetRegisteredJobs | watcherAdd | metaSetTimeoutAt => exact (List.append_nil _).symm
    | _ => exact absurd hcmd id

theorem count_executed (hg : ∀ cmd ∈ cmds, Submits g cmd) (n : Nat × Nat) :
    (cmds.foldl (count g) n).1 = n.1 + (enqueuedBy cmds).length := by
  induction cmds generalizing n with
  | nil => rfl
  | cons cmd cmds ih =>
    have hcmd := hg cmd (List.mem_cons_self)
    rw [List.foldl_cons, ih fun c hc => hg c (List.mem_cons_of_mem _ hc)]
    cases cmd with
    | enqueue req =>
      cases show req.jobGroupId = g from hcmd
      simp [count, enqueuedBy, enqueues]
      omega
    | metaSetRegisteredJobs g' n =>
      simp only [count]
      split <;> rfl
    | watcherAdd | metaSetTimeoutAt => rfl
    | _ => exact absurd hcmd id

theorem mem_fairQueue_executed (h : Core.Executed (exec reg) Eq s cmds s') (hg : ∀ cmd ∈ cmds, Submits g cmd)
    (level : PriorityLevel) (x : GroupId) :
    x ∈ s'.fairQueue level ↔ x ∈ s.fairQueue level ∨
      ∃ req, Cmd.enqueue req ∈ cmds ∧ req.priorityLevel = level ∧ req.jobGroupId = x := by
  induction h with
  | nil => simp
  | rely _ hw ih => rw [← hw, ih hg]
  | @call cmds s₁ cmd inp _ ih =>
    have hcmd := hg cmd (List.mem_append_right _ (List.mem_singleton_self cmd))
    have hih := ih fun c hc => hg c (List.mem_append_left _ hc)
    cases cmd with
    | enqueue req =>
      rw [show x ∈ (exec reg (.enqueue req) inp s₁).1.fairQueue level ↔ _ from L2.mem_fairQueue_enqueue, hih]
      simp only [List.mem_append, List.mem_singleton, Cmd.enqueue.injEq, or_and_right, exists_or, exists_eq_left]
      rw [or_comm, or_assoc, and_comm, @eq_comm _ level, @eq_comm _ x]
    | metaSetRegisteredJobs | watcherAdd | metaSetTimeoutAt =>
      simpa [exec, Store.modMeta] using hih
    | _ => exact absurd hcmd id

/-- A bulk request that was rejected on the way and is then sent again without
a failure leaves the jobs it had enqueued the first time, then all its jobs; the
total counts both. That is what one submission leaves only if the first attempt
had enqueued nothing. -/
theorem resubmitted (req : SubmitBulkJobsRequest) {s s₁ s₂ s' : Store} {es es₂ es' : List (Core.Answer Reply)}
    {n n' : Nat} (hfresh : counters req.groupId s = (0, 0) ∧ s.groupJobs req.groupId = [])
    (hfailed : Alone reg s (.bulk req) es s₁ .throw) (hagain : Alone reg s₁ (.bulk req) es₂ s₂ (.ret n))
    (honce : Alone reg s (.bulk req) es' s' (.ret n')) :
    ∃ k ≤ req.jobs.length, enqueuedBy (Core.repliedTo es) = (ids req).take k ∧
      s₂.groupJobs req.groupId = (ids req).take k ++ ids req ∧
      counters req.groupId s₂ = (k + req.jobs.length, req.jobs.length) ∧
      (∀ level x, x ∈ s₂.fairQueue level ↔ x ∈ s'.fairQueue level) ∧
      (s₂.groupJobs req.groupId = s'.groupJobs req.groupId ∧
        counters req.groupId s₂ = counters req.groupId s' ↔ k = 0) := by
  have hstraight := (Submission.bulk req).straight
  obtain ⟨hex₁, ⟨rest, -, hstop⟩ | ⟨-, c, rest, hscript⟩⟩ := hstraight.run hfailed
  · cases hstop
  obtain ⟨hex₂, -⟩ := hstraight.executed hagain
  obtain ⟨hex', -⟩ := hstraight.executed honce
  have hall := submits_script req
  have hpre : ∀ cmd ∈ Core.repliedTo es, Submits req.groupId cmd := fun cmd hcmd =>
    hall cmd (hscript ▸ List.mem_append_left _ hcmd)
  have hprefix : enqueuedBy (Core.repliedTo es) <+: ids req := by
    rw [← enqueuedBy_script, hscript, enqueuedBy_append]
    exact List.prefix_append _ _
  have htake := List.prefix_iff_eq_take.mp hprefix
  have hlen : (enqueuedBy (Core.repliedTo es)).length ≤ req.jobs.length := by
    simpa [ids] using hprefix.length_le
  have hlist₂ : s₂.groupJobs req.groupId = enqueuedBy (Core.repliedTo es) ++ ids req := by
    rw [groupJobs_executed hex₂ hall, groupJobs_executed hex₁ hpre, hfresh.2, enqueuedBy_script, List.nil_append]
  have hlist' : s'.groupJobs req.groupId = ids req := by
    rw [groupJobs_executed hex' hall, hfresh.2, enqueuedBy_script, List.nil_append]
  have hcount₂ : counters req.groupId s₂ =
      ((enqueuedBy (Core.repliedTo es)).length + req.jobs.length, req.jobs.length) := by
    rw [counters_executed hex₂, count_script (g := req.groupId) (.bulk req) rfl, counters_executed hex₁,
      count_executed hpre, hfresh.1, Nat.zero_add]
    rfl
  have hcount' : counters req.groupId s' = (req.jobs.length, req.jobs.length) := by
    rw [counters_executed hex', count_script (g := req.groupId) (.bulk req) rfl, hfresh.1, Nat.zero_add]
    rfl
  refine ⟨_, hlen, htake, htake ▸ hlist₂, hcount₂, fun level x => ?_, ?_⟩
  · rw [mem_fairQueue_executed hex₂ hall, mem_fairQueue_executed hex₁ hpre, mem_fairQueue_executed hex' hall, or_assoc]
    refine or_congr_right (or_iff_right_of_imp ?_)
    rintro ⟨req', hmem, hx⟩
    exact ⟨req', hscript ▸ List.mem_append_left _ hmem, hx⟩
  · rw [hlist₂, hlist', hcount₂, hcount']
    constructor
    · rintro ⟨-, hc⟩
      have := (Prod.mk.inj hc).1
      omega
    · intro hk
      rw [hk, List.length_eq_zero_iff.mp hk]
      exact ⟨rfl, by rw [Nat.zero_add]⟩

end Again

/-- The job is enqueued and its registration rejects. -/
theorem oneJob_rejected : ∃ es s', Core.repliedTo es = [.enqueue (oneJobRequest.options ⟨"j", "null"⟩)] ∧
    Alone {} .empty (.bulk oneJobRequest) es s' .throw := by
  have hscript : Core.Straight SubmitPc.view (Submission.enqueueAll oneJobRequest oneJobRequest.jobs ++ _) _ :=
    (Submission.bulk oneJobRequest).straight
  obtain ⟨es, s', hrun, hes⟩ := (show Alone {} .empty (.bulk oneJobRequest) [] .empty _ from .nil).straight_rejection
    {} hscript
  exact ⟨es, s', hes, hrun⟩

/-- The job of the failed request is in the list twice. -/
theorem resubmitted_oneJob : ∃ s₁ s₂ es es₂, Alone {} .empty (.bulk oneJobRequest) es s₁ .throw ∧
    (∃ n, Alone {} s₁ (.bulk oneJobRequest) es₂ s₂ (.ret n)) ∧ s₂.groupJobs "g" = ["j", "j"] ∧
    counters "g" s₂ = (2, 1) := by
  obtain ⟨es, s₁, hes, hfailed⟩ := oneJob_rejected
  obtain ⟨es₂, s₂, n, hagain⟩ := returns {} Eq s₁ (.bulk oneJobRequest)
  obtain ⟨es', s', n', honce⟩ := returns {} Eq .empty (.bulk oneJobRequest)
  obtain ⟨k, hk, htake, hlist, hcount, -⟩ := resubmitted oneJobRequest ⟨rfl, rfl⟩ hfailed hagain honce
  have hone : k = 1 := by
    have hlen := congrArg List.length htake
    rw [hes] at hlen
    cases k with
    | zero => cases hlen
    | succ k =>
      have : k + 1 ≤ 1 := hk
      omega
  subst hone
  exact ⟨s₁, s₂, es, es₂, hfailed, ⟨n, hagain⟩, hlist, hcount⟩

/-- Sending a failed request again does not leave what one submission leaves. -/
theorem resubmitted_twice : ¬ ∀ (reg : Registry) (req : SubmitBulkJobsRequest) (s s₁ s₂ : Store)
    (es es₂ : List (Core.Answer Reply)) (n : Nat), (ids req).Nodup →
      counters req.groupId s = (0, 0) ∧ s.groupJobs req.groupId = [] →
      Alone reg s (.bulk req) es s₁ .throw → Alone reg s₁ (.bulk req) es₂ s₂ (.ret n) →
        s₂.groupJobs req.groupId = ids req ∧ counters req.groupId s₂ = (req.jobs.length, req.jobs.length) := by
  intro h
  obtain ⟨es, s₁, hes, hfailed⟩ := oneJob_rejected
  obtain ⟨es₂, s₂, n, hagain⟩ := returns {} Eq s₁ (.bulk oneJobRequest)
  obtain ⟨-, hcount⟩ := h {} oneJobRequest .empty s₁ s₂ es es₂ n (by decide) ⟨rfl, rfl⟩ hfailed hagain
  obtain ⟨hex₁, -⟩ := (Submission.bulk oneJobRequest).straight.run hfailed
  obtain ⟨hex₂, -⟩ := (Submission.bulk oneJobRequest).straight.executed hagain
  have htwo : counters "g" s₂ = (2, 1) := by
    rw [counters_executed hex₂, counters_executed hex₁, hes]
    rfl
  cases htwo.symm.trans hcount

end NestPlayground.L5.Registration
