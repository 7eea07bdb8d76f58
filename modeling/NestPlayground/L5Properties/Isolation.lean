import NestPlayground.Core.Traced
import NestPlayground.L4Pipeline.Provenance

/-!
# Group isolation

Job ids are names across groups: the hash of a job is under `job:{jobId}`, and
the queues hold bare ids. So a submission must not use the id of an entry that
is still on its way for other data (`Reuses`); then every entry is processed
with the data of the submission that queued it, its result and its ack are
charged to the group of this submission, and no call made for one group writes
the books of another (`isolation`). With two submissions of one id the data of
the later one is charged twice (`charged_elsewhere`).
-/
namespace NestPlayground.L5.Isolation
open L1 L3 L4

/-! ## The books of a group -/

/-- The counters and the status of the group, its results and its aggregated result. -/
structure SameBooks (B : GroupId) (s s' : Store) : Prop where
  groupMeta : s'.groupMeta B = s.groupMeta B
  results : s'.groupJobResults B = s.groupJobResults B
  result : s'.groupResult B = s.groupResult B

/-- The group whose books a call writes. -/
def bookOf : Cmd → Option GroupId
  | .resultSet g _ => some g
  | .resultSetAggregatedAt g => some g
  | cmd => metaOf cmd

theorem sameBooks {reg : Registry} {cmd : Cmd} {inp : Input} {s : Store} {B : GroupId} (h : bookOf cmd ≠ some B) :
    SameBooks B s (exec reg cmd inp s).1 := by
  refine ⟨groupMeta_frame fun hm => h ?_, ?_, ?_⟩
  · cases cmd <;> first | exact hm | cases hm
  · by_cases hr : records cmd = none
    · rw [results_frame hr]
    · cases cmd with
      | recordJobResult r =>
        have hB : B ≠ r.groupId := fun he => h (he ▸ rfl)
        simp only [exec, L2.recordJobResult, Function.update_of_ne hB]
      | _ => exact absurd rfl hr
  · by_cases hs : stores cmd = true
    · cases cmd with
      | resultSet g r =>
        have hB : B ≠ g := fun he => h (he ▸ rfl)
        simp only [exec, Function.update_of_ne hB]
      | resultSetAggregatedAt g =>
        have hB : B ≠ g := fun he => h (he ▸ rfl)
        simp only [exec, Function.update_of_ne hB]
      | _ => cases hs
    · rw [groupResult_frame (eq_false_of_ne_true hs)]

/-! ## The statement -/

/-- No recovery and no dead-letter operation is started. -/
def Pipelined : Label → Prop
  | .spawn .recoverOnce => False
  | .spawn (.retry _) => False
  | .spawn .retryAll => False
  | .spawn (.purge _) => False
  | .spawn (.cleanup _) => False
  | _ => True

instance (l : Label) : Decidable (Pipelined l) := by
  cases l with
  | spawn t => cases t <;> simp only [Pipelined] <;> infer_instance
  | _ => exact isTrue trivial

def submission : Cmd → Option BulkActionRequest
  | .enqueue req => some req
  | _ => none

/-- The submissions are to the same group, with the same data. -/
def Agree (e req : BulkActionRequest) : Prop :=
  e.jobGroupId = req.jobGroupId ∧ e.jobProcessorType = req.jobProcessorType ∧ e.payload = req.payload

/-- The group on whose behalf an activity makes its next call. -/
def client (o : Origins) (i : Nat) : Proc → Option GroupId
  | .submit p => some p.groupId
  | p => if carrying p then (o.hand i).map (·.jobGroupId) else none

/-- Submissions, fetch cycles, dispatches and worker turns. -/
def serving (p : Proc) : Bool := p.service = .submit || p.service = .fetch || p.service = .dispatch || p.service = .tick

section
variable (reg : Registry)

/-- The entries of a run. -/
def originsOf (t : Core.Traced State Label) : Origins := origins reg (calls reg t.past)

/-- The executed submission uses the id of an outstanding entry for other data. -/
def Reuses (t : Core.Traced State Label) (l : Label) : Prop :=
  ∃ k ∈ callOf reg t.state l, ∃ req ∈ submission k.cmd,
    ∃ e ∈ outstanding (originsOf reg t) (groupsOf (calls reg t.past)) t.state, e.jobId = req.jobId ∧ ¬ Agree e req

/-- Submissions, fetching, working and watching, with processors that answer with the ids of their job. -/
def Working (t : Core.Traced State Label) (l : Label) : Prop := Pipelined l ∧ Answers Own reg t.state l

/-- The same, and no id is reused for other data while its job is outstanding. -/
def Distinct (t : Core.Traced State Label) (l : Label) : Prop := Working reg t l ∧ ¬ Reuses reg t l

/-- Group isolation, in one state of a run. -/
structure Isolated (t : Core.Traced State Label) : Prop where
  queues : Matches (originsOf reg t) (groupsOf (calls reg t.past)) t.state.world
  submitted : ∀ i e, (originsOf reg t).hand i = some e → ∃ k ∈ calls reg t.past, k.cmd = .enqueue e
  delivered : ∀ i job, nextCall reg t.state i = some (.process job) →
    ∃ e, (originsOf reg t).hand i = some e ∧ JobOf e job
  charged : ∀ i cmd x, nextCall reg t.state i = some cmd → records cmd = some x ∨ acks cmd = some x →
    ∃ e, (originsOf reg t).hand i = some e ∧ x = (e.jobId, e.jobGroupId)
  confined : ∀ i p cmd inp B, t.state.procs[i]? = some p → serving p = true → nextCall reg t.state i = some cmd →
    client (originsOf reg t) i p ≠ some B → SameBooks B t.state.world (exec reg cmd inp t.state.world).1

end

instance (e req : BulkActionRequest) : Decidable (Agree e req) := inferInstanceAs (Decidable (_ ∧ _ ∧ _))

instance (reg : Registry) (t : Core.Traced State Label) (l : Label) : Decidable (Reuses reg t l) :=
  inferInstanceAs (Decidable (∃ k ∈ callOf reg t.state l, _))

instance (reg : Registry) (t : Core.Traced State Label) (l : Label) : Decidable (Working reg t l) :=
  inferInstanceAs (Decidable (_ ∧ _))

instance (reg : Registry) (t : Core.Traced State Label) (l : Label) : Decidable (Distinct reg t l) :=
  inferInstanceAs (Decidable (_ ∧ _))

/-! ## The entries along a run -/

/-- The activity belongs to neither recovery nor the dead letters. -/
def ordinary (p : Proc) : Bool := p.service ≠ .recovery && p.service ≠ .deadLetter

theorem ordinary_next {p q : Proc} (hs : q.service = p.service ∨ q.service = .done) (h : ordinary p = true) :
    ordinary q = true := by
  unfold ordinary at h ⊢
  rcases hs with hs | hs
  · rw [hs]
    exact h
  · rw [hs]
    rfl

/-- The queues hold the entries, the hash of an outstanding entry its data, and
the activities carry what they have in hand. -/
structure Sourced (reg : Registry) (cs : List Call) (s : Store) (ps : List Proc) : Prop where
  queues : Matches (origins reg cs) (groupsOf cs) s
  agrees : ∀ e, Outstanding (origins reg cs) ps e → Agrees e (s.jobs e.jobId)
  carries : ∀ (i : Nat) p, ps[i]? = some p → carrying p = true →
    ∃ e, (origins reg cs).hand i = some e ∧ Carries e p
  live : ∀ (i : Nat) p, ps[i]? = some p → ordinary p = true

section
variable {reg : Registry} {cs : List Call} {s : Store} {ps : List Proc} {i : Nat} {inp : Input} {p : Proc} {cmd : Cmd}
  {ok : Reply cmd → Proc} {err : Proc} {e : BulkActionRequest}

theorem revives_of_ordinary (hv : p.view reg = .call cmd ok err) (h : ordinary p = true) :
    revives cmd = false := by
  have hmay := mayCall_of_view hv
  cases p with
  | recovery p | deadLetter p => cases h
  | _ => cases cmd <;> first | rfl | cases hmay

/-- What the caller has in hand, and what the call does with it. -/
theorem Sourced.caller (h : Sourced reg cs s ps) (hp : ps[i]? = some p) (hv : p.view reg = .call cmd ok err)
    (hc : carrying p = true) :
    ∃ e, (origins reg cs).hand i = some e ∧ Carries e p ∧ OnBehalf e cmd ∧
      (∀ r, Tells e cmd r → Carries e (ok r)) ∧ Carries e err := by
  obtain ⟨e, he, hcar⟩ := h.carries i p hp hc
  have hspec := @carries_spec reg e p hc hcar
  rw [hv] at hspec
  exact ⟨e, he, hcar, hspec⟩

theorem pops_of_onBehalf (h : OnBehalf e cmd) : pops cmd = false := by
  cases cmd <;> first | rfl | cases h

theorem queues_of_onBehalf {j : JobId} (h : OnBehalf e cmd) (hq : queues cmd = some j) : e.jobId = j := by
  cases cmd with
  | readyQueuePush j => cases hq; exact h.symm
  | congestionBackoff j g => cases hq; exact h.1.symm
  | nonReadyAdd j => cases hq; exact h.symm
  | _ => cases hq

theorem needs_of_queues {j : JobId} (hq : queues cmd = some j) : needs cmd = true := by
  cases cmd <;> first | rfl | cases hq

/-- The replies tell of the entry in hand: its hash agrees, and a processor
answers with the ids of its job. -/
theorem tells_of_onBehalf (h : OnBehalf e cmd) (hag : needs cmd = true → Agrees e (s.jobs e.jobId))
    (hown : ∀ x ∈ answers cmd inp, Own x.1 x.2.jobId x.2.groupId) : Tells e cmd (exec reg cmd inp s).2 := by
  cases cmd with
  | dequeue | reliableDequeue => cases h
  | jobGetAll j =>
    obtain rfl : j = e.jobId := h
    exact hag rfl
  | process job =>
    obtain ⟨now, uuid, outcome, order⟩ := inp
    match outcome with
    | none => trivial
    | some (.threw m) => trivial
    | some (.returned r) => exact hown (job, r) rfl
  | _ => trivial

/-- A hash goes on holding the data of an entry, unless its id is reused for other data. -/
theorem agrees_exec (h : Agrees e (s.jobs e.jobId))
    (hsub : ∀ req ∈ submission cmd, e.jobId = req.jobId → Agree e req) :
    Agrees e ((exec reg cmd inp s).1.jobs e.jobId) := by
  cases hq : enqueues cmd with
  | none => exact h.sameJob (jobs_sameJob hq e.jobId)
  | some x =>
    cases cmd with
    | enqueue req =>
      by_cases hid : e.jobId = req.jobId
      · obtain ⟨hg, ht, hp⟩ := hsub req rfl hid
        simp only [exec, L2.enqueue, hid, Function.update_self]
        exact ⟨congrArg some hid.symm, congrArg some hg.symm, congrArg some ht.symm, congrArg some hp.symm⟩
      · simp only [exec, L2.enqueue, Function.update_of_ne hid]
        exact h
    | _ => cases hq

theorem agrees_enqueued : Agrees e ((exec reg (.enqueue e) inp s).1.jobs e.jobId) := by
  simp only [exec, L2.enqueue, Function.update_self]
  exact ⟨rfl, rfl, rfl, rfl⟩

/-- Only fetchers and workers carry anything, and an activity keeps its service. -/
theorem service_of_next {q : Proc} (hs : q.service = p.service ∨ q.service = .done) (hc : carrying q = true) :
    p.service = .fetch ∨ p.service = .dispatch ∨ p.service = .tick := by
  have hnext := service_of_carrying hc
  rcases hs with hs | hs
  · rw [hs] at hnext
    exact hnext.imp_right .inr
  · rw [hs] at hnext
    rcases hnext with hn | hn <;> cases hn

/-- The hands of the caller after its call. -/
theorem Sourced.caller_next (h : Sourced reg cs s ps) (hp : ps[i]? = some p) (hv : p.view reg = .call cmd ok err)
    (hown : ∀ x ∈ answers cmd inp, Own x.1 x.2.jobId x.2.groupId)
    (hc : carrying (ok (exec reg cmd inp s).2) = true) :
    ∃ e, (origins reg (⟨i, cmd, inp, s⟩ :: cs)).hand i = some e ∧ Carries e (ok (exec reg cmd inp s).2) := by
  by_cases hcp : carrying p = true
  · obtain ⟨e, he, -, hon, hnext, -⟩ := h.caller hp hv hcp
    have hbusy := busy_spec reg p
    rw [hv] at hbusy
    have htells := @tells_of_onBehalf reg s inp cmd e hon (fun hn => h.agrees e (.hand hp (hbusy.1 hn) he)) hown
    refine ⟨e, ?_, hnext _ htells⟩
    rw [origins, hand_keeps (pops_of_onBehalf hon)]
    exact he
  · have hcp := eq_false_of_ne_true hcp
    have hsame := same_service reg p
    rw [hv] at hsame
    have hservice := service_of_next (hsame.2.1 _) hc
    have hseeks := seeks_spec reg hcp hservice
    rw [hv] at hseeks
    obtain ⟨ht, hcar⟩ := hseeks.2.1 _ hc
    obtain ⟨e, he, hfrom, htells⟩ := @taken reg _ _ ⟨i, cmd, inp, s⟩ h.queues ht
    refine ⟨e, he, hcar e (htells (h.agrees e ?_))⟩
    rcases hfrom with ⟨g, hg⟩ | hr
    · exact .group hg
    · exact .ready hr

/-- One call. -/
theorem Sourced.call (h : Sourced reg cs s ps) (hp : ps[i]? = some p) (hv : p.view reg = .call cmd ok err)
    (hown : ∀ x ∈ answers cmd inp, Own x.1 x.2.jobId x.2.groupId)
    (hreuse : ∀ req ∈ submission cmd, ∀ e, Outstanding (origins reg cs) ps e → e.jobId = req.jobId → Agree e req) :
    Sourced reg (⟨i, cmd, inp, s⟩ :: cs) (exec reg cmd inp s).1 (ps.set i (ok (exec reg cmd inp s).2)) := by
  have hbusy := busy_spec reg p
  have hsame := same_service reg p
  rw [hv] at hbusy hsame
  have hpops : busy p = true → pops cmd = false := by
    intro hb
    obtain ⟨e, -, -, hon, -⟩ := h.caller hp hv (carrying_of_busy hb)
    exact pops_of_onBehalf hon
  refine ⟨?_, fun e he => ?_, ?_, ?_⟩
  · refine matches_call h.queues (revives_of_ordinary hv (h.live i p hp)) fun j hq => ?_
    obtain ⟨e, he, -, hon, -⟩ := h.caller hp hv (carrying_of_busy (hbusy.1 (needs_of_queues hq)))
    exact ⟨e, he, queues_of_onBehalf hon hq⟩
  · rcases @outstanding_call reg _ _ ⟨i, cmd, inp, s⟩ ps p _ e h.queues hp hbusy.1 hpops (hbusy.2.1 _) he with ho | henq
    · exact agrees_exec (h.agrees e ho) fun req hreq => hreuse req hreq e ho
    · obtain rfl : cmd = .enqueue e := henq
      exact agrees_enqueued
  · refine Core.Program.forall_set (fun k q hk hq hc => ?_) fun hc => h.caller_next hp hv hown hc
    obtain ⟨e, he, hcar⟩ := h.carries k q hq hc
    refine ⟨e, ?_, hcar⟩
    rw [origins, hand_other hk]
    exact he
  · exact Core.Program.forall_set (fun k q _ => h.live k q) (ordinary_next (hsame.2.1 _) (h.live i p hp))

/-- The hands of the caller after a rejected call. -/
theorem Sourced.caller_rejected (h : Sourced reg cs s ps) (hp : ps[i]? = some p) (hv : p.view reg = .call cmd ok err)
    (hc : carrying err = true) : ∃ e, (origins reg cs).hand i = some e ∧ Carries e err := by
  by_cases hcp : carrying p = true
  · obtain ⟨e, he, -, -, -, herr⟩ := h.caller hp hv hcp
    exact ⟨e, he, herr⟩
  · have hcp := eq_false_of_ne_true hcp
    have hsame := same_service reg p
    rw [hv] at hsame
    have hseeks := seeks_spec reg hcp (service_of_next hsame.2.2 hc)
    rw [hv] at hseeks
    exact absurd (hc.symm.trans hseeks.2.2) (by decide)

/-- A step that executes no call. -/
theorem Sourced.idle {s' : Store} {ps' : List Proc} (h : Sourced reg cs s ps) (hg : s'.groupJobs = s.groupJobs)
    (hr : s'.readyQueue = s.readyQueue) (hn : s'.nonReadyQueue = s.nonReadyQueue) (hj : s'.jobs = s.jobs)
    (hbusy : ∀ (k : Nat) q, ps'[k]? = some q → busy q = true → ∃ p, ps[k]? = some p ∧ busy p = true)
    (hcarry : ∀ (k : Nat) q, ps'[k]? = some q → carrying q = true →
      ∃ e, (origins reg cs).hand k = some e ∧ Carries e q)
    (hlive : ∀ (k : Nat) q, ps'[k]? = some q → ordinary q = true) :
    Sourced reg cs s' ps' := by
  refine ⟨h.queues.frame hg hr hn, fun e he => ?_, hcarry, hlive⟩
  rw [hj]
  refine h.agrees e ?_
  cases he with
  | group h => exact .group h
  | ready h => exact .ready h
  | waiting h => exact .waiting h
  | @hand k q hq hb h =>
    obtain ⟨p, hp, hb⟩ := hbusy k q hq hb
    exact .hand hp hb h

/-- A task starts with empty hands. -/
theorem carrying_of_started {p : Proc} (h : Started p) : carrying p = false := by
  cases h <;> rfl

theorem start_ordinary {t : Task} (h : Pipelined (.spawn t)) : ordinary (t.start reg) = true := by
  cases t with
  | fetchCycle =>
    simp only [Task.start, FetchPc.loop]
    split <;> rfl
  | recoverOnce | retry | retryAll | purge | cleanup => cases h
  | _ => rfl

theorem sourced_inductive (reg : Registry) : ((runs reg).traced.restrict (Distinct reg)).Inductive
    fun t => Sourced reg (calls reg t.past) t.state.world t.state.procs where
  init := by
    rintro ⟨c, past⟩ ⟨rfl, rfl⟩
    have hnone : ∀ {k : Nat} {q : Proc} {P : Prop}, initialState.procs[k]? = some q → P := by
      intro k q P hq
      simp [initialState] at hq
    refine ⟨matches_empty, fun e he => ?_, fun k q hq => hnone hq, fun k q hq => hnone hq⟩
    cases he with
    | group h => cases h
    | ready h => cases h
    | waiting h => cases h
    | hand hp => exact hnone hp
  step := by
    rintro ⟨c, past⟩ l ⟨c', past'⟩ h ⟨⟨hs, hpast⟩, ⟨hpipe, hown⟩, hreuse⟩
    have hs : (pipeline reg).Step c l c' := hs
    have hpast : past' = (c, l) :: past := hpast
    subst hpast
    have hsame : ∀ (k : Nat) q, c.procs[k]? = some q → busy q = true → ∃ p, c.procs[k]? = some p ∧ busy p = true :=
      fun _ q hq hb => ⟨q, hq, hb⟩
    cases hs with
    | @run i inp p cmd ok err hp hv =>
      have hcall := @callOf_run reg c i inp p cmd ok err hp hv
      have hcalls : calls reg ((c, .run i inp) :: past) = ⟨i, cmd, inp, c.world⟩ :: calls reg past := by
        simp only [calls, List.filterMap_cons, hcall]
      simp only [hcalls]
      refine h.call hp hv (onCalls_run hown hp hv) fun req hreq e ho hid => ?_
      by_contra hne
      exact hreuse ⟨_, hcall, req, hreq, e, mem_outstanding h.queues ho, hid, hne⟩
    | @reject i p cmd ok err hp hv hr =>
      have hbusy := busy_spec reg p
      have hservice := same_service reg p
      rw [show p.view reg = .call cmd ok err from hv] at hbusy hservice
      refine h.idle rfl rfl rfl rfl ?_ ?_ ?_
      · exact Core.Program.forall_set (fun k q _ => hsame k q) fun hb => ⟨p, hp, hbusy.2.2 hb⟩
      · exact Core.Program.forall_set (fun k q _ => h.carries k q) fun hc => h.caller_rejected hp hv hc
      · exact Core.Program.forall_set (fun k q _ => h.live k q) (ordinary_next hservice.2.2 (h.live i p hp))
    | stop hp =>
      refine h.idle rfl rfl rfl rfl ?_ ?_ ?_
      · exact Core.Program.forall_set (fun k q _ => hsame k q) fun hb => by cases hb
      · exact Core.Program.forall_set (fun k q _ => h.carries k q) fun hc => by cases hc
      · exact Core.Program.forall_set (fun k q _ => h.live k q) rfl
    | @spawn t =>
      have hquiet := carrying_of_started (t.started reg)
      have hbusy : busy (Task.start reg t) ≠ true := fun hb => by
        rw [carrying_of_busy hb] at hquiet
        cases hquiet
      refine h.idle rfl rfl rfl rfl ?_ ?_ ?_
      · exact Core.Program.forall_append hsame fun hb => absurd hb hbusy
      · exact Core.Program.forall_append h.carries fun hc => absurd (hc.symm.trans hquiet) (by decide)
      · exact Core.Program.forall_append h.live (start_ordinary hpipe)
    | @env e =>
      cases e <;> exact h.idle rfl rfl rfl rfl hsame h.carries h.live

/-! ## Isolation -/

theorem view_of_nextCall {c : State} (h : nextCall reg c i = some cmd) :
    ∃ p ok err, c.procs[i]? = some p ∧ p.view reg = .call cmd ok err := by
  unfold nextCall at h
  split at h
  · rename_i p hp
    split at h
    · rename_i cmd' ok err hv
      cases h
      exact ⟨p, ok, err, hp, hv⟩
    · cases h
  · cases h

/-- The calls that hand a job to a processor or charge it to a group. -/
def chargesOrHands : Cmd → Bool
  | .process _ | .recordJobResult _ | .ack _ _ => true
  | _ => false

/-- Such calls are made with an entry in hand. -/
theorem carrying_of_charge (hv : p.view reg = .call cmd ok err)
    (hl : ordinary p = true) (h : chargesOrHands cmd = true) : carrying p = true := by
  by_contra hc
  have hc := eq_false_of_ne_true hc
  by_cases hs : p.service = .fetch ∨ p.service = .dispatch ∨ p.service = .tick
  · have hseeks := seeks_spec reg hc hs
    rw [hv] at hseeks
    have hsk := hseeks.1
    cases cmd <;> first | (cases h; done) | cases hsk
  · have hmay := mayCall_of_view hv
    cases p with
    | fetch p => exact hs (.inl rfl)
    | dispatch p => exact hs (.inr (.inl rfl))
    | tick p => exact hs (.inr (.inr rfl))
    | recovery p => cases hl
    | _ => cases cmd <;> first | (cases h; done) | cases hmay

theorem bookOf_of_onBehalf {B : GroupId} (h : OnBehalf e cmd) (hb : bookOf cmd = some B) : e.jobGroupId = B := by
  cases cmd with
  | recordJobResult r => cases hb; exact h.2.symm
  | ack j g => cases hb; exact h.2.symm
  | transitionStatus g t => cases hb; exact h.symm
  | resultSet g r => cases hb; exact h.symm
  | resultSetAggregatedAt g => cases hb; exact h.symm
  | enqueue | metaSetRegisteredJobs | metaSetTimeoutAt => cases h
  | _ => cases hb

theorem bookOf_of_seeks {B : GroupId} (h : seeks cmd = true) : bookOf cmd ≠ some B := by
  cases cmd <;> first | (cases h; done) | (intro hb; cases hb)

/-- A submission writes the books of its own group. -/
theorem bookOf_of_submit {q : SubmitPc} {B : GroupId} (hv : (Proc.submit q).view reg = .call cmd ok err)
    (hb : bookOf cmd = some B) : q.groupId = B := by
  cases q <;> cases hv <;> first | (cases hb; rfl) | cases hb

/-- In every run of submissions, fetches, dispatches and worker turns over any
number of groups in which no id is reused for other data while an entry of it
is outstanding, the groups are isolated. -/
theorem isolation (reg : Registry) (t : Core.Traced State Label)
    (h : ((runs reg).traced.restrict (Distinct reg)).Reachable t) : Isolated reg t := by
  have hs := (sourced_inductive reg).reachable t h
  -- who has an entry in hand makes the call for it
  have hhand : ∀ {i cmd}, nextCall reg t.state i = some cmd → chargesOrHands cmd = true →
      ∃ e, (originsOf reg t).hand i = some e ∧ OnBehalf e cmd := by
    intro i cmd hcmd hch
    obtain ⟨p, ok, err, hp, hv⟩ := view_of_nextCall hcmd
    obtain ⟨e, he, -, hon, -⟩ := hs.caller hp hv (carrying_of_charge hv (hs.live i p hp) hch)
    exact ⟨e, he, hon⟩
  refine ⟨hs.queues, (submitted reg _).hand, fun i job hcmd => hhand hcmd rfl,
    fun i cmd x hcmd hx => ?_, fun i p cmd inp B hp hserving hcmd hB => ?_⟩
  · cases cmd with
    | recordJobResult r =>
      obtain ⟨e, he, hid, hg⟩ := hhand hcmd rfl
      refine ⟨e, he, ?_⟩
      rcases hx with hx | hx
      · cases hx
        rw [hid, hg]
      · cases hx
    | ack j g =>
      obtain ⟨e, he, hid, hg⟩ := hhand hcmd rfl
      refine ⟨e, he, ?_⟩
      rcases hx with hx | hx
      · cases hx
      · cases hx
        rw [hid, hg]
    | _ => rcases hx with hx | hx <;> cases hx
  · obtain ⟨p', ok, err, hp', hv⟩ := view_of_nextCall hcmd
    rw [hp] at hp'
    cases hp'
    refine sameBooks fun hb => hB ?_
    by_cases hc : carrying p = true
    · obtain ⟨e, he, -, hon, -⟩ := hs.caller hp hv hc
      have hclient : client (originsOf reg t) i p = ((originsOf reg t).hand i).map (·.jobGroupId) := by
        cases p with
        | submit q => cases hc
        | _ => simp only [client, hc, if_true]
      rw [hclient, show (originsOf reg t).hand i = some e from he, Option.map_some, bookOf_of_onBehalf hon hb]
    · have hc := eq_false_of_ne_true hc
      have hseeks : p.service = .fetch ∨ p.service = .dispatch ∨ p.service = .tick → False := by
        intro hs
        have := seeks_spec reg hc hs
        rw [hv] at this
        exact bookOf_of_seeks this.1 hb
      cases p with
      | submit q => exact congrArg some (bookOf_of_submit hv hb)
      | fetch q => exact (hseeks (.inl rfl)).elim
      | dispatch q => exact (hseeks (.inr (.inl rfl))).elim
      | tick q => exact (hseeks (.inr (.inr rfl))).elim
      | _ => cases hserving

end

/-- The id `j` is submitted to `g`, fetched, processed and acked; then it is
submitted to `h`, fetched and taken by a second worker. -/
def reused : List Label :=
  oneJob ++ processed 2 3 ++ runsAt 2 3 1 ++
    [.spawn (.submitBulkJobs ⟨"h", "PUSH_NOTIFICATION", [⟨"j", "1"⟩], 0, .normal⟩)] ++ runsAt 3 4 4 ++
    [.spawn .fetchCycle] ++ runsAt 4 5 5 ++ [.spawn (.tick "worker-0" "i")] ++ runsAt 5 6 7

/-- The first worker is about to record its result for `g`, the second one to
process the job of `h`. -/
theorem isolation_reused : ∃ t : Core.Traced State Label, (nextCall {} t.state 2).bind records = some ("j", "g") ∧
    nextCall {} t.state 5 = some (.process ⟨"j", "h", "PUSH_NOTIFICATION", "1", .processing, 0, 4⟩) ∧
    Isolated {} t := by
  obtain ⟨t, hr, hP⟩ := Core.Program.exists_of_retrace (S := pipeline {})
    (P := fun t : Core.Traced State Label => decide ((nextCall {} t.state 2).bind records = some ("j", "g") ∧
      nextCall {} t.state 5 = some (.process ⟨"j", "h", "PUSH_NOTIFICATION", "1", .processing, 0, 4⟩)))
    (show ((pipeline {}).retrace (fun t l => decide (Distinct {} t l)) ⟨initialState, []⟩ reused).any _ = true by
      decide +kernel)
  have hr' : ((runs {}).traced.restrict (Distinct {})).Reachable t :=
    Core.LTS.Reachable.weaken (fun _ _ h => of_decide_eq_true h) hr
  obtain ⟨hrecord, hprocess⟩ := of_decide_eq_true hP
  exact ⟨t, hrecord, hprocess, isolation {} t hr'⟩

/-- The id `j` is submitted to `h` and then to `g`, both in the queue. The entry
of `h` is fetched and processed. -/
def overwritten : List Label :=
  [.spawn (.submitBulkJobs ⟨"h", "PUSH_NOTIFICATION", [⟨"j", "1"⟩], 0, .normal⟩)] ++ runsAt 0 1 4 ++
    [.spawn (.submitBulkJobs ⟨"g", "SEND_EMAIL", [⟨"j", "null"⟩], 0, .normal⟩)] ++ runsAt 1 1 4 ++
    [.spawn .fetchCycle] ++ runsAt 2 2 5 ++ processed 3 3 ++ runsAt 3 3 1

/-- The worker has the entry of `h` in hand and records its result for `g`. -/
theorem charged_elsewhere : ¬ ∀ (reg : Registry) (t : Core.Traced State Label),
    ((runs reg).traced.restrict (Working reg)).Reachable t → Isolated reg t := by
  intro h
  obtain ⟨t, hr, hP⟩ := Core.Program.exists_of_retrace (S := pipeline {})
    (P := fun t : Core.Traced State Label => decide ((nextCall {} t.state 3).bind records = some ("j", "g") ∧
      ((originsOf {} t).hand 3).map (·.jobGroupId) = some "h"))
    (show ((pipeline {}).retrace (fun t l => decide (Working {} t l)) ⟨initialState, []⟩ overwritten).any _ = true by
      decide +kernel)
  have hi := h {} t (Core.LTS.Reachable.weaken (fun _ _ h => of_decide_eq_true h) hr)
  obtain ⟨hrecord, hhand⟩ := of_decide_eq_true hP
  obtain ⟨cmd, hcmd, hx⟩ := Option.bind_eq_some_iff.mp hrecord
  obtain ⟨e, he, hcharged⟩ := hi.charged 3 cmd ("j", "g") hcmd (.inl hx)
  rw [he, Option.map_some] at hhand
  have hg : "g" = e.jobGroupId := congrArg Prod.snd hcharged
  exact absurd (hg.trans (Option.some.inj hhand)) (by decide)

end NestPlayground.L5.Isolation
