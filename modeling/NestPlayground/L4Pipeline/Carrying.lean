import NestPlayground.L4Pipeline.Duties
import NestPlayground.L4Pipeline.Finalizing

/-!
# What an activity carries

The fetcher and the workers take a job out of a queue and go on with it.
`Carries e p`: what the activity `p` does from then on is for the submission
`e`; `OnBehalf e` are the calls it makes, which charge the group of `e` and no
other (`carries_spec`). It goes on with `e` as long as the replies tell it of
`e`: the hash of a job is the one thing a later submission can change under it.
-/
namespace NestPlayground.L4
open L1 L3

/-- The hash holds the data of the submission. -/
structure Agrees (e : BulkActionRequest) (h : JobHash) : Prop where
  id : h.id = some e.jobId
  groupId : h.groupId = some e.jobGroupId
  processorType : h.processorType = some e.jobProcessorType
  payload : h.payload = some e.payload

/-- The job object holds the data of the submission. -/
structure JobOf (e : BulkActionRequest) (job : Job) : Prop where
  id : job.id = e.jobId
  groupId : job.groupId = e.jobGroupId
  processorType : job.processorType = e.jobProcessorType
  payload : job.payload = e.payload

theorem Agrees.job {e : BulkActionRequest} {h : JobHash} {job : Job} (ha : Agrees e h) (hj : Job.ofHash? h = some job) :
    JobOf e job := by
  unfold Job.ofHash? at hj
  rw [ha.payload] at hj
  cases hj
  refine ⟨?_, ?_, ?_, rfl⟩
  · rw [ha.id]
    rfl
  · rw [ha.groupId]
    rfl
  · rw [ha.processorType]
    rfl

theorem Agrees.sameJob {e : BulkActionRequest} {h h' : JobHash} (ha : Agrees e h) (hs : h'.SameJob h) : Agrees e h' :=
  ⟨hs.id.trans ha.id, hs.groupId.trans ha.groupId, hs.processorType.trans ha.processorType,
    hs.payload.trans ha.payload⟩

/-- The activity has taken an entry. -/
def carrying : Proc → Bool
  | .fetch (.admission _ _) => true
  | .tick (.dequeue _) => false
  | .tick _ => true
  | _ => false

/-- The entry may still be queued by the activity, or its hash read. -/
def busy : Proc → Bool
  | .fetch (.admission _ _) => true
  | .tick (.loadJob _) | .tick (.startTime _ _) | .tick (.process _ _ _) | .tick (.heartbeat _ _ _) => true
  | .tick (.endTime _ _ _ _) | .tick (.ack _ _ _) | .tick (.nack _ _ _) | .tick (.nackCaught _ _ _) => true
  | .tick (.failed (.incrRetryCount _)) | .tick (.failed (.setPending _)) | .tick (.failed (.requeue _)) => true
  | _ => false

section
variable (e : BulkActionRequest)

def CarriesAdd : AddPc → Prop
  | .script j g => j = e.jobId ∧ g = e.jobGroupId
  | .fixedBackoff j => j = e.jobId

def CarriesAdmit : AdmitPc → Prop
  | .hasCapacity job => JobOf e job
  | .checkRateLimit job => JobOf e job
  | .push job => JobOf e job
  | .addToNonReady _ p => CarriesAdd e p

def CarriesFetch : FetchPc → Prop
  | .admission _ p => CarriesAdmit e p
  | _ => True

def CarriesFinalize : FinalizePc → Prop
  | .acquire g _ => g = e.jobGroupId
  | .metaGetAll g _ => g = e.jobGroupId
  | .toAggregating g _ _ => g = e.jobGroupId
  | .aggregate g _ a => g = e.jobGroupId ∧ aggregated a = e.jobGroupId
  | .toCompleted g _ => g = e.jobGroupId
  | .release g _ _ => g = e.jobGroupId

def CarriesTick : TickPc → Prop
  | .dequeue _ => False
  | .loadJob j => j = e.jobId
  | .cleanUp j => j = e.jobId
  | .startTime j job => j = e.jobId ∧ JobOf e job
  | .process j job _ => j = e.jobId ∧ JobOf e job
  | .heartbeat j job _ => j = e.jobId ∧ JobOf e job
  | .endTime j job _ r => j = e.jobId ∧ JobOf e job ∧ r.jobId = e.jobId ∧ r.groupId = e.jobGroupId
  | .ack j job r => j = e.jobId ∧ JobOf e job ∧ r.jobId = e.jobId ∧ r.groupId = e.jobGroupId
  | .nack j job _ => j = e.jobId ∧ JobOf e job
  | .nackCaught j job _ => j = e.jobId ∧ JobOf e job
  | .complete (.record r) => r.jobId = e.jobId ∧ r.groupId = e.jobGroupId
  | .complete (.ack j g) => j = e.jobId ∧ g = e.jobGroupId
  | .complete (.resetGroupStats g) => g = e.jobGroupId
  | .complete (.finalize q) => CarriesFinalize e q
  | .failed (.requeue p) => CarriesAdd e p
  | .failed (.incrRetryCount job) => JobOf e job
  | .failed (.setPending job) => JobOf e job
  | .failed (.deadLetter job _) => JobOf e job
  | .failed (.setFailed job _) => JobOf e job
  | .failed (.record job _) => JobOf e job
  | .failed (.ack job) => JobOf e job

/-- What the activity does is for the entry `e`. -/
def Carries : Proc → Prop
  | .fetch p => CarriesFetch e p
  | .tick p => CarriesTick e p
  | _ => True

/-- The calls made for the entry `e`. -/
def OnBehalf : Cmd → Prop
  | .readyQueuePush j => j = e.jobId
  | .congestionBackoff j g => j = e.jobId ∧ g = e.jobGroupId
  | .nonReadyAdd j => j = e.jobId
  | .rateLimitCheck g => g = e.jobGroupId
  | .jobGetAll j => j = e.jobId
  | .process job => JobOf e job
  | .reliableAck j => j = e.jobId
  | .extendDeadline j => j = e.jobId
  | .jobIncrRetryCount j => j = e.jobId
  | .jobSetStatus j _ => j = e.jobId
  | .deadLetter j g _ _ => j = e.jobId ∧ g = e.jobGroupId
  | .recordJobResult r => r.jobId = e.jobId ∧ r.groupId = e.jobGroupId
  | .ack j g => j = e.jobId ∧ g = e.jobGroupId
  | .congestionDelete g => g = e.jobGroupId
  | .transitionStatus g _ => g = e.jobGroupId
  | .resultSet g _ => g = e.jobGroupId
  | .resultSetAggregatedAt g => g = e.jobGroupId
  | .enqueue _ | .metaSetRegisteredJobs _ _ | .metaSetTimeoutAt _ => False
  | .dequeue | .reliableDequeue _ _ _ _ | .moveToReady | .recoverOrphans | .readyAppend _ => False
  | _ => True

/-- The call took an entry out of a queue. -/
def obtains : (cmd : Cmd) → Reply cmd → Bool
  | .dequeue, some _ => true
  | .reliableDequeue _ _ _ _, some _ => true
  | _, _ => false

/-- The calls that queue the entry in hand, or read its hash. -/
def needs : Cmd → Bool
  | .readyQueuePush _ | .congestionBackoff _ _ | .nonReadyAdd _ | .jobGetAll _ => true
  | _ => false

/-- The calls made with empty hands by the fetcher, the dispatcher and the workers. -/
def seeks : Cmd → Bool
  | .readyLength | .readyHead | .jobGetRetryCount _ | .jobGetGroupId _ => true
  | .dequeue | .reliableDequeue _ _ _ _ | .moveToReady => true
  | _ => false

/-- What a reply has to say for the activity to go on with the entry. -/
def Tells : (cmd : Cmd) → Reply cmd → Prop
  | .dequeue, some hash => Agrees e hash
  | .reliableDequeue _ _ _ _, some (j, _) => j = e.jobId
  | .jobGetAll _, hash => Agrees e hash
  | .process job, some (.returned r) => r.jobId = job.id ∧ r.groupId = job.groupId
  | _, _ => True

/-- The triple of an await that goes on with the entry. -/
def Serves {Pc α : Type} (P : Pc → Prop) (a : Await Pc α) : Prop :=
  a.Spec (OnBehalf e) (fun cmd r x => Tells e cmd r → x.All P) fun _ x => x.All P

end

section
variable {reg : Registry} {e : BulkActionRequest}

theorem Serves.map {A B α β : Type} {P : A → Prop} {Q : B → Prop} {a : Await A α}
    {f : Core.Next A α → Core.Next B β} (h : Serves e P a) (hf : ∀ x, x.All P → (f x).All Q) : Serves e Q (a.map f) :=
  Core.Action.Spec.map h (fun _ _ x hx ht => hf x (hx ht)) fun _ x hx => hf x hx

theorem serves_add {p : AddPc} (h : CarriesAdd e p) : Serves e (CarriesAdd e) (p.view reg) := by
  cases p with
  | script j g => exact ⟨h, fun _ _ => trivial, h.1⟩
  | fixedBackoff j => exact ⟨h, fun _ _ => trivial, trivial⟩

theorem carriesAdd_start {j : JobId} {g : GroupId} (hj : j = e.jobId) (hg : g = e.jobGroupId) :
    CarriesAdd e (.start reg j g) := by
  unfold AddPc.start
  split
  · exact ⟨hj, hg⟩
  · exact hj

theorem serves_admission {p : AdmitPc} (h : CarriesAdmit e p) : Serves e (CarriesAdmit e) (p.view reg) := by
  cases p with
  | hasCapacity job =>
    refine ⟨trivial, fun r _ => ?_, trivial⟩
    simp only
    split
    · exact h
    · trivial
  | checkRateLimit job =>
    refine ⟨h.groupId, fun r _ => ?_, trivial⟩
    simp only
    split
    · exact h
    · exact carriesAdd_start h.id h.groupId
  | push job =>
    refine ⟨h.id, fun r _ => ?_, trivial⟩
    simp only
    split <;> trivial
  | addToNonReady r p =>
    rw [AdmitPc.view]
    refine (serves_add h).map fun x hx => ?_
    cases x with
    | goto p => exact hx
    | ret b => trivial
    | throw => trivial

/-- An await whose replies tell nothing of the entry. -/
theorem Serves.of_spec {A α : Type} {P : A → Prop} {a : Await A α}
    (h : a.Spec (OnBehalf e) (fun _ _ x => x.All P) fun _ x => x.All P) : Serves e P a :=
  h.mono (fun _ hc => hc) (fun _ _ _ hx _ => hx) fun _ _ hx => hx

theorem onBehalf_of_aggregates {cmd : Cmd} (h : aggregates e.jobGroupId cmd) : OnBehalf e cmd := by
  cases cmd <;> first | exact h | exact h.elim | exact trivial

theorem serves_finalize {q : FinalizePc} (h : CarriesFinalize e q) : Serves e (CarriesFinalize e) (q.view reg) := by
  refine .of_spec ?_
  cases q with
  | acquire g p => exact finalize_acquire trivial (fun _ _ => trivial) (fun _ _ _ => h) fun _ _ _ => h
  | metaGetAll g token =>
    refine ⟨trivial, fun m => ?_, h⟩
    simp only
    split
    · exact ⟨h, h⟩
    · exact h
    · exact h
  | toAggregating g token t =>
    refine ⟨h, fun b => ?_, h⟩
    cases b with
    | true => exact ⟨h, h⟩
    | false => exact h
  | aggregate g token a =>
    obtain ⟨hg, ha⟩ := h
    have hkeep := aggregated_spec reg batchSize a
    rw [ha] at hkeep
    rw [FinalizePc.view]
    refine (hkeep.mono (fun _ => onBehalf_of_aggregates) (fun _ _ _ hx => hx) fun _ _ hx => hx).map
      (fun _ _ x hx => ?_) fun _ x hx => ?_
    · cases x with
      | goto a' => exact ⟨hg, hx⟩
      | ret r => exact hg
      | throw => exact hg
    · cases x with
      | goto a' => exact ⟨hg, hx⟩
      | ret r => exact hg
      | throw => exact hg
  | toCompleted g token => exact ⟨h, fun _ => h, h⟩
  | release g token result => exact finalize_release trivial

theorem carriesFinalize_start {g : GroupId} (h : g = e.jobGroupId) : CarriesFinalize e (.start g) := h

theorem serves_complete {p : CompletePc} (h : CarriesTick e (.complete p)) :
    Serves e (fun p' => CarriesTick e (.complete p')) (p.view reg) := by
  cases p with
  | record r => exact ⟨h, fun _ _ => h, trivial⟩
  | ack j g =>
    refine ⟨h, fun b _ => ?_, trivial⟩
    cases b with
    | true => exact h.2
    | false => trivial
  | resetGroupStats g => exact ⟨h, fun _ _ => carriesFinalize_start h, trivial⟩
  | finalize q =>
    rw [CompletePc.view]
    refine (serves_finalize h).map fun x hx => ?_
    cases x with
    | goto q => exact hx
    | ret b => trivial
    | throw => trivial

theorem serves_failed {p : FailedPc} (h : CarriesTick e (.failed p)) :
    Serves e (fun p' => CarriesTick e (.failed p')) (p.view reg) := by
  cases p with
  | incrRetryCount job => exact ⟨h.id, fun _ _ => h, trivial⟩
  | setPending job => exact ⟨h.id, fun _ _ => carriesAdd_start h.id h.groupId, trivial⟩
  | requeue p =>
    rw [FailedPc.view]
    refine (serves_add h).map fun x hx => ?_
    cases x with
    | goto p => exact hx
    | ret b => trivial
    | throw => trivial
  | deadLetter job m => exact ⟨⟨h.id, h.groupId⟩, fun _ _ => h, trivial⟩
  | setFailed job m => exact ⟨h.id, fun _ _ => h, trivial⟩
  | record job m => exact ⟨⟨h.id, h.groupId⟩, fun _ _ => h, trivial⟩
  | ack job => exact ⟨⟨h.id, h.groupId⟩, fun _ _ => trivial, trivial⟩

theorem carriesTick_failed {job : Job} {m : String} (h : JobOf e job) :
    CarriesTick e (.failed (.start reg job m)) := by
  unfold FailedPc.start
  split <;> exact h

theorem carriesTick_loaded {j : JobId} {hash : JobHash} (hj : j = e.jobId) (h : Agrees e hash) :
    (TickPc.loaded j hash).All (CarriesTick e) := by
  unfold TickPc.loaded
  split
  · exact hj
  · split
    · rename_i job hjob
      exact ⟨hj, h.job hjob⟩
    · trivial

theorem carriesTick_settle {j : JobId} {job : Job} {r : JobProcessorResponse} (hj : j = e.jobId) (h : JobOf e job)
    (hr : r.jobId = e.jobId ∧ r.groupId = e.jobGroupId) : CarriesTick e (.settle j job r) := by
  unfold TickPc.settle
  split
  · exact ⟨hj, h, hr⟩
  · split
    · split
      · exact ⟨hj, h⟩
      · exact ⟨hj, h, hr⟩
    · exact ⟨hj, h, hr⟩

theorem serves_tick {p : TickPc} (h : CarriesTick e p) : Serves e (CarriesTick e) (p.view reg) := by
  cases p with
  | dequeue p => cases h
  | loadJob j => exact ⟨h, fun hash ht => carriesTick_loaded h ht, trivial⟩
  | cleanUp j => exact ⟨h, fun _ _ => trivial, trivial⟩
  | startTime j job =>
    refine ⟨trivial, fun now _ => ?_, trivial⟩
    simp only
    split
    · exact h
    · exact h
  | process j job t =>
    refine ⟨h.2, fun r ht => ?_, trivial⟩
    cases r with
    | none => exact h
    | some outcome =>
      cases outcome with
      | returned r => exact ⟨h.1, h.2, ht.1.trans h.2.id, ht.2.trans h.2.groupId⟩
      | threw m => exact h
  | heartbeat j job t => exact ⟨h.1, fun _ _ => h, h⟩
  | endTime j job t r => exact ⟨trivial, fun _ _ => carriesTick_settle h.1 h.2.1 h.2.2, trivial⟩
  | ack j job r => exact ⟨h.1, fun _ _ => h.2.2, ⟨h.1, h.2.1⟩⟩
  | nack j job m => exact ⟨h.1, fun _ _ => carriesTick_failed h.2, h⟩
  | nackCaught j job m => exact ⟨h.1, fun _ _ => carriesTick_failed h.2, trivial⟩
  | complete p =>
    rw [TickPc.view]
    refine (serves_complete h).map fun x hx => ?_
    cases x with
    | goto p => exact hx
    | ret b => trivial
    | throw => trivial
  | failed p =>
    rw [TickPc.view]
    refine (serves_failed h).map fun x hx => ?_
    cases x with
    | goto p => exact hx
    | ret b => trivial
    | throw => trivial

theorem serves_fetch {n : Nat} {p : AdmitPc} (h : CarriesAdmit e p) :
    Serves e (CarriesFetch e) ((FetchPc.admission n p).view reg) := by
  rw [FetchPc.view]
  refine (serves_admission h).map fun x hx => ?_
  cases x with
  | goto p => exact hx
  | ret r =>
    simp only [FetchPc.loop]
    split
    · split <;> trivial
    · trivial
  | throw => trivial

/-- An activity that has taken an entry makes its calls for this entry, and
goes on with it. -/
theorem carries_spec {p : Proc} (hp : carrying p = true) (h : Carries e p) :
    (p.view reg).Spec (OnBehalf e) (fun cmd r p' => Tells e cmd r → Carries e p') fun _ p' => Carries e p' := by
  have hres : ∀ {Pc α : Type} {P : Pc → Prop} {f : Pc → Proc} {a : Await Pc α}, Serves e P a →
      (∀ q, P q → Carries e (f q)) →
      (a.map (resume f)).Spec (OnBehalf e) (fun cmd r p' => Tells e cmd r → Carries e p') fun _ p' => Carries e p' := by
    intro Pc α P f a ha hf
    have hnext : ∀ x : Core.Next Pc α, x.All P → Carries e (resume f x) := by
      intro x hx
      cases x with
      | goto q => exact hf q hx
      | ret b => trivial
      | throw => trivial
    exact Core.Action.Spec.map ha (fun _ _ x hx ht => hnext x (hx ht)) fun _ x hx => hnext x hx
  cases p with
  | fetch p =>
    cases p with
    | admission n p => exact hres (serves_fetch h) fun _ hq => hq
    | hasCapacity n => cases hp
    | dequeue n => cases hp
  | tick p => exact hres (serves_tick h) fun _ hq => hq
  | _ => cases hp

theorem carrying_of_busy {p : Proc} (h : busy p = true) : carrying p = true := by
  cases p with
  | fetch p => cases p <;> first | rfl | cases h
  | tick p => cases p <;> first | rfl | cases h
  | _ => cases h

theorem service_of_carrying {p : Proc} (h : carrying p = true) : p.service = .fetch ∨ p.service = .tick := by
  cases p with
  | fetch p => exact .inl rfl
  | tick p => exact .inr rfl
  | _ => cases h

/-- With empty hands an activity looks for an entry, and carries the one it takes. -/
theorem seeks_spec (reg : Registry) {p : Proc} (hp : carrying p = false)
    (hs : p.service = .fetch ∨ p.service = .dispatch ∨ p.service = .tick) :
    (p.view reg).Spec (fun cmd => seeks cmd = true)
      (fun cmd r p' => carrying p' = true → obtains cmd r = true ∧ ∀ e, Tells e cmd r → Carries e p')
      fun _ p' => carrying p' = false := by
  cases p with
  | fetch p =>
    cases p with
    | hasCapacity n =>
      refine ⟨rfl, fun r h => ?_, rfl⟩
      simp only at h
      split at h <;> cases h
    | dequeue n =>
      refine ⟨rfl, fun r h => ?_, rfl⟩
      cases r with
      | none => cases h
      | some hash =>
        refine ⟨rfl, fun e he => ?_⟩
        simp only
        split
        · rename_i job hjob
          exact he.job hjob
        · trivial
    | admission n p => cases hp
  | dispatch p =>
    cases p with
    | hasCapacity =>
      refine ⟨rfl, fun r h => ?_, rfl⟩
      simp only at h
      split at h <;> cases h
    | moveToReady => exact ⟨rfl, (fun _ h => by cases h), rfl⟩
  | tick p =>
    cases p with
    | dequeue p =>
      cases p with
      | length w i =>
        refine ⟨rfl, fun r h => ?_, rfl⟩
        by_cases hr : r = 0
        · simp only [if_pos hr] at h
          cases h
        · simp only [if_neg hr] at h
          cases h
      | peek w i =>
        refine ⟨rfl, fun r h => ?_, rfl⟩
        cases r <;> cases h
      | peekRetryCount w i j => exact ⟨rfl, (fun _ h => by cases h), rfl⟩
      | peekGroupId w i j n => exact ⟨rfl, (fun _ h => by cases h), rfl⟩
      | script w i n g =>
        refine ⟨rfl, fun r h => ?_, rfl⟩
        cases r with
        | none => cases h
        | some x => exact ⟨rfl, fun e he => he⟩
    | _ => cases hp
  | _ => rcases hs with hs | hs | hs <;> cases hs

theorem complete_needs (reg : Registry) (p : CompletePc) : Calls (fun c => needs c = false) (p.view reg) := by
  refine (complete_calls reg p).mono fun c hc => ?_
  cases c <;> first | rfl | cases hc

/-- The entry is queued, or its hash read, by the activity that has it; a call
hands an activity an entry only if it took it out of a queue. -/
theorem busy_spec (reg : Registry) (p : Proc) :
    (p.view reg).Spec (fun cmd => needs cmd = true → busy p = true)
      (fun cmd r p' => busy p' = true → busy p = true ∨ obtains cmd r = true)
      fun _ p' => busy p' = true → busy p = true := by
  by_cases hb : busy p = true
  · exact .of_forall (fun _ _ => hb) (fun _ _ _ _ => .inl hb) (fun _ _ _ => hb) _
  have hidle : Calls (fun cmd => needs cmd = false) (p.view reg) →
      (p.view reg).Spec (fun _ => True) (fun _ _ p' => busy p' = false) (fun _ p' => busy p' = false) →
      (p.view reg).Spec (fun cmd => needs cmd = true → busy p = true)
        (fun cmd r p' => busy p' = true → busy p = true ∨ obtains cmd r = true)
        fun _ p' => busy p' = true → busy p = true := by
    intro h h'
    refine (Core.Action.Spec.and h h').mono (fun c hc hn => ?_) (fun c r x hx hn => ?_) fun c x hx hn => ?_
    · rw [hc.1] at hn
      cases hn
    · rw [hx.2] at hn
      cases hn
    · rw [hx.2] at hn
      cases hn
  have hfree : ∀ {k : Service} {p' : Proc}, p'.service = k ∨ p'.service = .done →
      (k = .fetch ∨ k = .tick → False) → busy p' = false := by
    intro k p' hk hne
    by_contra hp'
    have := service_of_carrying (carrying_of_busy (eq_true_of_ne_false hp'))
    rcases hk with hk | hk
    · exact hne (hk ▸ this)
    · rw [hk] at this
      rcases this with h | h <;> cases h
  by_cases hs : carrying p = false ∧ (p.service = .fetch ∨ p.service = .dispatch ∨ p.service = .tick)
  · refine (seeks_spec reg hs.1 hs.2).mono (fun c hc hn => ?_) (fun c r x hx hn => ?_) fun c x hx hn => ?_
    · cases c <;> first | cases hc; done | cases hn
    · exact .inr (hx (carrying_of_busy hn)).1
    · rw [carrying_of_busy hn] at hx
      cases hx
  cases p with
  | fetch p =>
    cases p with
    | admission n p => exact absurd rfl hb
    | hasCapacity n => exact absurd ⟨rfl, .inl rfl⟩ hs
    | dequeue n => exact absurd ⟨rfl, .inl rfl⟩ hs
  | tick p =>
    cases p with
    | dequeue p => exact absurd ⟨rfl, .inr (.inr rfl)⟩ hs
    | cleanUp j => exact hidle ⟨rfl, fun _ => trivial, trivial⟩ ⟨trivial, fun _ => rfl, rfl⟩
    | complete p =>
      rw [Proc.view, TickPc.view] at hidle ⊢
      refine hidle (Calls.map (Calls.map (complete_needs reg p))) ?_
      rw [Core.Action.map_map]
      refine Core.Action.map_all _ fun x => ?_
      cases x <;> rfl
    | failed p =>
      cases p with
      | incrRetryCount job => exact absurd rfl hb
      | setPending job => exact absurd rfl hb
      | requeue p => exact absurd rfl hb
      | deadLetter | setFailed | record | ack =>
        exact hidle ⟨rfl, fun _ => trivial, trivial⟩ ⟨trivial, fun _ => rfl, rfl⟩
    | _ => exact absurd rfl hb
  | _ =>
    refine hidle (Calls.mono (may_call reg _) fun c hc => ?_) ((same_service reg _).mono (fun _ h => h) ?_ ?_)
    · cases c <;> first | rfl | cases hc
    · exact fun _ _ x hx => hfree hx (by rintro (h | h) <;> cases h)
    · exact fun _ x hx => hfree hx (by rintro (h | h) <;> cases h)

end
end NestPlayground.L4
