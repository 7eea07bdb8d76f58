import NestPlayground.L4Pipeline.Frames

/-!
# Jobs keep their identity

A job is known by its id once it has been enqueued; its hash then has that id,
a payload and the group of one of its enqueues, every queue holds known ids
only, and every activity that carries a job carries a known one. This holds in
every run. What is known of the ids in a processor's answer is the parameter
`ans`: it has to be met by every answer (`Answers`) and then holds of every
result on its way to `record-job-result.lua`.

`Wanted` is what a call needs of its arguments for the store to stay so,
`Truthful` what its reply says; `sound_spec` is the triple of every await.
-/
namespace NestPlayground.L4
open L1 L3

/-- Some enqueue in `E` was for this job. -/
def Known (E : List (JobId × GroupId)) (j : JobId) : Prop := ∃ g, (j, g) ∈ E

theorem Known.mono {E E' : List (JobId × GroupId)} (h : E ⊆ E') {j : JobId} : Known E j → Known E' j := by
  rintro ⟨g, hg⟩
  exact ⟨g, h hg⟩

/-- A hash of the job `j` as enqueued. -/
def Genuine (E : List (JobId × GroupId)) (j : JobId) (h : JobHash) : Prop :=
  h.id = some j ∧ h.payload.isSome ∧ ∃ g, h.groupId = some g ∧ (j, g) ∈ E

theorem Genuine.sameJob {E : List (JobId × GroupId)} {j : JobId} {h h' : JobHash} (hs : h'.SameJob h)
    (hg : Genuine E j h) : Genuine E j h' := by
  obtain ⟨hid, hpay, g, hgid, hE⟩ := hg
  exact ⟨hs.id.trans hid, by rw [hs.payload]; exact hpay, g, hs.groupId.trans hgid, hE⟩

theorem Genuine.mono {E E' : List (JobId × GroupId)} (hE : E ⊆ E') {j : JobId} {h : JobHash}
    (hg : Genuine E j h) : Genuine E' j h := by
  obtain ⟨hid, hpay, g, hgid, hm⟩ := hg
  exact ⟨hid, hpay, g, hgid, hE hm⟩

/-- The job object of such a hash. -/
theorem Genuine.job {E : List (JobId × GroupId)} {j : JobId} {h : JobHash} (hg : Genuine E j h) :
    ∃ job, Job.ofHash? h = some job ∧ job.id = j ∧ (j, job.groupId) ∈ E := by
  obtain ⟨hid, hpay, g, hgid, hm⟩ := hg
  obtain ⟨payload, hp⟩ := Option.isSome_iff_exists.mp hpay
  exact ⟨_, by rw [Job.ofHash?, hp]; rfl, by simp [hid], by simpa [hgid] using hm⟩

/-- The store names known jobs only. -/
structure Identified (E : List (JobId × GroupId)) (w : Store) : Prop where
  hash : ∀ j, Known E j → Genuine E j (w.jobs j)
  groupJobs : ∀ g, ∀ j ∈ w.groupJobs g, (j, g) ∈ E
  ready : ∀ j ∈ w.readyQueue, Known E j
  nonReady : ∀ j ∈ w.nonReadyQueue, Known E j
  inFlight : ∀ j ∈ w.inFlightQueue, Known E j
  deadLetters : ∀ e ∈ w.deadLetterQueue, Known E e.jobId

theorem identified_empty : Identified [] .empty where
  hash j := by
    rintro ⟨g, hg⟩
    cases hg
  groupJobs g j hj := absurd hj List.not_mem_nil
  ready j hj := absurd hj List.not_mem_nil
  nonReady j hj := absurd hj (Core.ZSet.notMem_empty j)
  inFlight j hj := absurd hj (Core.ZSet.notMem_empty j)
  deadLetters e he := absurd he List.not_mem_nil

/-! ## Calls -/

def Wanted (E : List (JobId × GroupId)) : Cmd → Prop
  | .readyQueuePush j => Known E j
  | .congestionBackoff j _ => Known E j
  | .nonReadyAdd j => Known E j
  | .readyAppend j => Known E j
  | .deadLetter j _ _ _ => Known E j
  | .dlqAppend e => Known E e.jobId
  | _ => True

section
variable (ans : Job → JobId → GroupId → Prop)

def Truthful (E : List (JobId × GroupId)) : (cmd : Cmd) → Reply cmd → Prop
  | .dequeue, some hash => ∃ j, Genuine E j hash
  | .reliableDequeue _ _ _ _, some (j, _) => Known E j
  | .jobGetAll j, hash => Known E j → Genuine E j hash
  | .process job, some (.returned r) => ans job r.jobId r.groupId
  | .recoverOrphans, r => ∀ x ∈ r.pairs, Known E x.1
  | .dlqRange, es => ∀ e ∈ es, Known E e.jobId
  | .dlqPopHead, some e => Known E e.jobId
  | _, _ => True

/-- A processor's answer, with the job it was given. -/
def answers : Cmd → Input → Option (Job × JobProcessorResponse)
  | .process job, { outcome := some (.returned r), .. } => some (job, r)
  | _, _ => none

/-- The answers of the processors meet `ans`. -/
def Answers (reg : Registry) : State → Label → Prop :=
  onCalls reg fun _ _ cmd inp => ∀ x ∈ answers cmd inp, ans x.1 x.2.jobId x.2.groupId

instance (reg : Registry) [∀ job j g, Decidable (ans job j g)] (c : State) (l : Label) :
    Decidable (Answers ans reg c l) :=
  instDecidableOnCalls reg (fun _ _ cmd inp => ∀ x ∈ answers cmd inp, ans x.1 x.2.jobId x.2.groupId) c l

/-- Nothing is asked of the answers. -/
theorem answers_true (reg : Registry) (c : State) (l : Label) : Answers (fun _ _ _ => True) reg c l := by
  cases l with
  | run i inp =>
    simp only [Answers, onCalls]
    split
    · exact fun _ _ => trivial
    · trivial
  | _ => trivial

end

section
variable {reg : Registry} {ans : Job → JobId → GroupId → Prop} {E : List (JobId × GroupId)} {cmd : Cmd}
  {inp : Input} {s : Store}

theorem Identified.frame (hI : Identified E s) {s' : Store} (hh : ∀ j, Known E j → Genuine E j (s'.jobs j))
    (hq : SameQueues s s') : Identified E s' where
  hash := hh
  groupJobs := by rw [hq.groupJobs]; exact hI.groupJobs
  ready := by rw [hq.ready]; exact hI.ready
  nonReady := by rw [hq.nonReady]; exact hI.nonReady
  inFlight := by rw [hq.inFlight]; exact hI.inFlight
  deadLetters := by rw [hq.deadLetters]; exact hI.deadLetters

theorem mem_expired {j : JobId} {now batch : Nat} (h : j ∈ s.inFlightQueue.rangeByScore now batch) :
    j ∈ s.inFlightQueue := Core.ZSet.mem_of_mem_rangeByScore h

theorem Identified.arrivals (hI : Identified E s) (hw : Wanted E cmd) :
    ∀ j ∈ arrivals reg inp s cmd, Known E j := by
  intro j hj
  cases cmd with
  | readyQueuePush k =>
    simp only [L4.arrivals] at hj
    split at hj
    · exact List.mem_singleton.mp hj ▸ hw
    · cases hj
  | moveToReady => exact hI.nonReady j (Core.ZSet.mem_of_mem_rangeByScore hj)
  | recoverOrphans => exact hI.inFlight j (mem_expired ((L2.mem_requeued _).mp hj).1)
  | readyAppend k => exact List.mem_singleton.mp hj ▸ hw
  | _ => cases hj

theorem Identified.ready_exec (hI : Identified E s) (hw : Wanted E cmd) :
    ∀ j ∈ (exec reg cmd inp s).1.readyQueue, Known E j := by
  intro j hj
  rcases ready_cases reg cmd inp s with he | ⟨k, -, he⟩
  · rw [he] at hj
    rcases List.mem_append.mp hj with hj | hj
    · exact hI.ready j hj
    · exact hI.arrivals hw j hj
  · exact hI.ready j (he ▸ List.mem_cons_of_mem k hj)

theorem Identified.nonReady_exec (hI : Identified E s) (hw : Wanted E cmd) :
    ∀ j ∈ (exec reg cmd inp s).1.nonReadyQueue, Known E j := by
  intro j hj
  by_cases hp : parks cmd = true
  · cases cmd with
    | moveToReady =>
      obtain ⟨_, _, he⟩ := @moveToReady_frame reg inp s
      rw [he] at hj
      exact hI.nonReady j (Core.ZSet.mem_foldl_zrem.mp hj).1
    | congestionBackoff k g =>
      rcases Core.ZSet.mem_zadd.mp hj with rfl | hj
      · exact hw
      · exact hI.nonReady j hj
    | nonReadyAdd k =>
      rcases Core.ZSet.mem_zadd.mp hj with rfl | hj
      · exact hw
      · exact hI.nonReady j hj
    | _ => cases hp
  · rw [nonReady_frame (eq_false_of_ne_true hp)] at hj
    exact hI.nonReady j hj

theorem Identified.inFlight_exec (hI : Identified E s) :
    ∀ j ∈ (exec reg cmd inp s).1.inFlightQueue, Known E j := by
  intro j hj
  by_cases hf : flights cmd = true
  · cases cmd with
    | reliableDequeue w i n g =>
      simp only [exec, L2.reliableDequeue] at hj
      split at hj
      · exact hI.inFlight j hj
      · rename_i k rest hr
        rcases Core.ZSet.mem_zadd.mp hj with rfl | hj
        · exact hI.ready j (hr ▸ List.mem_cons_self)
        · exact hI.inFlight j hj
    | reliableAck k => exact hI.inFlight j (Core.ZSet.mem_zrem.mp hj).1
    | extendDeadline k =>
      simp only [exec, L2.extendDeadline] at hj
      split at hj
      · rename_i hm
        rcases Core.ZSet.mem_zadd.mp hj with rfl | hj
        · exact hI.inFlight j hm
        · exact hI.inFlight j hj
      · exact hI.inFlight j hj
    | recoverOrphans =>
      obtain ⟨dead, jobs, he, -⟩ := L2.recoverOrphans_spec inp.now
        reg.config.reliableQueue.maxRetryCount reg.config.reliableQueue.orphanRecoveryBatchSize s
      simp only [exec, he] at hj
      exact hI.inFlight j (Core.ZSet.mem_foldl_zrem.mp hj).1
    | _ => cases hf
  · rw [(flight_frame (eq_false_of_ne_true hf)).1] at hj
    exact hI.inFlight j hj

theorem Identified.deadLetters_exec (hI : Identified E s) (hw : Wanted E cmd) :
    ∀ e ∈ (exec reg cmd inp s).1.deadLetterQueue, Known E e.jobId := by
  intro e he
  by_cases hb : buries cmd = true
  · cases cmd with
    | recoverOrphans =>
      obtain ⟨dead, jobs, hs, -, hd, -⟩ := L2.recoverOrphans_spec inp.now
        reg.config.reliableQueue.maxRetryCount reg.config.reliableQueue.orphanRecoveryBatchSize s
      simp only [exec, hs] at he
      rcases List.mem_append.mp he with he | he
      · exact hI.deadLetters e he
      · have : (e.jobId, e.groupId) ∈ dead.map fun e => (e.jobId, e.groupId) := List.mem_map_of_mem he
        rw [hd] at this
        exact hI.inFlight _ (mem_expired ((L2.mem_deadLettered _).mp this).1)
    | deadLetter j g n m =>
      rcases List.mem_append.mp he with he | he
      · exact hI.deadLetters e he
      · rw [List.mem_singleton.mp he]
        exact hw
    | dlqAppend e' =>
      rcases List.mem_append.mp he with he | he
      · exact hI.deadLetters e he
      · exact List.mem_singleton.mp he ▸ hw
    | dlqPopHead => exact hI.deadLetters e (List.mem_of_mem_tail he)
    | dlqDelete => cases he
    | _ => cases hb
  · rw [deadLetters_frame (eq_false_of_ne_true hb)] at he
    exact hI.deadLetters e he

theorem Identified.groupJobs_exec (hI : Identified E s) :
    ∀ g, ∀ j ∈ (exec reg cmd inp s).1.groupJobs g, (j, g) ∈ (enqueues cmd).toList ++ E := by
  intro g j hj
  by_cases hd : cmd = .dequeue
  · subst hd
    rcases L2.dequeue_cases Core.binary64 reg.config.fairQueue.alpha inp.now s with ⟨q, he⟩ | ⟨g', j', rest, q, hl, he⟩
    · simp only [exec, he] at hj
      exact hI.groupJobs g j hj
    · simp only [exec, he] at hj
      rcases eq_or_ne g g' with rfl | hne
      · rw [Function.update_self] at hj
        exact hI.groupJobs g j (hl ▸ List.mem_cons_of_mem _ hj)
      · rw [Function.update_of_ne hne] at hj
        exact hI.groupJobs g j hj
  · cases hq : enqueues cmd with
    | none =>
      rw [groupJobs_frame hq hd] at hj
      exact hI.groupJobs g j hj
    | some x =>
      cases cmd with
      | enqueue req =>
        cases hq
        rcases eq_or_ne g req.jobGroupId with rfl | hne
        · simp only [exec, L2.enqueue, Function.update_self, List.mem_append, List.mem_singleton] at hj
          rcases hj with hj | rfl
          · exact List.mem_cons_of_mem _ (hI.groupJobs _ j hj)
          · exact List.mem_cons_self
        · simp only [exec, L2.enqueue, Function.update_of_ne hne] at hj
          exact List.mem_cons_of_mem _ (hI.groupJobs g j hj)
      | _ => cases hq

theorem Identified.hash_exec (hI : Identified E s) :
    ∀ j, Known ((enqueues cmd).toList ++ E) j →
      Genuine ((enqueues cmd).toList ++ E) j ((exec reg cmd inp s).1.jobs j) := by
  intro j hj
  cases hq : enqueues cmd with
  | none =>
    rw [hq] at hj
    exact (hI.hash j hj).sameJob (jobs_sameJob hq j)
  | some x =>
    cases cmd with
    | enqueue req =>
      cases hq
      rcases eq_or_ne j req.jobId with rfl | hne
      · simp only [exec, L2.enqueue, Function.update_self]
        exact ⟨rfl, rfl, req.jobGroupId, rfl, List.mem_cons_self⟩
      · simp only [exec, L2.enqueue, Function.update_of_ne hne]
        obtain ⟨g, hg⟩ := hj
        rcases List.mem_cons.mp hg with he | hg
        · cases he
          exact absurd rfl hne
        · exact (hI.hash j ⟨g, hg⟩).mono (List.subset_cons_self _ _)
    | _ => cases hq

/-- A call that gets what it wants keeps the store identified. -/
theorem Identified.exec (hI : Identified E s) (hw : Wanted E cmd) :
    Identified ((enqueues cmd).toList ++ E) (exec reg cmd inp s).1 := by
  have hsub : E ⊆ (enqueues cmd).toList ++ E := List.subset_append_right _ _
  exact ⟨hI.hash_exec, hI.groupJobs_exec, fun j hj => (hI.ready_exec hw j hj).mono hsub,
    fun j hj => (hI.nonReady_exec hw j hj).mono hsub, fun j hj => (hI.inFlight_exec j hj).mono hsub,
    fun e he => (hI.deadLetters_exec hw e he).mono hsub⟩

/-- The replies of an identified store tell the truth. -/
theorem truthful_exec (hI : Identified E s) (ha : ∀ x ∈ answers cmd inp, ans x.1 x.2.jobId x.2.groupId) :
    Truthful ans E cmd (exec reg cmd inp s).2 := by
  cases cmd with
  | dequeue =>
    rcases L2.dequeue_cases Core.binary64 reg.config.fairQueue.alpha inp.now s with ⟨q, he⟩ | ⟨g, j, rest, q, hl, he⟩
    · simp only [L3.exec, he]
      trivial
    · simp only [L3.exec, he]
      have hj : Known E j := ⟨g, hI.groupJobs g j (hl ▸ List.mem_cons_self)⟩
      exact ⟨j, (hI.hash j hj).sameJob ⟨rfl, rfl, rfl, rfl⟩⟩
  | reliableDequeue w i n g =>
    simp only [L3.exec, L2.reliableDequeue]
    split
    · trivial
    · rename_i j rest hr
      exact hI.ready j (hr ▸ List.mem_cons_self)
  | jobGetAll j => exact hI.hash j
  | process job =>
    obtain ⟨now, uuid, outcome, order⟩ := inp
    cases outcome with
    | none => trivial
    | some outcome =>
      cases outcome with
      | returned r => exact ha (job, r) rfl
      | threw e => trivial
  | recoverOrphans =>
    obtain ⟨dead, jobs, -, hp, -⟩ := L2.recoverOrphans_spec inp.now
      reg.config.reliableQueue.maxRetryCount reg.config.reliableQueue.orphanRecoveryBatchSize s
    intro x hx
    simp only [L3.exec, hp] at hx
    exact hI.inFlight _ (mem_expired ((L2.mem_deadLettered _).mp hx).1)
  | dlqRange => exact hI.deadLetters
  | dlqPopHead =>
    simp only [L3.exec]
    cases hd : s.deadLetterQueue with
    | nil => trivial
    | cons e es => exact hI.deadLetters e (hd ▸ List.mem_cons_self)
  | _ => trivial

end

/-! ## Activities -/

section
variable (ans : Job → JobId → GroupId → Prop) (E : List (JobId × GroupId))

/-- The job object of the known job `j`. -/
def Held (j : JobId) (job : Job) : Prop := job.id = j ∧ (j, job.groupId) ∈ E

/-- The ids in a processor's answer for some known job. -/
def Answered (j : JobId) (g : GroupId) : Prop := ∃ job : Job, (job.id, job.groupId) ∈ E ∧ ans job j g

def SoundFetch : FetchPc → Prop
  | .admission _ p => Known E p.jobId
  | _ => True

def SoundTick : TickPc → Prop
  | .dequeue _ => True
  | .loadJob j => Known E j
  | .cleanUp j => Known E j ∧ j = ""
  | .startTime j job => Held E j job
  | .process j job _ => Held E j job
  | .heartbeat j job _ => Held E j job
  | .endTime j job _ r => Held E j job ∧ ans job r.jobId r.groupId
  | .ack j job r => Held E j job ∧ ans job r.jobId r.groupId
  | .nack j job _ => Held E j job
  | .nackCaught j job _ => Held E j job
  | .complete (.record r) => Answered ans E r.jobId r.groupId
  | .complete (.ack j g) => Answered ans E j g
  | .complete _ => True
  | .failed (.requeue p) => Known E p.jobId
  | .failed (.incrRetryCount job) => (job.id, job.groupId) ∈ E
  | .failed (.setPending job) => (job.id, job.groupId) ∈ E
  | .failed (.deadLetter job _) => (job.id, job.groupId) ∈ E
  | .failed (.setFailed job _) => (job.id, job.groupId) ∈ E
  | .failed (.record job _) => (job.id, job.groupId) ∈ E
  | .failed (.ack job) => (job.id, job.groupId) ∈ E

def SoundRecovery : RecoveryPc → Prop
  | .script => True
  | .record j _ pairs => Known E j ∧ ∀ x ∈ pairs, Known E x.1
  | .ack j _ pairs => Known E j ∧ ∀ x ∈ pairs, Known E x.1
  | .finalize _ pairs => ∀ x ∈ pairs, Known E x.1

def SoundRemove : RemovePc → Prop
  | .range _ => True
  | .delete es => ∀ e ∈ es, Known E e.jobId
  | .append e es => Known E e.jobId ∧ ∀ e ∈ es, Known E e.jobId

def SoundDeadLetter : DeadLetterPc → Prop
  | .retryReset e => Known E e.jobId
  | .retryPending e => Known E e.jobId
  | .retryPush e => Known E e.jobId
  | .allReset e _ => Known E e.jobId
  | .allPending e _ => Known E e.jobId
  | .allPush e _ => Known E e.jobId
  | .retryRemove p => SoundRemove E p
  | .purgeRemove p => SoundRemove E p
  | .cleanupRemove p _ _ => SoundRemove E p
  | _ => True

/-- What an activity carries is known. -/
def Sound : Proc → Prop
  | .fetch p => SoundFetch E p
  | .tick p => SoundTick ans E p
  | .recovery p => SoundRecovery E p
  | .deadLetter p => SoundDeadLetter E p
  | _ => True

/-- The triple of an await that keeps `P`. -/
def Keeps {Pc α : Type} (P : Pc → Prop) (a : Await Pc α) : Prop :=
  a.Spec (Wanted E) (fun cmd r x => Truthful ans E cmd r → x.All P) (fun _ x => x.All P)

end

section
variable {reg : Registry} {ans : Job → JobId → GroupId → Prop} {E : List (JobId × GroupId)}

/-- The triple of an awaited function, with what its caller goes on with. -/
theorem Keeps.map {A B α β : Type} {P : A → Prop} {Q : B → Prop} {a : Await A α}
    {f : Core.Next A α → Core.Next B β} (h : Keeps ans E P a) (hf : ∀ x, x.All P → (f x).All Q) :
    Keeps ans E Q (a.map f) :=
  Core.Action.Spec.map h (fun _ _ x hx ht => hf x (hx ht)) fun _ x hx => hf x hx

/-- A function that carries nothing. -/
theorem Keeps.of_spec {Pc α : Type} {a : Await Pc α}
    (h : a.Spec (Wanted E) (fun _ _ _ => True) fun _ _ => True) : Keeps ans E (fun _ => True) a := by
  have hall : ∀ x : Core.Next Pc α, x.All fun _ => True := Core.Next.all_of_forall fun _ => trivial
  cases a with
  | call c ok err => exact ⟨h.1, fun _ _ => hall _, hall _⟩
  | halt => trivial

theorem Housekeeps.keeps {Pc α : Type} {a : Await Pc α} (h : Housekeeps a) :
    Keeps ans E (fun _ => True) a := by
  refine Keeps.of_spec ?_
  cases a with
  | call c ok err =>
    refine ⟨?_, fun _ => trivial, trivial⟩
    cases c <;> first | trivial | cases h.1
  | halt => trivial

theorem keeps_add {p : AddPc} (h : Known E p.jobId) : Keeps ans E (fun p => Known E p.jobId) (p.view reg) := by
  cases p with
  | script j g => exact ⟨h, fun _ _ => trivial, h⟩
  | fixedBackoff j => exact ⟨h, fun _ _ => trivial, trivial⟩

theorem keeps_admission {p : AdmitPc} (h : Known E p.jobId) :
    Keeps ans E (fun p => Known E p.jobId) (p.view reg) := by
  cases p with
  | hasCapacity job =>
    refine ⟨trivial, fun r _ => ?_, trivial⟩
    simp only
    split
    · exact h
    · trivial
  | checkRateLimit job =>
    refine ⟨trivial, fun r _ => ?_, trivial⟩
    simp only
    split
    · exact h
    · simpa only [Core.Next.All, AdmitPc.jobId, AddPc.start_jobId] using h
  | push job =>
    refine ⟨h, fun r _ => ?_, trivial⟩
    simp only
    split <;> trivial
  | addToNonReady r p =>
    rw [AdmitPc.view]
    refine (keeps_add h).map fun x hx => ?_
    cases x with
    | goto p => exact hx
    | ret b => trivial
    | throw => trivial

theorem keeps_fetch {p : FetchPc} (h : SoundFetch E p) : Keeps ans E (SoundFetch E) (p.view reg) := by
  cases p with
  | hasCapacity n =>
    refine ⟨trivial, fun r _ => ?_, trivial⟩
    simp only
    split <;> trivial
  | dequeue n =>
    refine ⟨trivial, fun r ht => ?_, trivial⟩
    cases r with
    | none => trivial
    | some hash =>
      obtain ⟨j, hg⟩ := ht
      obtain ⟨job, hjob, hid, hm⟩ := hg.job
      simp only [hjob]
      exact ⟨job.groupId, by rw [AdmitPc.jobId, hid]; exact hm⟩
  | admission n p =>
    rw [FetchPc.view]
    refine (keeps_admission h).map fun x hx => ?_
    cases x with
    | goto p => exact hx
    | ret b =>
      simp only [FetchPc.loop]
      split
      · split <;> trivial
      · trivial
    | throw => trivial

theorem keeps_dequeue {p : DequeuePc} {f : Core.Next DequeuePc (Option (JobId × Nat)) → Core.Next TickPc Unit}
    (hf : ∀ x, (∀ j d, x = .ret (some (j, d)) → Known E j) → (f x).All (SoundTick ans E)) :
    Keeps ans E (SoundTick ans E) (p.view.map f) := by
  have hgoto : ∀ p, (f (.goto p)).All (SoundTick ans E) := fun p => hf _ (fun _ _ h => by cases h)
  have hthrow : (f .throw).All (SoundTick ans E) := hf _ (fun _ _ h => by cases h)
  have hnone : (f (.ret none)).All (SoundTick ans E) := hf _ (fun _ _ h => by cases h)
  cases p with
  | length w i =>
    refine ⟨trivial, fun r _ => ?_, hthrow⟩
    simp only
    split
    · exact hnone
    · exact hgoto _
  | peek w i =>
    refine ⟨trivial, fun r _ => ?_, hthrow⟩
    cases r <;> exact hgoto _
  | peekRetryCount w i j => exact ⟨trivial, fun _ _ => hgoto _, hthrow⟩
  | peekGroupId w i j n => exact ⟨trivial, fun _ _ => hgoto _, hthrow⟩
  | script w i n g =>
    refine ⟨trivial, fun r ht => hf _ fun j d he => ?_, hthrow⟩
    cases he
    exact ht

theorem keeps_complete {p : CompletePc} (h : SoundTick ans E (.complete p)) :
    Keeps ans E (fun p => SoundTick ans E (.complete p)) (p.view reg) := by
  cases p with
  | record r => exact ⟨trivial, fun _ _ => h, trivial⟩
  | ack j g =>
    refine ⟨trivial, fun r _ => ?_, trivial⟩
    simp only
    split <;> trivial
  | resetGroupStats g => exact ⟨trivial, fun _ _ => trivial, trivial⟩
  | finalize p =>
    rw [CompletePc.view]
    refine (finalize_calls reg p).keeps.map fun x _ => ?_
    cases x <;> trivial

theorem keeps_failed {p : FailedPc} (h : SoundTick ans E (.failed p)) :
    Keeps ans E (fun p => SoundTick ans E (.failed p)) (p.view reg) := by
  cases p with
  | incrRetryCount job => exact ⟨trivial, fun _ _ => h, trivial⟩
  | setPending job =>
    refine ⟨trivial, fun _ _ => ?_, trivial⟩
    simp only [Core.Next.All, SoundTick, AddPc.start_jobId]
    exact ⟨job.groupId, h⟩
  | requeue p =>
    rw [FailedPc.view]
    refine (keeps_add h).map fun x hx => ?_
    cases x with
    | goto p => exact hx
    | ret b => trivial
    | throw => trivial
  | deadLetter job e => exact ⟨⟨job.groupId, h⟩, fun _ _ => h, trivial⟩
  | setFailed job e => exact ⟨trivial, fun _ _ => h, trivial⟩
  | record job e => exact ⟨trivial, fun _ _ => h, trivial⟩
  | ack job => exact ⟨trivial, fun _ _ => trivial, trivial⟩

theorem sound_failed_start {job : Job} {e : String} (h : (job.id, job.groupId) ∈ E) :
    SoundTick ans E (.failed (.start reg job e)) := by
  unfold FailedPc.start
  split
  · exact h
  · exact h

theorem keeps_tick {p : TickPc} (h : SoundTick ans E p) : Keeps ans E (SoundTick ans E) (p.view reg) := by
  cases p with
  | dequeue p =>
    rw [TickPc.view]
    refine keeps_dequeue fun x hx => ?_
    cases x with
    | goto p => trivial
    | ret r =>
      cases r with
      | none => trivial
      | some x => exact hx x.1 x.2 rfl
    | throw => trivial
  | loadJob j =>
    refine ⟨trivial, fun hash ht => ?_, trivial⟩
    have hg := ht h
    obtain ⟨job, hjob, hid, hm⟩ := hg.job
    simp only [TickPc.loaded, hjob]
    split
    · rename_i he
      exact ⟨h, by simpa [hg.1] using he⟩
    · exact ⟨hid, hm⟩
  | cleanUp j => exact ⟨trivial, fun _ _ => trivial, trivial⟩
  | startTime j job =>
    refine ⟨trivial, fun r _ => ?_, trivial⟩
    simp only
    split
    · exact h
    · exact h
  | process j job t =>
    refine ⟨trivial, fun r ht => ?_, trivial⟩
    cases r with
    | none => exact h
    | some outcome =>
      cases outcome with
      | returned r => exact ⟨h, ht⟩
      | threw e => exact h
  | heartbeat j job t => exact ⟨trivial, fun _ _ => h, h⟩
  | endTime j job t r =>
    refine ⟨trivial, fun now _ => ?_, trivial⟩
    simp only [Core.Next.All, TickPc.settle]
    split
    · exact h
    · split
      · split
        · exact h.1
        · exact h
      · exact h
  | ack j job r =>
    refine ⟨trivial, fun _ _ => ⟨job, ?_, h.2⟩, h.1⟩
    rw [h.1.1]
    exact h.1.2
  | nack j job e =>
    refine ⟨trivial, fun _ _ => sound_failed_start ?_, h⟩
    rw [h.1]
    exact h.2
  | nackCaught j job e =>
    refine ⟨trivial, fun _ _ => sound_failed_start ?_, trivial⟩
    rw [h.1]
    exact h.2
  | complete p =>
    rw [TickPc.view]
    refine (keeps_complete h).map fun x hx => ?_
    cases x with
    | goto p => exact hx
    | ret b => trivial
    | throw => trivial
  | failed p =>
    rw [TickPc.view]
    refine (keeps_failed h).map fun x hx => ?_
    cases x with
    | goto p => exact hx
    | ret b => trivial
    | throw => trivial

theorem sound_recovery_loop {pairs : List (JobId × GroupId)} (h : ∀ x ∈ pairs, Known E x.1) :
    (RecoveryPc.loop pairs).All (SoundRecovery E) := by
  cases pairs with
  | nil => trivial
  | cons x pairs => exact ⟨h x List.mem_cons_self, fun y hy => h y (List.mem_cons_of_mem _ hy)⟩

theorem keeps_recovery {p : RecoveryPc} (h : SoundRecovery E p) :
    Keeps ans E (SoundRecovery E) (p.view reg) := by
  cases p with
  | script => exact ⟨trivial, fun r ht => sound_recovery_loop ht, trivial⟩
  | record j g pairs => exact ⟨trivial, fun _ _ => h, trivial⟩
  | ack j g pairs =>
    refine ⟨trivial, fun r _ => ?_, trivial⟩
    simp only
    split
    · exact h.2
    · exact sound_recovery_loop h.2
  | finalize p pairs =>
    rw [RecoveryPc.view]
    refine (finalize_calls reg p).keeps.map fun x _ => ?_
    cases x with
    | goto p => exact h
    | ret b => exact sound_recovery_loop h
    | throw => trivial

theorem sound_remove_loop {es : List DeadLetterEntry} (h : ∀ e ∈ es, Known E e.jobId) :
    (RemovePc.loop es).All (SoundRemove E) := by
  cases es with
  | nil => trivial
  | cons e es => exact ⟨h e List.mem_cons_self, fun y hy => h y (List.mem_cons_of_mem _ hy)⟩

theorem keeps_remove {p : RemovePc} (h : SoundRemove E p) : Keeps ans E (SoundRemove E) p.view := by
  cases p with
  | range e => exact ⟨trivial, fun all ht x hx => ht x (List.mem_of_mem_filter hx), trivial⟩
  | delete es => exact ⟨trivial, fun _ _ => sound_remove_loop h, trivial⟩
  | append e es => exact ⟨h.1, fun _ _ => sound_remove_loop h.2, trivial⟩

theorem sound_cleanup_loop (n : Nat) (es : List DeadLetterEntry) :
    (DeadLetterPc.cleanupLoop n es).All (SoundDeadLetter E) := by
  cases es <;> trivial

theorem keeps_deadLetter {p : DeadLetterPc} (h : SoundDeadLetter E p) :
    Keeps ans E (SoundDeadLetter E) p.view := by
  cases p with
  | retryList j =>
    refine ⟨trivial, fun es ht => ?_, trivial⟩
    simp only
    split
    · rename_i e he
      exact ht e (List.mem_of_find?_eq_some he)
    · trivial
  | retryReset e => exact ⟨trivial, fun _ _ => h, trivial⟩
  | retryPending e => exact ⟨trivial, fun _ _ => h, trivial⟩
  | retryPush e => exact ⟨h, fun _ _ => trivial, trivial⟩
  | allPop n =>
    refine ⟨trivial, fun r ht => ?_, trivial⟩
    cases r with
    | none => trivial
    | some e => exact ht
  | allReset e n => exact ⟨trivial, fun _ _ => h, trivial⟩
  | allPending e n => exact ⟨trivial, fun _ _ => h, trivial⟩
  | allPush e n => exact ⟨h, fun _ _ => trivial, trivial⟩
  | purgeList j =>
    refine ⟨trivial, fun es _ => ?_, trivial⟩
    simp only
    split <;> trivial
  | cleanupClock n => exact ⟨trivial, fun _ _ => trivial, trivial⟩
  | cleanupList n => exact ⟨trivial, fun _ _ => sound_cleanup_loop _ _, trivial⟩
  | retryRemove p =>
    rw [DeadLetterPc.view]
    refine (keeps_remove h).map fun x hx => ?_
    cases x with
    | goto p => exact hx
    | ret b => trivial
    | throw => trivial
  | purgeRemove p =>
    rw [DeadLetterPc.view]
    refine (keeps_remove h).map fun x hx => ?_
    cases x with
    | goto p => exact hx
    | ret b => trivial
    | throw => trivial
  | cleanupRemove p n es =>
    rw [DeadLetterPc.view]
    refine (keeps_remove h).map fun x hx => ?_
    cases x with
    | goto p => exact hx
    | ret b => exact sound_cleanup_loop _ _
    | throw => trivial

/-- The triple of every await of the pipeline. -/
theorem sound_spec {p : Proc} (h : Sound ans E p) :
    (p.view reg).Spec (Wanted E) (fun cmd r p' => Truthful ans E cmd r → Sound ans E p')
      fun _ p' => Sound ans E p' := by
  have lift : ∀ {Pc α : Type} {P : Pc → Prop} {f : Pc → Proc} {a : Await Pc α}, Keeps ans E P a →
      (∀ p, P p → Sound ans E (f p)) → (a.map (resume f)).Spec (Wanted E)
        (fun cmd r p' => Truthful ans E cmd r → Sound ans E p') fun _ p' => Sound ans E p' := by
    intro Pc α P f a ha hf
    have hres : ∀ x : Core.Next Pc α, x.All P → Sound ans E (resume f x) := by
      intro x hx
      cases x with
      | goto p => exact hf p hx
      | ret b => trivial
      | throw => trivial
    exact Core.Action.Spec.map ha (fun _ _ x hx ht => hres x (hx ht)) fun _ x hx => hres x hx
  cases p with
  | submit p =>
    refine lift (P := fun _ => True) (.of_spec ?_) fun _ _ => trivial
    cases p <;> exact ⟨trivial, fun _ => trivial, trivial⟩
  | fetch p => exact lift (keeps_fetch h) fun _ h => h
  | dispatch p =>
    refine lift (P := fun _ => True) (.of_spec ?_) fun _ _ => trivial
    cases p <;> exact ⟨trivial, fun _ => trivial, trivial⟩
  | tick p => exact lift (keeps_tick h) fun _ h => h
  | recovery p => exact lift (keeps_recovery h) fun _ h => h
  | watch p => exact lift (watch_calls reg p).keeps fun _ _ => trivial
  | finalize p => exact lift (finalize_calls reg p).keeps fun _ _ => trivial
  | deadLetter p => exact lift (keeps_deadLetter h) fun _ h => h
  | call p =>
    refine lift (P := fun _ => True) (.of_spec ?_) fun _ _ => trivial
    cases p <;> exact ⟨trivial, fun _ => trivial, trivial⟩
  | done => trivial

/-- Later enqueues make nothing unknown. -/
theorem Sound.mono {E' : List (JobId × GroupId)} (hE : E ⊆ E') {p : Proc} (h : Sound ans E p) :
    Sound ans E' p := by
  have hk : ∀ {j}, Known E j → Known E' j := fun h => h.mono hE
  have hpairs : ∀ {ps : List (JobId × GroupId)}, (∀ x ∈ ps, Known E x.1) → ∀ x ∈ ps, Known E' x.1 :=
    fun h x hx => hk (h x hx)
  have hes : ∀ {es : List DeadLetterEntry}, (∀ e ∈ es, Known E e.jobId) → ∀ e ∈ es, Known E' e.jobId :=
    fun h e he => hk (h e he)
  have hremove : ∀ {p : RemovePc}, SoundRemove E p → SoundRemove E' p := by
    intro p h
    cases p with
    | range e => trivial
    | delete es => exact hes h
    | append e es => exact ⟨hk h.1, hes h.2⟩
  cases p with
  | fetch p =>
    cases p with
    | admission n p => exact hk h
    | hasCapacity | dequeue => trivial
  | tick p =>
    cases p with
    | dequeue p => trivial
    | loadJob j => exact hk h
    | cleanUp j => exact ⟨hk h.1, h.2⟩
    | startTime | process | heartbeat | nack | nackCaught => exact ⟨h.1, hE h.2⟩
    | endTime | ack => exact ⟨⟨h.1.1, hE h.1.2⟩, h.2⟩
    | complete p =>
      cases p with
      | record r =>
        obtain ⟨job, hj, ha⟩ := h
        exact ⟨job, hE hj, ha⟩
      | ack j g =>
        obtain ⟨job, hj, ha⟩ := h
        exact ⟨job, hE hj, ha⟩
      | resetGroupStats | finalize => trivial
    | failed p =>
      cases p with
      | requeue p => exact hk h
      | _ => exact hE h
  | recovery p =>
    cases p with
    | script => trivial
    | record | ack => exact ⟨hk h.1, hpairs h.2⟩
    | finalize => exact hpairs h
  | deadLetter p =>
    cases p with
    | retryRemove | purgeRemove | cleanupRemove => exact hremove h
    | retryReset | retryPending | retryPush | allReset | allPending | allPush => exact hk h
    | _ => trivial
  | _ => trivial

theorem sound_of_started {p : Proc} (h : Started p) : Sound ans E p := by
  cases h <;> trivial

/-- The outline: in every run whose processors meet `ans`, the store is
identified and every activity sound. -/
theorem identity_outline :
    Core.Program.Outline (pipeline reg) (Answers ans reg) (fun w log => Identified (enqueued log) w)
      (fun _ log _ p => Sound ans (enqueued log) p) where
  run := by
    intro c i inp p cmd ok err hI hA hp hv hH
    have hs := @sound_spec reg _ _ _ (hA i p hp)
    rw [show p.view reg = .call cmd ok err from hv] at hs
    have hsub : enqueued c.log ⊆ enqueued ((pipeline reg).ran c i cmd inp ok).log := fun x hx => mem_enqueued_cons hx
    refine ⟨?_, ?_, fun k q _ hk => (hA k q hk).mono hsub⟩
    · simp only [Core.Program.ran, enqueued_cons]
      exact hI.exec hs.1
    · exact (hs.2.1 _ (truthful_exec hI (onCalls_run hH hp hv))).mono hsub
  reject := by
    intro c i p cmd ok err hI hA hp hv hH
    have hs := @sound_spec reg _ _ _ hA
    rw [show p.view reg = .call cmd ok err from hv] at hs
    exact hs.2.2
  dead := fun _ _ _ => trivial
  spawn := fun _ _ => sound_of_started (Task.started reg _)
  env := by
    intro w log e hI
    refine ⟨?_, fun _ _ h => h⟩
    cases e <;> exact hI.frame hI.hash ⟨rfl, rfl, rfl, rfl, rfl, rfl⟩

theorem identity_reachable {H : State → Label → Prop} (hH : ∀ c l, H c l → Answers ans reg c l) {c : State}
    (h : ((runs reg).restrict H).Reachable c) :
    Identified (enqueued c.log) c.world ∧ ∀ (i : Nat) p, c.procs[i]? = some p → Sound ans (enqueued c.log) p := by
  have h₀ : Core.Program.Holds (fun w log => Identified (enqueued log) w)
      (fun _ log _ p => Sound ans (enqueued log) p) initialState :=
    ⟨identified_empty, fun i p hp => by simp [initialState] at hp⟩
  exact (identity_outline.inductive h₀).reachable c (h.weaken hH)

end
end NestPlayground.L4
