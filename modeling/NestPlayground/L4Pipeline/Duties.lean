import NestPlayground.L4Pipeline.Identity

/-!
# Who has a job in hand

Between two calls a job may be in no queue: it is with the activity that took
it out and has to put it somewhere, or to record it. `duties p` is what the
activity `p` still has to do for jobs, and `Moves` is all that one executed
call does to the duties of its caller (`duties_spec`); the properties of the
pipeline count duties and never look at a program counter again.

Processors answer with the ids of their own job here (`Own`).
-/
namespace NestPlayground.L4
open L1 L3

/-- The answer of a processor names the job it was given. -/
def Own (job : Job) (j : JobId) (g : GroupId) : Prop := j = job.id ∧ g = job.groupId

instance (job : Job) (j : JobId) (g : GroupId) : Decidable (Own job j g) :=
  inferInstanceAs (Decidable (_ ∧ _))

theorem Answered.mem {E : List (JobId × GroupId)} {j : JobId} {g : GroupId} (h : Answered Own E j g) :
    (j, g) ∈ E := by
  obtain ⟨job, hm, rfl, rfl⟩ := h
  exact hm

inductive Duty where
  /-- popped from its group, to be queued -/
  | queue (jobId : JobId)
  /-- handed out, in flight -/
  | work (jobId : JobId)
  /-- nacked, to wait in the non-ready queue -/
  | park (jobId : JobId)
  /-- nacked at the retry limit, to be dead-lettered -/
  | bury (jobId : JobId) (groupId : GroupId)
  /-- acked, to be recorded -/
  | report (jobId : JobId) (groupId : GroupId)
  /-- dead-lettered, to be recorded -/
  | record (jobId : JobId) (groupId : GroupId)
  /-- recorded, to be counted as done -/
  | settle (jobId : JobId) (groupId : GroupId)
  deriving DecidableEq, Repr

def pairDuties (pairs : List (JobId × GroupId)) : List Duty := pairs.map fun x => .record x.1 x.2

def fetchDuties : FetchPc → List Duty
  | .admission _ p => [.queue p.jobId]
  | _ => []

def completeDuties : CompletePc → List Duty
  | .record r => [.report r.jobId r.groupId]
  | .ack j g => [.settle j g]
  | _ => []

def failedDuties : FailedPc → List Duty
  | .incrRetryCount job => [.park job.id]
  | .setPending job => [.park job.id]
  | .requeue p => [.park p.jobId]
  | .deadLetter job _ => [.bury job.id job.groupId]
  | .setFailed job _ => [.record job.id job.groupId]
  | .record job _ => [.record job.id job.groupId]
  | .ack job => [.settle job.id job.groupId]

def tickDuties : TickPc → List Duty
  | .dequeue _ => []
  | .loadJob j => [.work j]
  | .cleanUp j => [.work j]
  | .startTime j _ => [.work j]
  | .process j _ _ => [.work j]
  | .heartbeat j _ _ => [.work j]
  | .endTime j _ _ _ => [.work j]
  | .ack j _ _ => [.work j]
  | .nack j _ _ => [.work j]
  | .nackCaught j _ _ => [.work j]
  | .complete p => completeDuties p
  | .failed p => failedDuties p

def recoveryDuties : RecoveryPc → List Duty
  | .script => []
  | .record j g pairs => .record j g :: pairDuties pairs
  | .ack j g pairs => .settle j g :: pairDuties pairs
  | .finalize _ pairs => pairDuties pairs

def duties : Proc → List Duty
  | .fetch p => fetchDuties p
  | .tick p => tickDuties p
  | .recovery p => recoveryDuties p
  | _ => []

/-- The calls by which a job changes hands. -/
def carries : Cmd → Bool
  | .dequeue | .readyQueuePush _ | .congestionBackoff _ _ | .nonReadyAdd _ => true
  | .reliableDequeue _ _ _ _ | .reliableAck _ | .recoverOrphans | .deadLetter _ _ _ _ => true
  | .recordJobResult _ | .ack _ _ => true
  | _ => false

/-- What a call does to the duties of its caller. -/
inductive Moves (reg : Registry) (E : List (JobId × GroupId)) :
    (cmd : Cmd) → Reply cmd → List Duty → List Duty → Prop where
  | idle {cmd r ds} (h : carries cmd = false) : Moves reg E cmd r ds ds
  -- `FetcherService.fetchCycle`
  | nothing : Moves reg E .dequeue none [] []
  | fetched {hash j} (h : hash.id = some j) : Moves reg E .dequeue (some hash) [] [.queue j]
  | refused {n j} (h : reg.config.backpressure.readyQueueMaxSize ≤ n) :
      Moves reg E .readyLength n [.queue j] []
  | pushed {j b} : Moves reg E (.readyQueuePush j) b [.queue j] []
  | backedOff {j g r} : Moves reg E (.congestionBackoff j g) r [.queue j] []
  | backedOffFixed {j} : Moves reg E (.nonReadyAdd j) () [.queue j] []
  -- `Worker.tick`
  | idling {w i n g} : Moves reg E (.reliableDequeue w i n g) none [] []
  | delivered {w i n g j d} : Moves reg E (.reliableDequeue w i n g) (some (j, d)) [] [.work j]
  | cleaned {b} : Moves reg E (.reliableAck "") b [.work ""] []
  | acked {j g b} (h : (j, g) ∈ E) : Moves reg E (.reliableAck j) b [.work j] [.report j g]
  | nacked {j b} : Moves reg E (.reliableAck j) b [.work j] [.park j]
  | nackedOut {j g b} (h : (j, g) ∈ E) : Moves reg E (.reliableAck j) b [.work j] [.bury j g]
  | parked {j g r} : Moves reg E (.congestionBackoff j g) r [.park j] []
  | parkedFixed {j} : Moves reg E (.nonReadyAdd j) () [.park j] []
  | buried {j g n e} : Moves reg E (.deadLetter j g n e) () [.bury j g] [.record j g]
  | reported {r x} (h : (r.jobId, r.groupId) ∈ E) :
      Moves reg E (.recordJobResult r) x [.report r.jobId r.groupId] [.settle r.jobId r.groupId]
  -- also `OrphanRecoveryService.runOnce`
  | recovered {r} : Moves reg E .recoverOrphans r [] (pairDuties r.pairs)
  | recorded {r x ds} :
      Moves reg E (.recordJobResult r) x (.record r.jobId r.groupId :: ds) (.settle r.jobId r.groupId :: ds)
  | settled {j g b ds} : Moves reg E (.ack j g) b (.settle j g :: ds) ds
  -- a failed finalization ends the loop over the dead-lettered orphans
  | abandoned {cmd r pairs} (h : carries cmd = false) : Moves reg E cmd r (pairDuties pairs) []

def nextDuties {Pc α : Type} (f : Pc → List Duty) : Core.Next Pc α → List Duty
  | .goto p => f p
  | .ret _ => []
  | .throw => []

/-- After a rejected call the duties are kept or dropped; a rejected
`congestion-backoff.lua` keeps them. -/
def Drops (cmd : Cmd) (ds ds' : List Duty) : Prop := ds' = ds ∨ ds' = [] ∧ ∀ j g, cmd ≠ .congestionBackoff j g

section
variable {reg : Registry} {E : List (JobId × GroupId)}

/-- The triple for the duties `ds` of an await. -/
def Moving {Pc α : Type} (reg : Registry) (E : List (JobId × GroupId)) (ds : List Duty) (f : Pc → List Duty)
    (a : Await Pc α) : Prop :=
  a.Spec (fun _ => True) (fun cmd r x => Truthful Own E cmd r → Moves reg E cmd r ds (nextDuties f x))
    fun cmd x => Drops cmd ds (nextDuties f x)

theorem Moving.map {A B α β : Type} {ds : List Duty} {f : A → List Duty} {f' : B → List Duty} {a : Await A α}
    {g : Core.Next A α → Core.Next B β} (h : Moving reg E ds f a)
    (hg : ∀ x, nextDuties f' (g x) = nextDuties f x) : Moving reg E ds f' (a.map g) :=
  Core.Action.Spec.map h (fun _ _ x hx ht => by rw [hg]; exact hx ht) fun _ x hx => by rw [hg]; exact hx

theorem carries_of_housekeeping {cmd : Cmd} (h : housekeeping cmd = true) : carries cmd = false := by
  cases cmd <;> first | rfl | cases h

/-- Housekeeping keeps the duties, unless it ends the loop over dead-lettered orphans. -/
theorem Housekeeps.moving {A B α β : Type} {pairs : List (JobId × GroupId)} {f : B → List Duty} {a : Await A α}
    {g : Core.Next A α → Core.Next B β} (h : Housekeeps a)
    (hg : ∀ x, nextDuties f (g x) = pairDuties pairs ∨ nextDuties f (g x) = []) :
    Moving reg E (pairDuties pairs) f (a.map g) := by
  cases a with
  | call c ok err =>
    have hc := carries_of_housekeeping h.1
    refine ⟨trivial, fun r _ => ?_, ?_⟩
    · rcases hg (ok r) with he | he
      · rw [he]
        exact .idle hc
      · rw [he]
        exact .abandoned hc
    · rcases hg err with he | he
      · exact .inl he
      · refine .inr ⟨he, fun j g hb => ?_⟩
        cases hb
        cases hc
  | halt => trivial

theorem moving_admission {p : AdmitPc} :
    Moving reg E [.queue p.jobId] (fun p => [.queue p.jobId]) (p.view reg) := by
  have hdrop : ∀ {cmd ds}, (∀ j g, cmd ≠ .congestionBackoff j g) → Drops cmd ds [] := fun h => .inr ⟨rfl, h⟩
  cases p with
  | hasCapacity job =>
    refine ⟨trivial, fun n _ => ?_, hdrop (fun _ _ h => by cases h)⟩
    simp only
    split
    · exact .idle rfl
    · rename_i h
      exact .refused (Nat.not_lt.mp h)
  | checkRateLimit job =>
    refine ⟨trivial, fun r _ => ?_, hdrop (fun _ _ h => by cases h)⟩
    simp only
    split
    · exact .idle rfl
    · simp only [nextDuties, AdmitPc.jobId, AddPc.start_jobId]
      exact .idle rfl
  | push job =>
    refine ⟨trivial, fun b _ => ?_, hdrop (fun _ _ h => by cases h)⟩
    simp only
    split
    · exact .pushed
    · exact .pushed
  | addToNonReady r p =>
    cases p with
    | script j g => exact ⟨trivial, fun _ _ => .backedOff, .inl rfl⟩
    | fixedBackoff j => exact ⟨trivial, fun _ _ => .backedOffFixed, hdrop (fun _ _ h => by cases h)⟩

theorem moving_fetch {p : FetchPc} : Moving reg E (fetchDuties p) fetchDuties (p.view reg) := by
  cases p with
  | hasCapacity n =>
    refine ⟨trivial, fun r _ => ?_, .inl rfl⟩
    simp only
    split <;> exact .idle rfl
  | dequeue n =>
    refine ⟨trivial, fun r ht => ?_, .inl rfl⟩
    cases r with
    | none => exact .nothing
    | some hash =>
      obtain ⟨j, hg⟩ := ht
      obtain ⟨job, hjob, hid, -⟩ := hg.job
      simp only [hjob, nextDuties, fetchDuties, AdmitPc.jobId, hid]
      exact .fetched hg.1
  | admission n p =>
    rw [FetchPc.view]
    refine moving_admission.map fun x => ?_
    cases x with
    | goto p => rfl
    | ret b =>
      simp only [FetchPc.loop]
      split
      · split <;> rfl
      · rfl
    | throw => rfl

theorem moving_complete {p : CompletePc} (h : SoundTick Own E (.complete p)) :
    Moving reg E (completeDuties p) completeDuties (p.view reg) := by
  cases p with
  | record r => exact ⟨trivial, fun _ _ => .reported h.mem, .inr ⟨rfl, fun _ _ h => by cases h⟩⟩
  | ack j g =>
    refine ⟨trivial, fun r _ => ?_, .inr ⟨rfl, fun _ _ h => by cases h⟩⟩
    simp only
    split
    · exact .settled
    · exact .settled
  | resetGroupStats g => exact ⟨trivial, fun _ _ => .idle rfl, .inl rfl⟩
  | finalize p =>
    rw [CompletePc.view]
    show Moving reg E (pairDuties []) _ _
    refine (finalize_calls reg p).moving fun x => ?_
    cases x <;> exact .inl rfl

theorem moving_failed {p : FailedPc} : Moving reg E (failedDuties p) failedDuties (p.view reg) := by
  have hdrop : ∀ {cmd ds}, (∀ j g, cmd ≠ .congestionBackoff j g) → Drops cmd ds [] := fun h => .inr ⟨rfl, h⟩
  cases p with
  | incrRetryCount job => exact ⟨trivial, fun _ _ => .idle rfl, hdrop (fun _ _ h => by cases h)⟩
  | setPending job =>
    refine ⟨trivial, fun _ _ => ?_, hdrop (fun _ _ h => by cases h)⟩
    simp only [nextDuties, failedDuties, AddPc.start_jobId]
    exact .idle rfl
  | requeue p =>
    cases p with
    | script j g => exact ⟨trivial, fun _ _ => .parked, .inl rfl⟩
    | fixedBackoff j => exact ⟨trivial, fun _ _ => .parkedFixed, hdrop (fun _ _ h => by cases h)⟩
  | deadLetter job e => exact ⟨trivial, fun _ _ => .buried, hdrop (fun _ _ h => by cases h)⟩
  | setFailed job e => exact ⟨trivial, fun _ _ => .idle rfl, hdrop (fun _ _ h => by cases h)⟩
  | record job e => exact ⟨trivial, fun _ _ => .recorded (r := deadLetterResult job e), hdrop (fun _ _ h => by cases h)⟩
  | ack job => exact ⟨trivial, fun _ _ => .settled, hdrop (fun _ _ h => by cases h)⟩

theorem moving_nack {j : JobId} {job : Job} {e : String} {b : Bool} (h : Held E j job) :
    Moves reg E (.reliableAck j) b [.work j] (failedDuties (.start reg job e)) := by
  obtain ⟨rfl, hm⟩ := h
  unfold FailedPc.start
  split
  · exact .nacked
  · exact .nackedOut hm

theorem moving_tick {p : TickPc} (h : SoundTick Own E p) :
    Moving reg E (tickDuties p) tickDuties (p.view reg) := by
  cases p with
  | dequeue p =>
    cases p with
    | length w i =>
      refine ⟨trivial, fun r _ => ?_, .inl rfl⟩
      by_cases hr : r = 0
      · simp only [if_pos hr]
        exact .idle rfl
      · simp only [if_neg hr]
        exact .idle rfl
    | peek w i =>
      refine ⟨trivial, fun r _ => ?_, .inl rfl⟩
      cases r <;> exact .idle rfl
    | peekRetryCount w i j => exact ⟨trivial, fun _ _ => .idle rfl, .inl rfl⟩
    | peekGroupId w i j n => exact ⟨trivial, fun _ _ => .idle rfl, .inl rfl⟩
    | script w i n g =>
      refine ⟨trivial, fun r _ => ?_, .inl rfl⟩
      cases r with
      | none => exact .idling
      | some x => exact .delivered
  | loadJob j =>
    refine ⟨trivial, fun hash ht => ?_, .inr ⟨rfl, fun _ _ h => by cases h⟩⟩
    obtain ⟨job, hjob, -⟩ := (ht h).job
    simp only [TickPc.loaded, hjob]
    split
    · exact .idle rfl
    · exact .idle rfl
  | cleanUp j =>
    obtain ⟨-, rfl⟩ := h
    exact ⟨trivial, fun _ _ => .cleaned, .inr ⟨rfl, fun _ _ h => by cases h⟩⟩
  | startTime j job =>
    refine ⟨trivial, fun r _ => ?_, .inr ⟨rfl, fun _ _ h => by cases h⟩⟩
    simp only
    split <;> exact .idle rfl
  | process j job t =>
    refine ⟨trivial, fun r _ => ?_, .inr ⟨rfl, fun _ _ h => by cases h⟩⟩
    cases r with
    | none => exact .idle rfl
    | some outcome => cases outcome <;> exact .idle rfl
  | heartbeat j job t => exact ⟨trivial, fun _ _ => .idle rfl, .inl rfl⟩
  | endTime j job t r =>
    refine ⟨trivial, fun now _ => ?_, .inr ⟨rfl, fun _ _ h => by cases h⟩⟩
    simp only [nextDuties, TickPc.settle]
    split
    · exact .idle rfl
    · split
      · split <;> exact .idle rfl
      · exact .idle rfl
  | ack j job r =>
    obtain ⟨⟨rfl, hm⟩, ha, hg⟩ := h
    refine ⟨trivial, fun b _ => ?_, .inl rfl⟩
    simp only [nextDuties, tickDuties, completeDuties, ha, hg]
    exact .acked hm
  | nack j job e => exact ⟨trivial, fun _ _ => moving_nack h, .inl rfl⟩
  | nackCaught j job e => exact ⟨trivial, fun _ _ => moving_nack h, .inr ⟨rfl, fun _ _ h => by cases h⟩⟩
  | complete p =>
    rw [TickPc.view]
    refine (moving_complete h).map fun x => ?_
    cases x <;> rfl
  | failed p =>
    rw [TickPc.view]
    refine moving_failed.map fun x => ?_
    cases x <;> rfl

theorem duties_recovery_loop (pairs : List (JobId × GroupId)) :
    nextDuties recoveryDuties (RecoveryPc.loop pairs) = pairDuties pairs := by
  cases pairs <;> rfl

theorem moving_recovery {p : RecoveryPc} :
    Moving reg E (recoveryDuties p) recoveryDuties (p.view reg) := by
  cases p with
  | script =>
    refine ⟨trivial, fun r _ => ?_, .inl rfl⟩
    rw [duties_recovery_loop]
    exact .recovered
  | record j g pairs =>
    exact ⟨trivial, fun _ _ => .recorded (r := orphanResult j g), .inr ⟨rfl, fun _ _ h => by cases h⟩⟩
  | ack j g pairs =>
    refine ⟨trivial, fun r _ => ?_, .inr ⟨rfl, fun _ _ h => by cases h⟩⟩
    simp only
    split
    · exact .settled
    · rw [duties_recovery_loop]
      exact .settled
  | finalize p pairs =>
    rw [RecoveryPc.view]
    refine (finalize_calls reg p).moving fun x => ?_
    cases x with
    | goto p => exact .inl rfl
    | ret b => exact .inl (duties_recovery_loop pairs)
    | throw => exact .inr rfl

/-- The triple of every await for the duties of its activity. -/
theorem duties_spec {p : Proc} (h : Sound Own E p) :
    (p.view reg).Spec (fun _ => True)
      (fun cmd r p' => Truthful Own E cmd r → Moves reg E cmd r (duties p) (duties p'))
      fun cmd p' => Drops cmd (duties p) (duties p') := by
  have lift : ∀ {Pc α : Type} {ds : List Duty} {f : Pc → List Duty} {mk : Pc → Proc} {a : Await Pc α},
      Moving reg E ds f a → (∀ p, duties (mk p) = f p) → (a.map (resume mk)).Spec (fun _ => True)
        (fun cmd r p' => Truthful Own E cmd r → Moves reg E cmd r ds (duties p'))
        fun cmd p' => Drops cmd ds (duties p') := by
    intro Pc α ds f mk a ha hf
    have hres : ∀ x : Core.Next Pc α, duties (resume mk x) = nextDuties f x := by
      intro x
      cases x with
      | goto p => exact hf p
      | ret b => rfl
      | throw => rfl
    exact Core.Action.Spec.map ha (fun _ _ x hx ht => by rw [hres]; exact hx ht)
      fun _ x hx => by rw [hres]; exact hx
  have idle : ∀ {Pc α : Type} {mk : Pc → Proc} {a : Await Pc α},
      a.Spec (fun c => carries c = false) (fun _ _ _ => True) (fun _ _ => True) → (∀ p, duties (mk p) = []) →
      (a.map (resume mk)).Spec (fun _ => True)
        (fun cmd r p' => Truthful Own E cmd r → Moves reg E cmd r [] (duties p'))
        fun cmd p' => Drops cmd [] (duties p') := by
    intro Pc α mk a ha hmk
    have hres : ∀ x : Core.Next Pc α, duties (resume mk x) = [] := by
      intro x
      cases x with
      | goto p => exact hmk p
      | ret b => rfl
      | throw => rfl
    cases a with
    | call c ok err =>
      refine ⟨trivial, fun r _ => ?_, .inl (hres _)⟩
      rw [hres]
      exact .idle ha.1
    | halt => trivial
  have house : ∀ {Pc α : Type} {a : Await Pc α}, Housekeeps a →
      a.Spec (fun c => carries c = false) (fun _ _ _ => True) fun _ _ => True := by
    intro Pc α a ha
    cases a with
    | call c ok err => exact ⟨carries_of_housekeeping ha.1, fun _ => trivial, trivial⟩
    | halt => trivial
  cases p with
  | submit p =>
    refine idle ?_ fun _ => rfl
    cases p <;> exact ⟨rfl, fun _ => trivial, trivial⟩
  | fetch p => exact lift moving_fetch fun _ => rfl
  | dispatch p =>
    refine idle ?_ fun _ => rfl
    cases p <;> exact ⟨rfl, fun _ => trivial, trivial⟩
  | tick p => exact lift (moving_tick h) fun _ => rfl
  | recovery p => exact lift moving_recovery fun _ => rfl
  | watch p => exact idle (house (watch_calls reg p)) fun _ => rfl
  | finalize p => exact idle (house (finalize_calls reg p)) fun _ => rfl
  | deadLetter p =>
    refine idle ?_ fun _ => rfl
    have hmap : ∀ {A B α β : Type} {a : Await A α} {g : Core.Next A α → Core.Next B β},
        a.Spec (fun c => carries c = false) (fun _ _ _ => True) (fun _ _ => True) →
        (a.map g).Spec (fun c => carries c = false) (fun _ _ _ => True) fun _ _ => True :=
      fun h => Core.Action.Spec.map h (fun _ _ _ _ => trivial) fun _ _ _ => trivial
    cases p with
    | retryRemove p | purgeRemove p | cleanupRemove p =>
      rw [DeadLetterPc.view]
      refine hmap ?_
      cases p <;> exact ⟨rfl, fun _ => trivial, trivial⟩
    | _ => exact ⟨rfl, fun _ => trivial, trivial⟩
  | call p =>
    refine idle ?_ fun _ => rfl
    cases p <;> exact ⟨rfl, fun _ => trivial, trivial⟩
  | done => trivial

/-- An executed call moves the duties of its caller. -/
theorem moves_of_run {s : Store} {inp : Input} {p : Proc} {cmd : Cmd} {ok : Reply cmd → Proc} {err : Proc}
    (hs : Sound Own E p) (hv : p.view reg = .call cmd ok err) (hid : Identified E s)
    (hans : ∀ x ∈ answers cmd inp, Own x.1 x.2.jobId x.2.groupId) :
    Moves reg E cmd (exec reg cmd inp s).2 (duties p) (duties (ok (exec reg cmd inp s).2)) := by
  have hm := @duties_spec reg _ _ hs
  rw [hv] at hm
  exact hm.2.1 _ (truthful_exec hid hans)

/-- A rejected one drops them or leaves them. -/
theorem drops_of_reject {p : Proc} {cmd : Cmd} {ok : Reply cmd → Proc} {err : Proc} (hs : Sound Own E p)
    (hv : p.view reg = .call cmd ok err) : Drops cmd (duties p) (duties err) := by
  have hm := @duties_spec reg _ _ hs
  rw [hv] at hm
  exact hm.2.2

end
end NestPlayground.L4
