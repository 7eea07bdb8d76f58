import Mathlib.Algebra.BigOperators.Group.List.Basic
import NestPlayground.L5Properties.Admission
import NestPlayground.L5Properties.AtLeastOnce

/-!
# The life of a job

The pipeline moves a job by one script at a time, and between two scripts the
job is with the activity that runs them. `Phase` is where a job can be and
`Leads` which script takes it from where to where; what the scripts do together
is that every submitted job walks this graph:

* `one_place`: in every state of a run a submitted job is in exactly one place
  and there exactly once;
* `lifecycle`: from any state of a run to any later one it has gone along the
  edges, so that it is never listed again and a recorded job stays recorded.

Workers may stop and calls may reject wherever their activity has no job in
hand, so also while a processor works: the job is in flight then, and recovery
puts it back. The assumptions exclude what the other modules show to lose or to
copy a job: an admission that finds the ready queue full, an ack that is late, a
dead letter put back, an id used twice, and a fault between two scripts that
move one job.
-/
namespace NestPlayground.L5.Lifecycle
open L1 L3 L4
open AtLeastOnce (delivered_inFlight carries_of_returns)

/-- Where a submitted job is. -/
inductive Phase where
  /-- on the list of its group -/
  | listed
  /-- popped by a fetch cycle, to be queued -/
  | admitting
  | ready
  | parked
  | inFlight
  /-- nacked, to be parked -/
  | returning
  /-- nacked at the retry limit, to be dead-lettered -/
  | burying
  /-- acked, to be recorded -/
  | reporting
  /-- dead-lettered, to be recorded -/
  | recording
  | recorded
  deriving DecidableEq, Repr

def Phase.all : List Phase :=
  [.listed, .admitting, .ready, .parked, .inFlight, .returning, .burying, .reporting, .recording, .recorded]

theorem Phase.mem_all (ph : Phase) : ph ∈ Phase.all := by
  cases ph <;> decide

/-- The calls that move a job. -/
inductive Leads : Phase → Phase → Prop where
  /-- `dequeue.lua` -/
  | dequeue : Leads .listed .admitting
  /-- `ready-queue-push.lua` -/
  | push : Leads .admitting .ready
  /-- `congestion-backoff.lua`, or the `ZADD` of `fixedBackoff`, for the rate limit -/
  | backOff : Leads .admitting .parked
  /-- `move-to-ready.lua` -/
  | move : Leads .parked .ready
  /-- `reliable-dequeue.lua` -/
  | deliver : Leads .ready .inFlight
  /-- `reliable-ack.lua`, after a success, a failure, the last failure -/
  | ack : Leads .inFlight .reporting
  | nack : Leads .inFlight .returning
  | nackOut : Leads .inFlight .burying
  /-- `recover-orphans.lua`, below and at the retry limit -/
  | recover : Leads .inFlight .ready
  | giveUp : Leads .inFlight .recording
  /-- `congestion-backoff.lua`, or the `ZADD` of `fixedBackoff`, after a failure -/
  | park : Leads .returning .parked
  /-- the `RPUSH` of `handleDeadLetter` -/
  | bury : Leads .burying .recording
  /-- `record-job-result.lua` -/
  | report : Leads .reporting .recorded
  | record : Leads .recording .recorded

/-- The job that somebody with this duty has in hand. -/
def phaseOf : Duty → Option (Phase × JobId)
  | .queue j => some (.admitting, j)
  | .work _ => none
  | .park j => some (.returning, j)
  | .bury j _ => some (.burying, j)
  | .report j _ => some (.reporting, j)
  | .record j _ => some (.recording, j)
  | .settle _ _ => none

/-- The activity has no job in hand. -/
def EmptyHanded (p : Proc) : Prop := ∀ d ∈ duties p, phaseOf d = none

instance (p : Proc) : Decidable (EmptyHanded p) :=
  inferInstanceAs (Decidable (∀ d ∈ duties p, phaseOf d = none))

/-- The finalization that `runOnce` has started is about to reject. -/
def throws : Proc → Bool
  | .recovery (.finalize (.release _ _ none) _) => true
  | _ => false

/-- Nobody stops, meets a rejected call or gives up with a job in hand. -/
def Safe (c : State) : Label → Prop
  | .stop i => ∀ p ∈ c.procs[i]?, EmptyHanded p
  | .reject i => ∀ p ∈ c.procs[i]?, EmptyHanded p
  | .run i _ => ∀ p ∈ c.procs[i]?, throws p = true → EmptyHanded p
  | _ => True

instance (c : State) (l : Label) : Decidable (Safe c l) :=
  match l with
  | .stop i => inferInstanceAs (Decidable (∀ p ∈ c.procs[i]?, EmptyHanded p))
  | .reject i => inferInstanceAs (Decidable (∀ p ∈ c.procs[i]?, EmptyHanded p))
  | .run i _ => inferInstanceAs (Decidable (∀ p ∈ c.procs[i]?, throws p = true → EmptyHanded p))
  | .spawn _ | .env _ => isTrue trivial

/-- Ids are not empty (the empty id is taken for a missing hash). -/
def Named (reg : Registry) : State → Label → Prop :=
  onCalls reg fun _ _ cmd _ => ∀ x ∈ enqueues cmd, x.1 ≠ ""

instance (reg : Registry) (c : State) (l : Label) : Decidable (Named reg c l) :=
  instDecidableOnCalls reg (fun _ _ cmd _ => ∀ x ∈ enqueues cmd, x.1 ≠ "") c l

structure Smooth (reg : Registry) (c : State) (l : Label) : Prop where
  fresh : Fresh reg c l
  named : Named reg c l
  own : Answers Own reg c l
  noRetry : NoRetry reg c l
  punctual : Punctual reg c l
  roomy : Admission.Roomy reg c l
  safe : Safe c l

instance (reg : Registry) (c : State) (l : Label) : Decidable (Smooth reg c l) :=
  decidable_of_iff (Fresh reg c l ∧ Named reg c l ∧ Answers Own reg c l ∧ NoRetry reg c l ∧ Punctual reg c l ∧
      Admission.Roomy reg c l ∧ Safe c l)
    ⟨fun ⟨h1, h2, h3, h4, h5, h6, h7⟩ => ⟨h1, h2, h3, h4, h5, h6, h7⟩,
      fun ⟨h1, h2, h3, h4, h5, h6, h7⟩ => ⟨h1, h2, h3, h4, h5, h6, h7⟩⟩

/-- How often `j` of group `g` is where. -/
def count (j : JobId) (g : GroupId) (c : State) : Phase → Nat
  | .listed => (c.world.groupJobs g).count j
  | .ready => c.world.readyQueue.count j
  | .parked => c.world.nonReadyQueue.members.count j
  | .inFlight => c.world.inFlightQueue.members.count j
  | .recorded => (recorded c.log).countP (·.1 = j)
  | ph => (c.procs.map fun p => (duties p).countP fun d => phaseOf d = some (ph, j)).sum

/-- In how many places `j` of group `g` is. -/
def places (j : JobId) (g : GroupId) (c : State) : Nat := (Phase.all.map (count j g c)).sum

/-! ## The phases -/

/-- `j` of group `g` is in the store. -/
def Stored (j : JobId) (g : GroupId) (w : Store) (log : Log) : Phase → Prop
  | .listed => j ∈ w.groupJobs g
  | .ready => j ∈ w.readyQueue
  | .parked => j ∈ w.nonReadyQueue
  | .inFlight => j ∈ w.inFlightQueue
  | .recorded => j ∈ (recorded log).map Prod.fst
  | _ => False

/-- `j` is in the hands of somebody with the duties `ds`. -/
def InHand (j : JobId) (ds : List Duty) (ph : Phase) : Prop := ∃ d ∈ ds, phaseOf d = some (ph, j)

def At (j : JobId) (g : GroupId) (c : State) (ph : Phase) : Prop :=
  Stored j g c.world c.log ph ∨ ∃ p ∈ c.procs, InHand j (duties p) ph

theorem EmptyHanded.not_inHand {p : Proc} (h : EmptyHanded p) (j : JobId) (ph : Phase) : ¬ InHand j (duties p) ph := by
  rintro ⟨d, hd, hph⟩
  rw [h d hd] at hph
  cases hph

/-- Nobody else changes: `p` took the place of `i`. -/
theorem inHand_set {j : JobId} {procs : List Proc} {i : Nat} {q p' : Proc} {ph : Phase} (hq : procs[i]? = some q)
    (h : ∃ p ∈ procs, InHand j (duties p) ph) :
    InHand j (duties q) ph ∨ ∃ p ∈ procs.set i p', InHand j (duties p) ph := by
  obtain ⟨p, hp, hhand⟩ := h
  obtain ⟨k, hk⟩ := List.mem_iff_getElem?.mp hp
  rcases eq_or_ne k i with rfl | hne
  · rw [hq] at hk
    cases hk
    exact .inl hhand
  · refine .inr ⟨p, List.mem_of_getElem? (i := k) ?_, hhand⟩
    rw [List.getElem?_set_ne (Ne.symm hne)]
    exact hk

theorem inHand_pos {j : JobId} {procs : List Proc} {ph : Phase} :
    0 < (procs.map fun p => (duties p).countP fun d => phaseOf d = some (ph, j)).sum ↔
      ∃ p ∈ procs, InHand j (duties p) ph := by
  rw [List.sum_pos_iff_exists_pos_nat]
  simp only [List.mem_map, InHand, exists_exists_and_eq_and, List.countP_pos_iff, decide_eq_true_eq]

/-- The jobs of five phases are in the store. -/
theorem stored_iff {j : JobId} {g : GroupId} {c : State} {ph : Phase} (h : ∀ d, phaseOf d ≠ some (ph, j)) :
    At j g c ph ↔ Stored j g c.world c.log ph :=
  ⟨fun hat => hat.resolve_right fun ⟨_, _, d, _, hd⟩ => h d hd, .inl⟩

theorem count_pos {j : JobId} {g : GroupId} {c : State} {ph : Phase} : 0 < count j g c ph ↔ At j g c ph := by
  have hzset : ∀ z : Core.ZSet JobId Nat, 0 < z.members.count j ↔ j ∈ z := by
    intro z
    rw [Core.ZSet.count_members]
    split <;> simp_all
  cases ph with
  | listed | ready =>
    rw [stored_iff fun d => by cases d <;> simp [phaseOf]]
    exact List.count_pos_iff
  | parked | inFlight =>
    rw [stored_iff fun d => by cases d <;> simp [phaseOf]]
    exact hzset _
  | recorded =>
    rw [stored_iff fun d => by cases d <;> simp [phaseOf], count, countP_fst]
    exact List.count_pos_iff
  | admitting | returning | burying | reporting | recording => exact inHand_pos.trans (or_iff_right id).symm

/-- Two phases count no more than all. -/
theorem count_add_le_places {j : JobId} {g : GroupId} {c : State} {ph ph' : Phase} (hne : ph ≠ ph') :
    count j g c ph + count j g c ph' ≤ places j g c := by
  obtain ⟨i, hi⟩ := List.mem_iff_getElem?.mp ph.mem_all
  obtain ⟨k, hk⟩ := List.mem_iff_getElem?.mp ph'.mem_all
  refine Core.Program.hold_add_le_sum (count j g c) hi hk fun he => hne ?_
  rw [he] at hi
  exact Option.some.inj (hi.symm.trans hk)

/-- A job that is in one place is in one phase. -/
theorem at_unique {j : JobId} {g : GroupId} {c : State} {ph ph' : Phase} (hone : places j g c = 1)
    (h : At j g c ph) (h' : At j g c ph') : ph = ph' := by
  by_contra hne
  have := @count_add_le_places j g c _ _ hne
  have := count_pos.mpr h
  have := count_pos.mpr h'
  omega

/-- The hands hold tokens. -/
theorem countP_token (ds : List Duty) (j : JobId) :
    ds.countP (Duty.token false j) =
      ds.countP (fun d => phaseOf d = some (.admitting, j)) + ds.countP (fun d => phaseOf d = some (.returning, j)) +
      ds.countP (fun d => phaseOf d = some (.burying, j)) + ds.countP (fun d => phaseOf d = some (.reporting, j)) +
      ds.countP (fun d => phaseOf d = some (.recording, j)) := by
  induction ds with
  | nil => rfl
  | cons d ds ih =>
    simp only [List.countP_cons, ih]
    cases d <;> simp [phaseOf, Duty.token] <;> omega

theorem places_eq (j : JobId) (g : GroupId) (c : State) :
    places j g c = (c.world.groupJobs g).count j + tokens false j c := by
  have hsum : ∀ procs : List Proc, (procs.map fun p => (duties p).countP (Duty.token false j)).sum =
      (procs.map fun p => (duties p).countP fun d => phaseOf d = some (Phase.admitting, j)).sum +
      (procs.map fun p => (duties p).countP fun d => phaseOf d = some (Phase.returning, j)).sum +
      (procs.map fun p => (duties p).countP fun d => phaseOf d = some (Phase.burying, j)).sum +
      (procs.map fun p => (duties p).countP fun d => phaseOf d = some (Phase.reporting, j)).sum +
      (procs.map fun p => (duties p).countP fun d => phaseOf d = some (Phase.recording, j)).sum := by
    intro procs
    induction procs with
    | nil => rfl
    | cons p procs ih =>
      simp only [List.map_cons, List.sum_cons, ih, countP_token (duties p)]
      omega
  simp only [tokens, Core.Program.total, hsum, places, Phase.all, List.map_cons, List.map_nil, List.sum_cons,
    List.sum_nil, count, queued, spent, if_neg Bool.false_ne_true]
  omega

section
variable {reg : Registry} {E : List (JobId × GroupId)} {cmd : Cmd} {r : Reply cmd} {inp : Input} {s : Store}
  {ds ds' : List Duty} {j : JobId} {g : GroupId} {log : Log}

/-- The list of a group loses its jobs to `dequeue.lua` only. -/
theorem listed_stays (hid : Identified E s) (h : j ∈ s.groupJobs g) :
    j ∈ (exec reg cmd inp s).1.groupJobs g ∨ ∃ g', fetches cmd (exec reg cmd inp s).2 = some (j, g') := by
  by_cases hd : cmd = .dequeue
  · subst hd
    rcases L2.dequeue_cases Core.binary64 reg.config.fairQueue.alpha inp.now s with ⟨q, he⟩ | ⟨g', k, rest, q, hl, he⟩
    · left
      simp only [exec, he]
      exact h
    · by_cases hk : g = g' ∧ j = k
      · obtain ⟨rfl, rfl⟩ := hk
        obtain ⟨hjid, -, g'', hgid, -⟩ := hid.hash j ⟨g, hid.groupJobs g j h⟩
        exact .inr ⟨g'', by simp [exec, he, fetches, hjid, hgid]⟩
      · left
        simp only [exec, he]
        rcases eq_or_ne g g' with rfl | hne
        · rw [hl] at h
          rw [Function.update_self]
          exact (List.mem_cons.mp h).resolve_left fun hj => hk ⟨rfl, hj⟩
        · rw [Function.update_of_ne hne]
          exact h
  · left
    cases he : enqueues cmd with
    | none =>
      rw [groupJobs_frame he hd]
      exact h
    | some x =>
      cases cmd with
      | enqueue req =>
        simp only [exec, L2.enqueue]
        rcases eq_or_ne g req.jobGroupId with rfl | hne
        · rw [Function.update_self]
          exact List.mem_append_left _ h
        · rw [Function.update_of_ne hne]
          exact h
      | _ => cases he

theorem listed_of_enqueued (h : enqueues cmd = some (j, g)) : j ∈ (exec reg cmd inp s).1.groupJobs g := by
  cases cmd with
  | enqueue req =>
    cases h
    simp only [exec, L2.enqueue, Function.update_self]
    exact List.mem_append_right _ List.mem_cons_self
  | _ => cases h

/-- A finalization rejects when it has released the lock after an error. -/
theorem finalize_throws (p : FinalizePc) :
    (p.view reg).Spec (fun _ => True) (fun _ _ x => x = .throw → ∃ g token, p = .release g token none)
      fun _ _ => True := by
  cases p with
  | acquire g p =>
    rw [FinalizePc.view]
    have hacquire : (p.view reg).Spec (fun _ => True) (fun _ _ x => x ≠ .throw) fun _ _ => True := by
      cases p with
      | uuid key => exact ⟨trivial, fun _ h => (by cases h), trivial⟩
      | attempt key token n =>
        refine ⟨trivial, fun b => ?_, trivial⟩
        simp only
        split
        · exact fun h => by cases h
        · split <;> exact fun h => by cases h
    refine hacquire.map (fun _ _ x hx h => ?_) fun _ _ _ => trivial
    cases x with
    | goto p => cases h
    | ret t => cases t <;> cases h
    | throw => exact absurd rfl hx
  | metaGetAll g token =>
    refine ⟨trivial, fun m h => ?_, trivial⟩
    simp only at h
    split at h <;> cases h
  | toAggregating g token t =>
    refine ⟨trivial, fun b h => ?_, trivial⟩
    simp only at h
    split at h <;> cases h
  | aggregate g token p =>
    rw [FinalizePc.view]
    have htrue : (p.view reg batchSize).Spec (fun _ => True) (fun _ _ _ => True) fun _ _ => True := by
      cases p <;> exact ⟨trivial, fun _ => trivial, trivial⟩
    refine htrue.map (fun _ _ x _ h => ?_) fun _ _ _ => trivial
    cases x <;> cases h
  | toCompleted g token => exact ⟨trivial, fun _ h => (by cases h), trivial⟩
  | release g token result =>
    refine ⟨trivial, fun b h => ?_, trivial⟩
    cases result with
    | none => exact ⟨g, token, rfl⟩
    | some x => cases h

/-- The caller goes on with what it has in hand, once it finds room where it tests
for it and does not give up with a job. -/
def Keeps (reg : Registry) (s : Store) (p : Proc) (cmd : Cmd) (r : Reply cmd) (p' : Proc) : Prop :=
  carries cmd = false → (∃ inp, (exec reg cmd inp s).2 = r) →
    (Admission.tests p = true → s.readyQueue.length < reg.config.backpressure.readyQueueMaxSize) →
    (throws p = true → EmptyHanded p) → duties p' = [] → EmptyHanded p

theorem fetch_keeps (f : FetchPc) :
    ((Proc.fetch f).view reg).Spec (fun cmd => ∀ k, cmd = .readyQueuePush k → Admission.tests (.fetch f) = true)
      (Keeps reg s (.fetch f)) fun _ _ => True := by
  cases f with
  | hasCapacity n => exact ⟨fun k h => (by cases h), fun r _ _ _ _ _ d hd => (by cases hd), trivial⟩
  | dequeue n => exact ⟨fun k h => (by cases h), fun r _ _ _ _ _ d hd => (by cases hd), trivial⟩
  | admission n q =>
    cases q with
    | hasCapacity job =>
      refine ⟨fun k h => rfl, fun r _ hr hroom _ hd => ?_, trivial⟩
      obtain ⟨inp, rfl⟩ := hr
      have hlt : (exec reg .readyLength inp s).2 < reg.config.backpressure.readyQueueMaxSize := hroom rfl
      simp only [if_pos hlt] at hd
      cases hd
    | checkRateLimit job =>
      refine ⟨fun k h => (by cases h), fun r _ _ _ _ hd => ?_, trivial⟩
      by_cases ha : r.allowed = true
      · simp only [if_pos ha] at hd
        cases hd
      · simp only [if_neg ha] at hd
        cases hd
    | push job => exact ⟨fun k h => rfl, fun r hc => (by cases hc), trivial⟩
    | addToNonReady r p =>
      cases p <;> exact ⟨fun k h => (by cases h), fun r hc => (by cases hc), trivial⟩

theorem tick_keeps (t : TickPc) :
    ((Proc.tick t).view reg).Spec (fun _ => True) (Keeps reg s (.tick t)) fun _ _ => True := by
  have hempty : (∀ d ∈ tickDuties t, phaseOf d = none) →
      ((Proc.tick t).view reg).Spec (fun _ => True) (Keeps reg s (.tick t)) fun _ _ => True :=
    fun h => Core.Action.Spec.of_forall (fun _ => trivial) (fun _ _ _ _ _ _ _ _ => h) (fun _ _ => trivial) _
  have hwork : ∀ j d, d ∈ [Duty.work j] → phaseOf d = none := by
    intro j d hd
    rw [List.mem_singleton.mp hd]
    rfl
  cases t with
  | dequeue p => exact hempty fun d hd => (by cases hd)
  | complete p =>
    cases p with
    | record r => exact ⟨trivial, fun r hc => (by cases hc), trivial⟩
    | ack j g => exact ⟨trivial, fun r hc => (by cases hc), trivial⟩
    | resetGroupStats g => exact hempty fun d hd => (by cases hd)
    | finalize p => exact hempty fun d hd => (by cases hd)
  | failed p =>
    cases p with
    | incrRetryCount job => exact ⟨trivial, fun r _ _ _ _ hd => (by cases hd), trivial⟩
    | setPending job =>
      refine ⟨trivial, fun r _ _ _ _ hd => ?_, trivial⟩
      cases hd
    | setFailed job e => exact ⟨trivial, fun r _ _ _ _ hd => (by cases hd), trivial⟩
    | deadLetter job e => exact ⟨trivial, fun r hc => (by cases hc), trivial⟩
    | record job e => exact ⟨trivial, fun r hc => (by cases hc), trivial⟩
    | ack job => exact ⟨trivial, fun r hc => (by cases hc), trivial⟩
    | requeue p => cases p <;> exact ⟨trivial, fun r hc => (by cases hc), trivial⟩
  | _ => exact hempty (hwork _)

theorem recovery_keeps (p : RecoveryPc) :
    ((Proc.recovery p).view reg).Spec (fun _ => True) (Keeps reg s (.recovery p)) fun _ _ => True := by
  cases p with
  | script => exact ⟨trivial, fun r hc => (by cases hc), trivial⟩
  | record j g pairs => exact ⟨trivial, fun r hc => (by cases hc), trivial⟩
  | ack j g pairs => exact ⟨trivial, fun r hc => (by cases hc), trivial⟩
  | finalize p pairs =>
    rw [Proc.view, RecoveryPc.view, Core.Action.map_map]
    refine (finalize_throws p).map (fun cmd r x hx _ _ _ hthrow hd => ?_) fun _ _ _ => trivial
    have hloop : duties (resume .recovery (RecoveryPc.loop pairs)) = [] → pairDuties pairs = [] := by
      intro h
      cases pairs with
      | nil => rfl
      | cons x pairs => cases h
    cases x with
    | goto q =>
      intro d hm
      rw [show duties (.recovery (.finalize p pairs)) = [] from hd] at hm
      cases hm
    | ret b =>
      intro d hm
      rw [show duties (.recovery (.finalize p pairs)) = [] from hloop hd] at hm
      cases hm
    | throw =>
      obtain ⟨g, token, rfl⟩ := hx rfl
      exact hthrow rfl

/-- One call by which no job changes hands. -/
theorem keeps_of_run {p err : Proc} {ok : Reply cmd → Proc} (hv : p.view reg = .call cmd ok err) :
    Keeps reg s p cmd r (ok r) := by
  cases p with
  | fetch f =>
    have h := @fetch_keeps reg s f
    rw [hv] at h
    exact h.2.1 r
  | tick t =>
    have h := @tick_keeps reg s t
    rw [hv] at h
    exact h.2.1 r
  | recovery q =>
    have h := @recovery_keeps reg s q
    rw [hv] at h
    exact h.2.1 r
  | _ => exact fun _ _ _ _ _ d hd => (by cases hd)

/-- Only an admission pushes. -/
theorem tests_of_push {p err : Proc} {k : JobId} {ok : Bool → Proc} (hv : p.view reg = .call (.readyQueuePush k) ok err) :
    Admission.tests p = true := by
  have hmay := mayCall_of_view hv
  cases p with
  | fetch f =>
    have h := @fetch_keeps reg .empty f
    rw [hv] at h
    exact h.1 k rfl
  | _ => cases hmay

/-- After one call: `ph` is where the job was. -/
def Onward (j : JobId) (g : GroupId) (w : Store) (log : Log) (ds : List Duty) (ph : Phase) : Prop :=
  ∃ ph', Relation.ReflGen Leads ph ph' ∧ (Stored j g w log ph' ∨ InHand j ds ph')

theorem Onward.stored {w : Store} {ph ph' : Phase} (h : Stored j g w log ph') (hl : Leads ph ph') :
    Onward j g w log ds ph :=
  ⟨ph', .single hl, .inl h⟩

theorem Onward.inHand {w : Store} {d : Duty} {ph ph' : Phase} (hd : d ∈ ds) (h : phaseOf d = some (ph', j))
    (hl : Leads ph ph') : Onward j g w log ds ph :=
  ⟨ph', .single hl, .inr ⟨d, hd, h⟩⟩

theorem Onward.stays {w : Store} {ph : Phase} (h : Stored j g w log ph ∨ InHand j ds ph) : Onward j g w log ds ph :=
  ⟨ph, .refl, h⟩

/-- The ack or nack of a job in flight: its worker has it now. -/
theorem returned_step (hm : Moves reg E cmd r ds ds') (hj : j ≠ "") (h : j ∈ returns cmd) :
    Onward j g s log ds' .inFlight := by
  cases hm with
  | acked =>
    cases h
    exact .inHand List.mem_cons_self rfl .ack
  | nacked =>
    cases h
    exact .inHand List.mem_cons_self rfl .nack
  | nackedOut =>
    cases h
    exact .inHand List.mem_cons_self rfl .nackOut
  | cleaned =>
    cases h
    exact absurd rfl hj
  | idle hc | abandoned hc =>
    rw [carries_of_returns h] at hc
    cases hc
  | _ => cases h

/-- An orphan goes to the ready queue, or to the activity that reports it. -/
theorem orphan_step {r : L2.RecoverReply} (hm : Moves reg E .recoverOrphans r ds ds')
    (hr : (exec reg .recoverOrphans inp s).2 = r) (h : j ∈ s.inFlightQueue) :
    Onward j g (exec reg .recoverOrphans inp s).1 log ds' .inFlight := by
  obtain ⟨dead, jobs, he, hp, -⟩ := L2.recoverOrphans_spec inp.now reg.config.reliableQueue.maxRetryCount
    reg.config.reliableQueue.orphanRecoveryBatchSize s
  by_cases hb : j ∈ s.inFlightQueue.rangeByScore inp.now reg.config.reliableQueue.orphanRecoveryBatchSize
  · rcases Nat.lt_or_ge (L2.orphanRetryCount s j) reg.config.reliableQueue.maxRetryCount with hlt | hle
    · refine .stored ?_ .recover
      simp only [Stored, exec, he]
      exact List.mem_append_right _ ((L2.mem_requeued _).mpr ⟨hb, hlt⟩)
    · cases hm with
      | idle hc | abandoned hc => cases hc
      | recovered =>
        refine .inHand (List.mem_map.mpr ⟨(j, L2.orphanGroupId s j), ?_, rfl⟩) rfl .giveUp
        rw [← hr]
        simp only [exec, hp]
        exact (L2.mem_deadLettered _).mpr ⟨hb, hle, rfl⟩
  · refine .stays (.inl ?_)
    simp only [Stored, exec, he]
    exact Core.ZSet.mem_foldl_zrem.mpr ⟨h, hb⟩

/-- Other calls than acks, nacks and recovery leave what is in flight. -/
theorem flight_stays (hack : ∀ k ∈ returns cmd, k ≠ j) (hrec : cmd ≠ .recoverOrphans) (h : j ∈ s.inFlightQueue) :
    j ∈ (exec reg cmd inp s).1.inFlightQueue := by
  by_cases hf : flights cmd = true
  · cases cmd with
    | reliableDequeue w i n g =>
      simp only [exec, L2.reliableDequeue]
      split
      · exact h
      · exact Core.ZSet.mem_zadd.mpr (.inr h)
    | reliableAck k => exact Core.ZSet.mem_zrem.mpr ⟨h, (hack k rfl).symm⟩
    | extendDeadline k =>
      simp only [exec, L2.extendDeadline]
      split
      · exact Core.ZSet.mem_zadd.mpr (.inr h)
      · exact h
    | recoverOrphans => exact absurd rfl hrec
    | _ => cases hf
  · rw [(flight_frame (eq_false_of_ne_true hf)).1]
    exact h

/-- One call and a job in the store. -/
theorem stored_step {i : Nat} {ph : Phase} (hm : Moves reg E cmd r ds ds') (hr : (exec reg cmd inp s).2 = r)
    (hid : Identified E s) (hj : j ≠ "") (h : Stored j g s log ph) :
    Onward j g (exec reg cmd inp s).1 (⟨i, cmd, r⟩ :: log) ds' ph := by
  cases ph with
  | listed =>
    rcases @listed_stays reg _ cmd inp s j g hid h with h | ⟨g', h⟩
    · exact .stays (.inl h)
    · -- popped: the fetch cycle has it now
      rw [hr] at h
      cases hm with
      | @fetched hash k hk =>
        simp only [fetches, hk, Option.getD_some, Option.some.injEq, Prod.mk.injEq] at h
        rw [h.1]
        exact .inHand List.mem_cons_self rfl .dequeue
      | idle hc | abandoned hc => cases cmd <;> first | cases h | cases hc
      | _ => cases h
  | ready =>
    rcases @ready_stays reg cmd inp s j h with h | h
    · exact .stays (.inl h)
    · exact .stored (show Stored j g _ _ .inFlight from delivered_inFlight h) .deliver
  | parked =>
    rcases @nonReady_stays reg cmd inp s j h with h | h
    · exact .stored (show Stored j g _ _ .ready from h) .move
    · exact .stays (.inl h)
  | inFlight =>
    by_cases hk : j ∈ returns cmd
    · exact returned_step hm hj hk
    · by_cases hrec : cmd = .recoverOrphans
      · subst hrec
        exact orphan_step hm hr h
      · refine .stays (.inl (flight_stays (fun k hk' he => hk ?_) hrec h))
        rw [← he]
        exact hk'
  | recorded =>
    refine .stays (.inl ?_)
    simp only [Stored, recorded_cons, List.map_append]
    exact List.mem_append_right _ h
  | admitting | returning | burying | reporting | recording => exact h.elim

/-- One call and a job in the hands of its caller. -/
theorem hand_step {i : Nat} {ph : Phase} (hm : Moves reg E cmd r ds ds') (hr : (exec reg cmd inp s).2 = r)
    (hroom : ∀ k, cmd = .readyQueuePush k → s.readyQueue.length < reg.config.backpressure.readyQueueMaxSize)
    (hkeep : carries cmd = false → ds' = [] → ∀ d ∈ ds, phaseOf d = none) (h : InHand j ds ph) :
    Onward j g (exec reg cmd inp s).1 (⟨i, cmd, r⟩ :: log) ds' ph := by
  obtain ⟨d, hd, hc⟩ := h
  have hrecorded : ∀ {w : Store} {x : JobProcessorResponse} {b}, x.jobId = j →
      Stored j g w (⟨i, .recordJobResult x, b⟩ :: log) .recorded := by
    rintro w x b rfl
    simp only [Stored, recorded_cons, List.map_append]
    exact List.mem_append_left _ List.mem_cons_self
  cases hm with
  | idle => exact .stays (.inr ⟨d, hd, hc⟩)
  | refused h | abandoned h =>
    rw [hkeep (by first | rfl | exact h) rfl d hd] at hc
    cases hc
  | @pushed k =>
    rw [List.mem_singleton.mp hd] at hc
    cases hc
    refine .stored ?_ .push
    simp only [Stored, exec, L2.readyQueuePush]
    rw [if_pos (decide_eq_true (hroom j rfl))]
    exact List.mem_append_right _ List.mem_cons_self
  | backedOff | backedOffFixed =>
    rw [List.mem_singleton.mp hd] at hc
    cases hc
    exact .stored (show Stored j g _ _ .parked from Core.ZSet.mem_zadd.mpr (.inl rfl)) .backOff
  | parked | parkedFixed =>
    rw [List.mem_singleton.mp hd] at hc
    cases hc
    exact .stored (show Stored j g _ _ .parked from Core.ZSet.mem_zadd.mpr (.inl rfl)) .park
  | buried =>
    rw [List.mem_singleton.mp hd] at hc
    cases hc
    exact .inHand List.mem_cons_self rfl .bury
  | reported =>
    rw [List.mem_singleton.mp hd] at hc
    cases hc
    exact .stored (hrecorded rfl) .report
  | recorded =>
    rcases List.mem_cons.mp hd with rfl | hd
    · cases hc
      exact .stored (hrecorded rfl) .record
    · exact .stays (.inr ⟨d, List.mem_cons_of_mem _ hd, hc⟩)
  | settled =>
    rcases List.mem_cons.mp hd with rfl | hd
    · cases hc
    · exact .stays (.inr ⟨d, hd, hc⟩)
  | nothing | fetched | idling | delivered | recovered => cases hd
  | cleaned | acked | nacked | nackedOut =>
    rw [List.mem_singleton.mp hd] at hc
    cases hc

end

/-! ## Runs -/

section
variable {reg : Registry}

theorem named (c : State) (h : ((runs reg).restrict (Smooth reg)).Reachable c) : ∀ x ∈ enqueued c.log, x.1 ≠ "" := by
  have L : Core.Program.Ledgered (pipeline reg) (Named reg) fun _ log => ∀ x ∈ enqueued log, x.1 ≠ "" := by
    refine ⟨?_, fun _ h => h⟩
    intro c i inp p cmd ok err hI hp hv hH x hx
    rw [enqueued_cons, List.mem_append, Option.mem_toList] at hx
    exact hx.elim (onCalls_run hH hp hv x) (hI x)
  have h₀ : ∀ x ∈ enqueued initialState.log, x.1 ≠ "" := fun x hx => (by cases hx)
  exact (L.inductive h₀).reachable c (h.weaken fun _ _ h => h.named)

theorem mem_enqueued_step {c c' : State} {l : Label} {x : JobId × GroupId} (hs : (pipeline reg).Step c l c')
    (h : x ∈ enqueued c.log) : x ∈ enqueued c'.log := by
  cases hs with
  | run => exact mem_enqueued_cons h
  | _ => exact h

/-- One step of a run and a submitted job. -/
theorem at_step {c c' : State} {l : Label} (h : ((runs reg).restrict (Smooth reg)).Reachable c)
    (hs : (pipeline reg).Step c l c') (hsmooth : Smooth reg c l) {j : JobId} {g : GroupId}
    (hj : (j, g) ∈ enqueued c.log) {ph : Phase} (hat : At j g c ph) :
    ∃ ph', Relation.ReflGen Leads ph ph' ∧ At j g c' ph' := by
  obtain ⟨hid, hsound⟩ := identity_reachable (fun _ _ h => h.own) h
  have hj' : j ≠ "" := named c h _ hj
  have hempty : ∀ {i p q}, c.procs[i]? = some p → EmptyHanded p → (∃ p ∈ c.procs, InHand j (duties p) ph) →
      ∃ p ∈ c.procs.set i q, InHand j (duties p) ph := fun hp he h =>
    (inHand_set hp h).resolve_left (he.not_inHand j ph)
  cases hs with
  | @run i inp p cmd ok err hp hv =>
    have hmoves := moves_of_run (hsound i p hp) hv hid (onCalls_run hsmooth.own hp hv)
    have hroom : ∀ k, cmd = .readyQueuePush k →
        c.world.readyQueue.length < reg.config.backpressure.readyQueueMaxSize := by
      rintro k rfl
      exact hsmooth.roomy p hp (tests_of_push hv)
    have hkeep : carries cmd = false → duties (ok (exec reg cmd inp c.world).2) = [] →
        ∀ d ∈ duties p, phaseOf d = none := fun hc hd =>
      keeps_of_run hv hc ⟨inp, rfl⟩ (hsmooth.roomy p hp) (hsmooth.safe p hp) hd
    have honward : Onward j g (exec reg cmd inp c.world).1 (⟨i, cmd, (exec reg cmd inp c.world).2⟩ :: c.log)
        (duties (ok (exec reg cmd inp c.world).2)) ph ∨
        ∃ p ∈ c.procs.set i (ok (exec reg cmd inp c.world).2), InHand j (duties p) ph := by
      rcases hat with hat | hat
      · exact .inl (stored_step hmoves rfl hid hj' hat)
      · exact (inHand_set hp hat).imp_left (hand_step hmoves rfl hroom hkeep)
    rcases honward with ⟨ph', hl, hto⟩ | hother
    · refine ⟨ph', hl, hto.imp_right fun hhand => ⟨_, ?_, hhand⟩⟩
      exact List.mem_set (List.getElem?_eq_some_iff.mp hp).1 _
    · exact ⟨ph, .refl, .inr hother⟩
  | @reject i p cmd ok err hp hv => exact ⟨ph, .refl, hat.imp_right (hempty hp (hsmooth.safe p hp))⟩
  | @stop i p hp => exact ⟨ph, .refl, hat.imp_right (hempty hp (hsmooth.safe p hp))⟩
  | spawn =>
    refine ⟨ph, .refl, hat.imp_right ?_⟩
    rintro ⟨p, hp, hhand⟩
    exact ⟨p, List.mem_append_left _ hp, hhand⟩
  | @env e =>
    refine ⟨ph, .refl, hat.imp_left fun h => ?_⟩
    cases e <;> exact h

/-- A submitted job is somewhere. -/
theorem at_of_enqueued (c : State) (h : ((runs reg).restrict (Smooth reg)).Reachable c) (j : JobId) (g : GroupId)
    (hj : (j, g) ∈ enqueued c.log) : ∃ ph, At j g c ph := by
  induction h with
  | init hc =>
    cases (hc : _ = initialState)
    cases hj
  | @step c l c' h hs ih =>
    obtain ⟨hstep, hsmooth⟩ := hs
    by_cases hold : (j, g) ∈ enqueued c.log
    · obtain ⟨ph, hat⟩ := ih hold
      obtain ⟨ph', -, hat'⟩ := at_step h hstep hsmooth hold hat
      exact ⟨ph', hat'⟩
    · -- submitted just now
      cases hstep with
      | @run i inp p cmd ok err hp hv =>
        rw [Core.Program.ran, enqueued_cons, List.mem_append, Option.mem_toList] at hj
        exact ⟨.listed, .inl (listed_of_enqueued (hj.resolve_right hold))⟩
      | _ => exact absurd hj hold

/-- Fetched once, and one token from then on. -/
theorem places_le_one (c : State) (h : ((runs reg).restrict (Smooth reg)).Reachable c) (j : JobId) (g : GroupId)
    (hj : (j, g) ∈ enqueued c.log) : places j g c ≤ 1 := by
  have hfresh : ∀ c l, Smooth reg c l → Fresh reg c l := fun _ _ h => h.fresh
  have hnodup := fresh_nodup hfresh h
  have hlisted := fetched_le hfresh h j g
  have hone : (enqueued c.log).count (j, g) ≤ 1 := List.nodup_iff_count_le_one.mp hnodup.of_map _
  have hfetched : (fetched c.log).countP (·.1 = j) ≤ (fetched c.log).count (j, g) := by
    refine List.countP_mono_left fun x hx hxj => ?_
    have hxE : x ∈ enqueued c.log :=
      List.count_pos_iff.mp ((List.count_pos_iff.mpr hx).trans_le
        (le_trans (Nat.le_add_left _ _) (fetched_le hfresh h x.1 x.2)))
    obtain ⟨k, g'⟩ := x
    obtain rfl : k = j := of_decide_eq_true hxj
    rw [group_unique hnodup hxE hj]
    exact beq_self_eq_true _
  have htokens : tokens false j c ≤ (fetched c.log).countP (·.1 = j) := by
    have h₀ : tokens false j initialState ≤ (fetched initialState.log).countP (·.1 = j) := Nat.le_refl 0
    have hr := h.enrich fun c h => identity_reachable (fun _ _ h => h.own) h
    exact (token_account (fun _ _ h => h.own) (fun _ _ h => h.noRetry) (fun _ _ h => h.punctual) false j).le_minted h₀ hr
  rw [places_eq]
  omega

theorem places_eq_one (c : State) (h : ((runs reg).restrict (Smooth reg)).Reachable c) (j : JobId) (g : GroupId)
    (hj : (j, g) ∈ enqueued c.log) : places j g c = 1 := by
  obtain ⟨ph, hat⟩ := at_of_enqueued c h j g hj
  have hpos : count j g c ph ≤ places j g c := Core.Program.hold_le_sum (count j g c) ph.mem_all
  have := count_pos.mpr hat
  have := places_le_one c h j g hj
  omega

/-- What was recorded is on the list of a group. -/
theorem recorded_iff {H : State → Label → Prop} {c : State} (h : ((runs reg).restrict H).Reachable c) (j : JobId) :
    0 < (recorded c.log).countP (·.1 = j) ↔ ∃ g, ∃ r ∈ c.world.groupJobResults g, r.jobId = j := by
  have hb := books_reachable h
  rw [List.countP_pos_iff]
  constructor
  · rintro ⟨⟨k, g⟩, hx, hk⟩
    obtain rfl : k = j := of_decide_eq_true hk
    have hmem : (k, g) ∈ (c.world.groupJobResults g).map fun r => (r.jobId, r.groupId) := by
      rw [hb.results g, List.mem_reverse]
      exact List.mem_filter.mpr ⟨hx, decide_eq_true rfl⟩
    obtain ⟨r, hr, he⟩ := List.mem_map.mp hmem
    exact ⟨g, r, hr, congrArg Prod.fst he⟩
  · rintro ⟨g, r, hr, rfl⟩
    have hmem : (r.jobId, r.groupId) ∈ ((recorded c.log).filter (·.2 = g)).reverse :=
      hb.results g ▸ List.mem_map.mpr ⟨r, hr, rfl⟩
    exact ⟨_, List.mem_of_mem_filter (List.mem_reverse.mp hmem), decide_eq_true rfl⟩

/-- In every smooth run every submitted job is in exactly one place, and recorded
exactly when its result is on the list of a group. -/
theorem one_place (c : State) (h : ((runs reg).restrict (Smooth reg)).Reachable c) (j : JobId) (g : GroupId)
    (hj : (j, g) ∈ enqueued c.log) :
    places j g c = 1 ∧ (At j g c .recorded ↔ ∃ g', ∃ r ∈ c.world.groupJobResults g', r.jobId = j) := by
  refine ⟨places_eq_one c h j g hj, ?_⟩
  rw [← count_pos, ← recorded_iff h]
  rfl

/-- From any state of a smooth run to any later one every submitted job goes
along the edges, from the one phase it is in to the one phase it is in. -/
theorem lifecycle (c c' : State) (h : ((runs reg).restrict (Smooth reg)).Reachable c)
    (hs : ((runs reg).restrict (Smooth reg)).Steps c c') (j : JobId) (g : GroupId) (hj : (j, g) ∈ enqueued c.log) :
    ∃ ph ph', (∀ q, At j g c q ↔ q = ph) ∧ (∀ q, At j g c' q ↔ q = ph') ∧ Relation.ReflTransGen Leads ph ph' := by
  have hone : ∀ {c}, ((runs reg).restrict (Smooth reg)).Reachable c → (j, g) ∈ enqueued c.log → ∀ {ph},
      At j g c ph → ∀ q, At j g c q ↔ q = ph := by
    intro c h hj ph hat q
    exact ⟨fun hq => at_unique (places_eq_one c h j g hj) hq hat, fun hq => hq ▸ hat⟩
  obtain ⟨ph, hat⟩ := at_of_enqueued c h j g hj
  have hpath : (j, g) ∈ enqueued c'.log ∧ ∃ ph', At j g c' ph' ∧ Relation.ReflTransGen Leads ph ph' := by
    induction hs with
    | refl => exact ⟨hj, ph, hat, .refl⟩
    | tail hsteps hstep ih =>
      obtain ⟨hj', ph', hat', hp⟩ := ih
      obtain ⟨l, hl, hsmooth⟩ := hstep
      obtain ⟨ph'', hlead, hat''⟩ := at_step (h.steps hsteps) hl hsmooth hj' hat'
      exact ⟨mem_enqueued_step hl hj', ph'', hat'', hp.trans hlead.to_reflTransGen⟩
  obtain ⟨hj', ph', hat', hp⟩ := hpath
  exact ⟨ph, ph', hone h hj hat, hone (h.steps hs) hj' hat', hp⟩

end

/-- The first worker stops while it processes the job; recovery puts the job back
and the next worker gets its result recorded. -/
def stopped : List Label :=
  oneJob ++ processed 2 3 ++ [.stop 2, .spawn .recoverOnce, runAt 3 50003] ++ processed 4 50005 ++ runsAt 4 50006 2

theorem one_place_stopped : ∃ c : State,
    places "j" "g" c = 1 ∧ ∃ g', ∃ r ∈ c.world.groupJobResults g', r.jobId = "j" := by
  obtain ⟨c, hr, hP⟩ := Core.Program.exists_of_replay (S := pipeline {})
    (P := fun c : State => decide (("j", "g") ∈ enqueued c.log ∧ "j" ∈ (recorded c.log).map Prod.fst))
    (show ((pipeline {}).replay (fun c l => decide (Smooth {} c l)) initialState stopped).any _ = true by
      decide +kernel)
  have hr' : ((runs {}).restrict (Smooth {})).Reachable c :=
    Core.LTS.Reachable.weaken (fun _ _ h => of_decide_eq_true h) hr
  obtain ⟨hj, hrec⟩ := of_decide_eq_true hP
  obtain ⟨hone, hiff⟩ := one_place c hr' "j" "g" hj
  exact ⟨c, hone, hiff.mp (.inl hrec)⟩

/-- The step of the recovery. -/
theorem lifecycle_recovered : ∃ c c' : State, At "j" "g" c .inFlight ∧ At "j" "g" c' .ready ∧
    ∃ ph ph', (∀ q, At "j" "g" c q ↔ q = ph) ∧ (∀ q, At "j" "g" c' q ↔ q = ph') ∧ Relation.ReflTransGen Leads ph ph' := by
  obtain ⟨c, c', hr, hs, hP⟩ := Core.Program.exists_step_of_replay (S := pipeline {}) (l := runAt 3 50003)
    (P := fun c c' => decide (("j", "g") ∈ enqueued c.log ∧ Smooth {} c (runAt 3 50003) ∧
      "j" ∈ c.world.inFlightQueue ∧ "j" ∈ c'.world.readyQueue))
    (show ((pipeline {}).replay (fun c l => decide (Smooth {} c l)) initialState
      (oneJob ++ processed 2 3 ++ [.stop 2, .spawn .recoverOnce])).any _ = true by decide +kernel)
  have hr' : ((runs {}).restrict (Smooth {})).Reachable c :=
    Core.LTS.Reachable.weaken (fun _ _ h => of_decide_eq_true h) hr
  obtain ⟨hj, hsmooth, hflight, hready⟩ := of_decide_eq_true hP
  exact ⟨c, c', .inl hflight, .inl hready, lifecycle c c' hr' (.single ⟨_, hs, hsmooth⟩) "j" "g" hj⟩

end NestPlayground.L5.Lifecycle
