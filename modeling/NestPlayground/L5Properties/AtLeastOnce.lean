import NestPlayground.L4Pipeline.Books
import NestPlayground.L4Pipeline.Tokens

/-!
# At least once

From the time it is handed to a worker until its result is on the list of its
group, a job has to be in one of the four queues, so that a worker may fail at
any point. The ticks break this between the ack or nack, which takes the job
out of flight, and the call that puts it somewhere else: recording the result,
parking the job or dead-lettering it (`Duty.loose`). A job lost there is lost
for good (`lost_between_ack_and_record`). In runs in which no process stops and
no call rejects just there, every job stays in a queue or in the hands of a
running tick that is about to put it somewhere.
-/
namespace NestPlayground.L5.AtLeastOnce
open L1 L3 L4

/-- The job of a duty that is in no queue. -/
def loose : Duty → Option JobId
  | .park j => some j
  | .bury j _ => some j
  | .report j _ => some j
  | _ => none

/-- Activity `i` carries no job that is in no queue. -/
def Settled (c : State) (i : Nat) : Prop := ∀ p ∈ c.procs[i]?, ∀ d ∈ duties p, loose d = none

/-- The jobs with a result recorded for the group they were enqueued to. -/
def counted (log : Log) : List JobId := ((recorded log).filter (· ∈ enqueued log)).map Prod.fst

/-- The dead letters a call removes. -/
def removed (w : Store) : Cmd → List DeadLetterEntry
  | .dlqPopHead => w.deadLetterQueue.take 1
  | .dlqDelete => w.deadLetterQueue
  | _ => []

/-- Ids are nonempty (the empty id is taken for a missing hash), processors
answer with their job's ids, and dead letters are removed only once the failure
is recorded. -/
def Orderly (reg : Registry) (c : State) (l : Label) : Prop :=
  Answers Own reg c l ∧
  onCalls reg (fun _ _ cmd _ => ∀ x ∈ enqueues cmd, x.1 ≠ "") c l ∧
  onCalls reg (fun c _ cmd _ => ∀ e ∈ removed c.world cmd, e.jobId ∈ counted c.log) c l

/-- No activity stops, and no call rejects, while it carries such a job. -/
def Careful (c : State) : Label → Prop
  | .stop i => Settled c i
  | .reject i => Settled c i
  | _ => True

theorem careful_of_faultless {c : State} {l : Label} (h : Faultless l) : Careful c l := by
  cases l with
  | stop | reject => exact h.elim
  | run | spawn | env => trivial

instance (c : State) (i : Nat) : Decidable (Settled c i) :=
  inferInstanceAs (Decidable (∀ p ∈ c.procs[i]?, ∀ d ∈ duties p, loose d = none))

instance (reg : Registry) (c : State) (l : Label) : Decidable (Orderly reg c l) :=
  @instDecidableAnd _ _ inferInstance (@instDecidableAnd _ _
    (instDecidableOnCalls reg (fun _ _ cmd _ => ∀ x ∈ enqueues cmd, x.1 ≠ "") c l)
    (instDecidableOnCalls reg (fun c _ cmd _ => ∀ e ∈ removed c.world cmd, e.jobId ∈ counted c.log) c l))

instance (c : State) (l : Label) : Decidable (Careful c l) :=
  match l with
  | .stop i => inferInstanceAs (Decidable (Settled c i))
  | .reject i => inferInstanceAs (Decidable (Settled c i))
  | .run _ _ | .spawn _ | .env _ => isTrue trivial

/-- The result of `j` is on the list of its group. -/
def Recorded (j : JobId) (c : State) : Prop :=
  ∃ g, (j, g) ∈ enqueued c.log ∧ ∃ r ∈ c.world.groupJobResults g, r.jobId = j

/-- Activity `i` is a tick that has taken `j` out of flight and has still to put
it somewhere. -/
def InHand (j : JobId) (c : State) (i : Nat) : Prop :=
  ∃ t, c.procs[i]? = some (.tick t) ∧ ∃ d ∈ tickDuties t, loose d = some j

/-- In one of the four queues. -/
def Present (j : JobId) (w : Store) : Prop :=
  j ∈ w.readyQueue ∨ j ∈ w.nonReadyQueue ∨ j ∈ w.inFlightQueue ∨ ∃ e ∈ w.deadLetterQueue, e.jobId = j

section
variable {reg : Registry} {E : List (JobId × GroupId)} {cmd : Cmd} {r : Reply cmd} {inp : Input} {s : Store}
  {ds ds' : List Duty} {j : JobId}

/-- Where a job shows: the four queues, or its result. -/
def place (j : JobId) (w : Store) (log : Log) : Nat :=
  queued j w + w.deadLetterQueue.countP (·.jobId = j) + (counted log).count j

def hold (j : JobId) (ds : List Duty) : Nat := ds.countP fun d => loose d = some j

theorem queued_pos : 0 < queued j s ↔ j ∈ s.readyQueue ∨ j ∈ s.nonReadyQueue ∨ j ∈ s.inFlightQueue := by
  simp only [queued, Core.ZSet.count_members]
  constructor
  · intro h
    by_contra hn
    simp only [not_or] at hn
    rw [List.count_eq_zero_of_not_mem hn.1, if_neg hn.2.1, if_neg hn.2.2] at h
    omega
  · rintro (h | h | h)
    · have := List.count_pos_iff.mpr h
      omega
    · rw [if_pos h]
      omega
    · rw [if_pos h]
      omega

/-- What is counted stays counted. -/
theorem counted_mono {e : Core.Entry Reply} {log : Log} (h : j ∈ counted log) : j ∈ counted (e :: log) := by
  obtain ⟨i, cmd, r⟩ := e
  obtain ⟨x, hx, rfl⟩ := List.mem_map.mp h
  obtain ⟨hr, hE⟩ := List.mem_filter.mp hx
  refine List.mem_map.mpr ⟨x, List.mem_filter.mpr ⟨?_, ?_⟩, rfl⟩
  · rw [recorded_cons]
    exact List.mem_append_right _ hr
  · exact decide_eq_true (mem_enqueued_cons (of_decide_eq_true hE))

/-- In a queue, or counted. -/
def Shown (j : JobId) (w : Store) (log : Log) : Prop := Present j w ∨ j ∈ counted log

theorem place_pos {log : Log} : 0 < place j s log ↔ Shown j s log := by
  have h1 := @queued_pos s j
  have h2 : 0 < s.deadLetterQueue.countP (·.jobId = j) ↔ ∃ e ∈ s.deadLetterQueue, e.jobId = j := by
    rw [List.countP_pos_iff]
    simp only [decide_eq_true_eq]
  have h3 : 0 < (counted log).count j ↔ j ∈ counted log := List.count_pos_iff
  unfold Shown Present
  rw [← h2, ← h3, ← or_assoc, ← or_assoc, or_assoc (a := j ∈ s.readyQueue), ← h1]
  unfold place
  omega

theorem hold_pos : 0 < hold j ds ↔ ∃ d ∈ ds, loose d = some j := by
  unfold hold
  rw [List.countP_pos_iff]
  simp only [decide_eq_true_eq]

theorem hold_eq_zero (h : ∀ d ∈ ds, loose d = none) : hold j ds = 0 := by
  refine List.countP_eq_zero.mpr fun d hd => ?_
  simp [h d hd]

theorem delivered_inFlight (h : delivers cmd (exec reg cmd inp s).2 = some j) :
    j ∈ (exec reg cmd inp s).1.inFlightQueue := by
  cases cmd with
  | reliableDequeue w i n g =>
    simp only [exec, L2.reliableDequeue] at h ⊢
    split at h
    · cases h
    · cases h
      exact Core.ZSet.mem_zadd.mpr (.inl rfl)
  | _ => cases h

/-- A job in flight stays there until its ack or nack, or becomes an orphan that
is requeued or dead-lettered. -/
theorem inFlight_stays (hack : ∀ k ∈ returns cmd, k ≠ j) (h : j ∈ s.inFlightQueue) :
    Present j (exec reg cmd inp s).1 := by
  by_cases hf : flights cmd = true
  · cases cmd with
    | reliableDequeue w i n g =>
      simp only [exec, L2.reliableDequeue]
      split
      · exact .inr (.inr (.inl h))
      · exact .inr (.inr (.inl (Core.ZSet.mem_zadd.mpr (.inr h))))
    | reliableAck k => exact .inr (.inr (.inl (Core.ZSet.mem_zrem.mpr ⟨h, (hack k rfl).symm⟩)))
    | extendDeadline k =>
      simp only [exec, L2.extendDeadline]
      split
      · exact .inr (.inr (.inl (Core.ZSet.mem_zadd.mpr (.inr h))))
      · exact .inr (.inr (.inl h))
    | recoverOrphans =>
      obtain ⟨dead, jobs, he, -, hd, -⟩ := L2.recoverOrphans_spec inp.now
        reg.config.reliableQueue.maxRetryCount reg.config.reliableQueue.orphanRecoveryBatchSize s
      simp only [exec, he]
      by_cases hb : j ∈ s.inFlightQueue.rangeByScore inp.now reg.config.reliableQueue.orphanRecoveryBatchSize
      · -- an orphan is requeued or dead-lettered
        rcases Nat.lt_or_ge (L2.orphanRetryCount s j) reg.config.reliableQueue.maxRetryCount with hlt | hle
        · exact .inl (List.mem_append_right _ ((L2.mem_requeued _).mpr ⟨hb, hlt⟩))
        · have hmem := (L2.mem_deadLettered reg.config.reliableQueue.maxRetryCount
            (x := (j, L2.orphanGroupId s j))).mpr ⟨hb, hle, rfl⟩
          rw [← hd] at hmem
          obtain ⟨e, he', hej⟩ := List.mem_map.mp hmem
          exact .inr (.inr (.inr ⟨e, List.mem_append_right _ he', congrArg Prod.fst hej⟩))
      · exact .inr (.inr (.inl (Core.ZSet.mem_foldl_zrem.mpr ⟨h, hb⟩)))
    | _ => cases hf
  · refine .inr (.inr (.inl ?_))
    rw [(flight_frame (eq_false_of_ne_true hf)).1]
    exact h

/-- Dead letters go by their removal only. -/
theorem deadLetters_stay {e : DeadLetterEntry} (h : e ∈ s.deadLetterQueue) :
    e ∈ (exec reg cmd inp s).1.deadLetterQueue ∨ e ∈ removed s cmd := by
  by_cases hb : buries cmd = true
  · cases cmd with
    | recoverOrphans =>
      obtain ⟨dead, jobs, he, -⟩ := L2.recoverOrphans_spec inp.now
        reg.config.reliableQueue.maxRetryCount reg.config.reliableQueue.orphanRecoveryBatchSize s
      simp only [exec, he]
      exact .inl (List.mem_append_left _ h)
    | deadLetter | dlqAppend => exact .inl (List.mem_append_left _ h)
    | dlqPopHead =>
      rw [← List.take_append_drop 1 s.deadLetterQueue, List.drop_one] at h
      exact (List.mem_append.mp h).symm
    | dlqDelete => exact .inr h
    | _ => cases hb
  · rw [deadLetters_frame (eq_false_of_ne_true hb)]
    exact .inl h

/-- A job in a queue stays in one, but for an ack or nack and the removal of
dead letters. -/
theorem present_exec (hack : ∀ k ∈ returns cmd, k ≠ j) (h : Present j s) :
    Present j (exec reg cmd inp s).1 ∨ ∃ e ∈ removed s cmd, e.jobId = j := by
  rcases h with h | h | h | ⟨e, h, hj⟩
  · left
    rcases @ready_stays reg cmd inp s j h with h | h
    · exact .inl h
    · exact .inr (.inr (.inl (delivered_inFlight h)))
  · left
    rcases @nonReady_stays reg cmd inp s j h with h | h
    · exact .inl h
    · exact .inr (.inl h)
  · exact .inl (inFlight_stays hack h)
  · rcases @deadLetters_stay reg cmd inp s e h with h | h
    · exact .inl (.inr (.inr (.inr ⟨e, h, hj⟩)))
    · exact .inr ⟨e, h, hj⟩

theorem carries_of_returns {k : JobId} (h : k ∈ returns cmd) : carries cmd = true := by
  cases cmd <;> first | rfl | cases h

/-- One call keeps a job in a queue, in the hands of its caller, or counted. -/
theorem shown_step {i : Nat} {log : Log} (hm : Moves reg (enqueued log) cmd r ds ds')
    (hr : (exec reg cmd inp s).2 = r) (hj : j ≠ "")
    (hrem : ∀ e ∈ removed s cmd, e.jobId ∈ counted log)
    (h : Shown j s log ∨ (∃ d ∈ ds, loose d = some j) ∨ delivers cmd r = some j) :
    Shown j (exec reg cmd inp s).1 (⟨i, cmd, r⟩ :: log) ∨ ∃ d ∈ ds', loose d = some j := by
  rcases h with (h | h) | ⟨d, hd, hl⟩ | h
  · by_cases hk : ∀ k ∈ returns cmd, k ≠ j
    · rcases @present_exec reg cmd inp s j hk h with h | ⟨e, he, rfl⟩
      · exact .inl (.inl h)
      · exact .inl (.inr (counted_mono (hrem e he)))
    · -- its ack or nack: the caller has it now
      push Not at hk
      obtain ⟨k, hk, rfl⟩ := hk
      right
      cases hm with
      | acked | nacked | nackedOut =>
        cases hk
        exact ⟨_, List.mem_cons_self, rfl⟩
      | cleaned =>
        cases hk
        exact absurd rfl hj
      | idle hc | abandoned hc =>
        rw [carries_of_returns hk] at hc
        cases hc
      | _ => cases hk
  · exact .inl (.inr (counted_mono h))
  · cases hm with
    | idle => exact .inr ⟨d, hd, hl⟩
    | abandoned =>
      obtain ⟨x, -, rfl⟩ := List.mem_map.mp hd
      cases hl
    | parked | parkedFixed =>
      rw [List.mem_singleton.mp hd] at hl
      cases hl
      exact .inl (.inl (.inr (.inl (Core.ZSet.mem_zadd.mpr (.inl rfl)))))
    | buried =>
      rw [List.mem_singleton.mp hd] at hl
      cases hl
      exact .inl (.inl (.inr (.inr (.inr ⟨_, List.mem_append_right _ List.mem_cons_self, rfl⟩))))
    | @reported x b hE =>
      rw [List.mem_singleton.mp hd] at hl
      cases hl
      refine .inl (.inr (List.mem_map.mpr ⟨(x.jobId, x.groupId), List.mem_filter.mpr ⟨?_, ?_⟩, rfl⟩))
      · rw [recorded_cons]
        exact List.mem_cons_self
      · exact decide_eq_true (mem_enqueued_cons hE)
    | recorded | settled =>
      rcases List.mem_cons.mp hd with rfl | hd
      · cases hl
      · first
          | exact .inr ⟨d, List.mem_cons_of_mem _ hd, hl⟩
          | exact .inr ⟨d, hd, hl⟩
    | nothing | fetched | idling | delivered | recovered => cases hd
    | refused | pushed | backedOff | backedOffFixed | cleaned | acked | nacked | nackedOut =>
      rw [List.mem_singleton.mp hd] at hl
      cases hl
  · cases hm with
    | @delivered w i n g k d =>
      cases h
      refine .inl (.inl (.inr (.inr (.inl ?_))))
      simp only [exec, L2.reliableDequeue] at hr ⊢
      split at hr
      · cases hr
      · cases hr
        exact Core.ZSet.mem_zadd.mpr (.inl rfl)
    | idle hc | abandoned hc => cases cmd <;> first | cases h | cases hc
    | _ => cases h

end

section
variable {reg : Registry}

/-- What is handed out was enqueued, under a nonempty id. -/
theorem delivered_known {H : State → Label → Prop} (hH : ∀ c l, H c l → Orderly reg c l) {c : State}
    (h : ((runs reg).restrict H).Reachable c) :
    (∀ x ∈ enqueued c.log, x.1 ≠ "") ∧ ∀ x ∈ delivered c.log, Known (enqueued c.log) x.1 := by
  have L : Core.Program.Ledgered (pipeline reg) (fun c l => H c l ∧ Identified (enqueued c.log) c.world)
      fun _ log => (∀ x ∈ enqueued log, x.1 ≠ "") ∧ ∀ x ∈ delivered log, Known (enqueued log) x.1 := by
    refine ⟨?_, fun _ h => h⟩
    intro c i inp p cmd ok err hinv hp hv hstep
    obtain ⟨hne, hI⟩ := hinv
    obtain ⟨hH', hid⟩ := hstep
    have hcall := onCalls_run (hH _ _ hH').2.1 hp hv
    have htrue := @truthful_exec reg (fun _ _ _ => True) _ cmd inp _ hid (fun _ _ => trivial)
    refine ⟨fun x hx => ?_, fun x hx => ?_⟩
    · rw [enqueued_cons, List.mem_append, Option.mem_toList] at hx
      exact hx.elim (hcall x) (hne x)
    · rw [delivered_cons, List.mem_append, Option.mem_toList] at hx
      rcases hx with hx | hx
      · cases cmd with
        | reliableDequeue w i' n g =>
          have hx : x ∈ (delivers _ (exec reg (.reliableDequeue w i' n g) inp c.world).2).map (·, i) := hx
          cases hrep : (exec reg (.reliableDequeue w i' n g) inp c.world).2 with
          | none =>
            rw [hrep] at hx
            cases hx
          | some y =>
            rw [hrep] at hx htrue
            cases hx
            exact htrue.mono fun y hy => mem_enqueued_cons hy
        | _ => cases hx
      · exact (hI x hx).mono fun y hy => mem_enqueued_cons hy
  have hr := h.enrich fun c h => (identity_reachable (fun c l _ => answers_true reg c l) h).1
  have h₀ : (∀ x ∈ enqueued initialState.log, x.1 ≠ "") ∧
      ∀ x ∈ delivered initialState.log, Known (enqueued initialState.log) x.1 :=
    ⟨fun x hx => (by cases hx), fun x hx => (by cases hx)⟩
  exact (L.inductive h₀).reachable c hr

theorem presence (j : JobId) (hj : j ≠ "") :
    Core.Program.Presence (pipeline reg)
      (fun c l => (Orderly reg c l ∧ Careful c l) ∧ Identified (enqueued c.log) c.world ∧
        ∀ (i : Nat) p, c.procs[i]? = some p → Sound Own (enqueued c.log) p)
      (place j) (fun p => hold j (duties p)) fun log => j ∈ (delivered log).map Prod.fst where
  run := by
    intro c i inp p cmd ok err hp hv hstep hbefore hdue
    obtain ⟨⟨hord, _⟩, hid, hs⟩ := hstep
    have hmoves := moves_of_run (hs i p hp) hv hid (onCalls_run hord.1 hp hv)
    have hdel : Shown j c.world c.log ∨ (∃ d ∈ duties p, loose d = some j) ∨
        delivers cmd (exec reg cmd inp c.world).2 = some j := by
      simp only [Core.Program.ran, delivered_cons, List.map_append, List.mem_append] at hdue
      rcases hdue with hdue | hdue
      · refine .inr (.inr ?_)
        simp only [List.mem_map, Option.mem_toList, Option.map_eq_some_iff] at hdue
        obtain ⟨x, ⟨k, hk, rfl⟩, rfl⟩ := hdue
        exact hk
      · rw [← place_pos, ← hold_pos, ← or_assoc]
        exact .inl (Nat.add_pos_iff_pos_or_pos.mp (hbefore hdue))
    have := @shown_step reg cmd _ inp c.world _ _ j i c.log hmoves rfl hj (onCalls_run hord.2.2 hp hv) hdel
    rw [← place_pos, ← hold_pos] at this
    simp only [Core.Program.ran]
    exact Nat.add_pos_iff_pos_or_pos.mpr this
  reject := by
    intro c i p cmd ok err hp hv hstep
    obtain ⟨⟨_, hcare⟩, _⟩ := hstep
    rw [hold_eq_zero (hcare p hp)]
    exact Nat.zero_le _
  stop := by
    intro c i p hp hstep
    obtain ⟨⟨_, hcare⟩, _⟩ := hstep
    exact hold_eq_zero (hcare p hp)
  env := by
    intro w log e
    cases e <;> exact le_refl _

/-- Only ticks carry jobs that are in no queue. -/
theorem tick_of_hold {j : JobId} {p : Proc} (h : 0 < hold j (duties p)) :
    ∃ t, p = .tick t ∧ ∃ d ∈ tickDuties t, loose d = some j := by
  obtain ⟨d, hd, hl⟩ := hold_pos.mp h
  have hpairs : ∀ pairs, d ∉ pairDuties pairs := by
    intro pairs hm
    obtain ⟨x, -, rfl⟩ := List.mem_map.mp hm
    cases hl
  cases p with
  | tick t => exact ⟨t, rfl, d, hd, hl⟩
  | fetch p =>
    cases p with
    | admission n p =>
      rw [List.mem_singleton.mp hd] at hl
      cases hl
    | hasCapacity | dequeue => cases hd
  | recovery p =>
    cases p with
    | script => cases hd
    | record | ack =>
      rcases List.mem_cons.mp hd with rfl | hd
      · cases hl
      · exact absurd hd (hpairs _)
    | finalize => exact absurd hd (hpairs _)
  | _ => cases hd

theorem recorded_of_counted {H : State → Label → Prop} {j : JobId} {c : State}
    (h : ((runs reg).restrict H).Reachable c) (hj : j ∈ counted c.log) : Recorded j c := by
  obtain ⟨⟨j', g⟩, hx, rfl⟩ := List.mem_map.mp hj
  obtain ⟨hrec, hE⟩ := List.mem_filter.mp hx
  have hmem : (j', g) ∈ (c.world.groupJobResults g).map fun r => (r.jobId, r.groupId) := by
    rw [(books_reachable h).results g, List.mem_reverse]
    exact List.mem_filter.mpr ⟨hrec, decide_eq_true rfl⟩
  obtain ⟨r, hr, he⟩ := List.mem_map.mp hmem
  exact ⟨g, of_decide_eq_true hE, r, hr, congrArg Prod.fst he⟩

/-- A job that was handed out is recorded, in a queue or carried by a tick. -/
theorem delivered_somewhere {c : State}
    (h : ((runs reg).restrict fun c l => Orderly reg c l ∧ Careful c l).Reachable c) {j : JobId}
    (hj : j ∈ (delivered c.log).map Prod.fst) : Recorded j c ∨ Present j c.world ∨ ∃ i, InHand j c i := by
  obtain ⟨hne, hknown⟩ := delivered_known (fun _ _ h => h.1) h
  obtain ⟨x, hx, rfl⟩ := List.mem_map.mp hj
  obtain ⟨g, hg⟩ := hknown x hx
  have hr := h.enrich fun c h => identity_reachable (fun _ _ h => h.1.1) h
  have h₀ : x.1 ∈ (delivered initialState.log).map Prod.fst →
      0 < Core.Program.total (place x.1) (fun p => hold x.1 (duties p)) initialState := fun hd => (by cases hd)
  have hpos := (@presence reg x.1 (hne _ hg)).present h₀ hr hj
  by_cases hplace : place x.1 c.world c.log = 0
  · obtain ⟨p, hp, hhold⟩ := Core.Program.exists_holder hpos hplace
    obtain ⟨t, rfl, ht⟩ := tick_of_hold hhold
    obtain ⟨i, hi⟩ := List.mem_iff_getElem?.mp hp
    exact .inr (.inr ⟨i, t, hi, ht⟩)
  · rcases place_pos.mp (Nat.pos_of_ne_zero hplace) with hpres | hcount
    · exact .inr (.inl hpres)
    · exact .inl (recorded_of_counted h hcount)

/-- In every orderly run in which nothing fails while a tick carries a job that
is in no queue: a job that was handed out is recorded, in one of the four
queues, or carried by a running tick; and when a tick fails, the jobs no other
tick carries are recorded or in one of the four queues. -/
theorem at_least_once (c : State)
    (h : ((runs reg).restrict fun c l => Orderly reg c l ∧ Careful c l).Reachable c) :
    (∀ j ∈ (delivered c.log).map Prod.fst, Recorded j c ∨ Present j c.world ∨ ∃ i, InHand j c i) ∧
    ∀ i l c', l = .stop i ∨ l = .reject i → (pipeline reg).Step c l c' → Careful c l →
      ∀ j ∈ (delivered c.log).map Prod.fst, (∀ k, k ≠ i → ¬ InHand j c k) → Recorded j c' ∨ Present j c'.world := by
  have hall : ∀ j ∈ (delivered c.log).map Prod.fst, Recorded j c ∨ Present j c.world ∨ ∃ i, InHand j c i :=
    fun _ hj => delivered_somewhere h hj
  refine ⟨hall, fun i l c' hl hs hcare j hj hother => ?_⟩
  have hsettled : Settled c i := by
    rcases hl with rfl | rfl <;> exact hcare
  have hsame : c'.world = c.world ∧ c'.log = c.log := by
    rcases hl with rfl | rfl <;> cases hs <;> exact ⟨rfl, rfl⟩
  rcases hall j hj with hrec | hpres | ⟨k, t, hk, d, hd, hld⟩
  · left
    unfold Recorded at hrec ⊢
    rw [hsame.1, hsame.2]
    exact hrec
  · right
    rw [hsame.1]
    exact hpres
  · rcases eq_or_ne k i with rfl | hne
    · have := hsettled _ hk d hd
      rw [hld] at this
      cases this
    · exact absurd ⟨t, hk, d, hd, hld⟩ (hother k hne)

end

/-- A worker that stops while it processes the job leaves it in flight. -/
theorem at_least_once_one_job :
    ∃ c c', (pipeline {}).Step c (.stop 2) c' ∧ "j" ∈ (delivered c.log).map Prod.fst ∧
      (Recorded "j" c' ∨ Present "j" c'.world) := by
  obtain ⟨c, c', hr, hs, hP⟩ := Core.Program.exists_step_of_replay (S := pipeline {}) (l := .stop 2)
    (P := fun c _ => decide ("j" ∈ (delivered c.log).map Prod.fst ∧ Careful c (.stop 2) ∧
      ∀ p ∈ c.procs, ∀ d ∈ duties p, loose d = none))
    (show ((pipeline {}).replay (fun c l => decide (Orderly {} c l ∧ Careful c l)) initialState
      (oneJob ++ processed 2 3)).any _ = true by decide +kernel)
  have hr' : ((runs {}).restrict fun c l => Orderly {} c l ∧ Careful c l).Reachable c :=
    Core.LTS.Reachable.weaken (fun _ _ h => of_decide_eq_true h) hr
  obtain ⟨hdel, hcare, hnone⟩ := of_decide_eq_true hP
  refine ⟨c, c', hs, hdel, (at_least_once c hr').2 2 _ c' (.inl rfl) hs hcare "j" hdel ?_⟩
  rintro k - ⟨t, hk, d, hd, hl⟩
  rw [hnone _ (List.mem_of_getElem? hk) d hd] at hl
  cases hl

/-- The worker stops after its ack, before it records the result: the job is
nowhere. -/
theorem lost_between_ack_and_record :
    ¬ ∀ (reg : Registry) (c : State), (runs reg).Reachable c → ∀ i l c', l = .stop i ∨ l = .reject i →
      (∃ t, c.procs[i]? = some (.tick t)) → (pipeline reg).Step c l c' →
      ∀ j ∈ (delivered c.log).map Prod.fst, Recorded j c' ∨ Present j c'.world := by
  intro h
  obtain ⟨c, c', hr, hs, hP⟩ := Core.Program.exists_step_of_replay (S := pipeline {}) (l := .stop 2)
    (P := fun c c' => decide ("j" ∈ (delivered c.log).map Prod.fst ∧ enqueued c'.log = [("j", "g")] ∧
      c'.world.groupJobResults "g" = [] ∧ "j" ∉ c'.world.readyQueue ∧ "j" ∉ c'.world.nonReadyQueue ∧
      "j" ∉ c'.world.inFlightQueue ∧ c'.world.deadLetterQueue = [] ∧
      c.procs[2]?.map Proc.service = some .tick))
    (show ((pipeline {}).replay (fun _ _ => true) initialState
      (oneJob ++ processed 2 3 ++ runsAt 2 3 1)).any _ = true by decide +kernel)
  obtain ⟨hdel, henq, hres, hready, hnon, hflight, hdlq, htick⟩ := of_decide_eq_true hP
  have ht : ∃ t, c.procs[2]? = some (.tick t) := by
    obtain ⟨p, hp, ht⟩ := Option.map_eq_some_iff.mp htick
    cases p with
    | tick t => exact ⟨t, hp⟩
    | _ => cases ht
  rcases h {} c hr.unrestrict 2 _ c' (.inl rfl) ht hs "j" hdel with ⟨g, hg, r, hr, -⟩ | h | h | h | ⟨e, he, -⟩
  · rw [henq, List.mem_singleton] at hg
    cases hg
    rw [hres] at hr
    cases hr
  · exact hready h
  · exact hnon h
  · exact hflight h
  · rw [hdlq] at he
    cases he

end NestPlayground.L5.AtLeastOnce
