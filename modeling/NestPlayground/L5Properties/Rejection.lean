import NestPlayground.Core.Sequential
import NestPlayground.L3Services.Admission

/-!
# What a rejected admission leaves behind

`BackpressureService.admit` between other parties that may do anything. The
effects of its own calls are noted (`Effect`). Rejected at the first test, it
has changed nothing; rejected by `ready-queue-push.lua`, it keeps the rate-limit
tokens that `rate-limit-check.lua` took and nobody gives back.
-/
namespace NestPlayground.L5.Rejection
open L1 L3

abbrev Effects := List (Core.Effect Cmd Store)

/-- A run of `admit` for `job` on the store `s`; others change the store by `rely`. -/
def Admits (reg : Registry) (rely : Store → Store → Prop) (job : Job) (s : Store) :
    List (Core.Answer Reply) → Store × Effects → Core.Next AdmitPc BackpressureResponse → Prop :=
  Core.Run (Core.recording (exec reg)) (Core.besides rely) (Core.Next.view (AdmitPc.view reg)) (s, [])
    (.goto (.hasCapacity job))

/-- The call left the counters, the set and the queues of the admission path as it found them. -/
structure Harmless (e : Core.Effect Cmd Store) : Prop where
  rateLimit : e.after.rateLimit = e.before.rateLimit
  activeGroups : e.after.activeGroups = e.before.activeGroups
  readyQueue : e.after.readyQueue = e.before.readyQueue
  nonReadyQueue : e.after.nonReadyQueue = e.before.nonReadyQueue
  congestionNonReadyCount : e.after.congestionNonReadyCount = e.before.congestionNonReadyCount
  congestionStats : e.after.congestionStats = e.before.congestionStats

/-- If the answer is REJECTED, none of the calls had an effect. -/
def RejectsFreely (answer : BackpressureResponse) (effects : Effects) : Prop :=
  ∀ reason, answer = .rejected reason → ∀ e ∈ effects, Harmless e

/-- When `admit` comes to push its job, the ready queue has room. -/
def RoomAtPush (reg : Registry) (job : Job) (effects : Effects) : Prop :=
  ∀ e ∈ effects, e.cmd = .readyQueuePush job.id →
    e.before.readyQueue.length < reg.config.backpressure.readyQueueMaxSize

instance (reg : Registry) (job : Job) (effects : Effects) : Decidable (RoomAtPush reg job effects) :=
  inferInstanceAs (Decidable (∀ e ∈ effects, _ → _))

/-- The rate-limit check let the job through: it took a token. -/
def Charged (reg : Registry) (job : Job) (e : Core.Effect Cmd Store) : Prop :=
  e.cmd = .rateLimitCheck job.groupId ∧ ∃ inp, e.after = (exec reg (.rateLimitCheck job.groupId) inp e.before).1 ∧
    (exec reg (.rateLimitCheck job.groupId) inp e.before).2.allowed = true

/-- The effects at each await and at each end of `admit`. -/
def Position (reg : Registry) (job : Job) (effects : Effects) : Core.Next AdmitPc BackpressureResponse → Prop
  | .goto (.hasCapacity j) => j = job ∧ effects = []
  | .goto (.checkRateLimit j) => j = job ∧ ∃ s, effects = [⟨.readyLength, s, s⟩]
  | .goto (.push j) => j = job ∧ ∃ s e, effects = [⟨.readyLength, s, s⟩, e] ∧ Charged reg job e
  | .goto (.addToNonReady _ _) => RoomAtPush reg job effects
  | .ret (.rejected _) => (∃ s, effects = [⟨.readyLength, s, s⟩]) ∨
    (∃ e ∈ effects, Charged reg job e) ∧ ¬ RoomAtPush reg job effects
  | .ret _ => RoomAtPush reg job effects
  | .throw => True

section
variable {reg : Registry} {rely : Store → Store → Prop} {job : Job} {s : Store}

/-- An allowed job raises the global counter. -/
theorem charged_counts {e : Core.Effect Cmd Store} (h : Charged reg job e) : ¬ Harmless e := by
  obtain ⟨-, inp, hafter, hallowed⟩ := h
  intro hf
  have hrate := hf.rateLimit
  rw [hafter] at hrate
  simp only [exec, L2.rateLimitCheck] at hrate hallowed
  split at hallowed
  · cases hallowed
  · split at hallowed
    · cases hallowed
    · rename_i hglobal hgroup
      rw [if_neg hglobal, if_neg hgroup] at hrate
      -- the group's counter is raised after the global one, so it cannot stay
      have hg := congrFun hrate (rateLimitGroup (keyPrefix reg) job.groupId (currentWindow reg inp.now))
      simp only [Function.update_self] at hg
      by_cases hk : rateLimitGroup (keyPrefix reg) job.groupId (currentWindow reg inp.now) =
          rateLimitGlobal (keyPrefix reg) (currentWindow reg inp.now)
      · rw [hk, Function.update_self] at hg
        omega
      · rw [Function.update_of_ne hk] at hg
        omega

theorem RoomAtPush.append {effects : Effects} (h : RoomAtPush reg job effects) {e : Core.Effect Cmd Store}
    (he : e.cmd = .readyQueuePush job.id → e.before.readyQueue.length < reg.config.backpressure.readyQueueMaxSize) :
    RoomAtPush reg job (effects ++ [e]) := by
  intro e' hmem
  rcases List.mem_append.mp hmem with hmem | hmem
  · exact h e' hmem
  · cases List.mem_singleton.mp hmem
    exact he

theorem roomAtPush_single {e : Core.Effect Cmd Store} (he : e.cmd ≠ .readyQueuePush job.id) :
    RoomAtPush reg job [e] := by
  intro e' hmem hcmd
  cases List.mem_singleton.mp hmem
  exact absurd hcmd he

/-- The triple of every await of `admit`. -/
theorem position_spec {effects : Effects} {x : Core.Next AdmitPc BackpressureResponse}
    (h : Position reg job effects x) :
    (Core.Next.view (AdmitPc.view reg) x).Spec (fun _ => True)
      (fun c r y => ∀ inp s, (exec reg c inp s).2 = r →
        Position reg job (effects ++ [⟨c, s, (exec reg c inp s).1⟩]) y)
      fun _ y => Position reg job effects y := by
  cases x with
  | ret | throw => trivial
  | goto p =>
    cases p with
    | hasCapacity j =>
      obtain ⟨rfl, rfl⟩ := h
      refine ⟨trivial, fun r inp s _ => ?_, trivial⟩
      simp only
      split
      · exact ⟨rfl, s, rfl⟩
      · exact .inl ⟨s, rfl⟩
    | checkRateLimit j =>
      obtain ⟨rfl, s₁, rfl⟩ := h
      refine ⟨trivial, fun r inp s hr => ?_, trivial⟩
      simp only
      split
      · rename_i hallowed
        exact ⟨rfl, s₁, _, rfl, rfl, inp, rfl, by rw [hr]; exact hallowed⟩
      · exact (roomAtPush_single fun he => by cases he).append fun he => by cases he
    | push j =>
      obtain ⟨rfl, s₁, e, rfl, hc⟩ := h
      refine ⟨trivial, fun r inp s hr => ?_, trivial⟩
      have hpush : decide (s.readyQueue.length < reg.config.backpressure.readyQueueMaxSize) = r := hr
      simp only
      split
      · rename_i hpushed
        have hbefore : RoomAtPush reg j [⟨.readyLength, s₁, s₁⟩, e] :=
          (roomAtPush_single fun he => by cases he).append fun he => by cases hc.1.symm.trans he
        exact hbefore.append fun _ => of_decide_eq_true (hpush.trans hpushed)
      · rename_i hfull
        refine .inr ⟨⟨e, by simp, hc⟩, fun hroom => hfull ?_⟩
        rw [← hpush]
        exact decide_eq_true (hroom _ (List.mem_append_right _ List.mem_cons_self) rfl)
    | addToNonReady rl p =>
      have h : RoomAtPush reg job effects := h
      cases p with
      | script j g => exact ⟨trivial, fun r inp s _ => h.append fun he => (by cases he), h⟩
      | fixedBackoff j => exact ⟨trivial, fun r inp s _ => h.append fun he => (by cases he), trivial⟩

theorem position_run {es : List (Core.Answer Reply)} {w : Store × Effects}
    {x : Core.Next AdmitPc BackpressureResponse} (h : Admits reg rely job s es w x) : Position reg job w.2 x := by
  induction h with
  | nil => exact ⟨rfl, rfl⟩
  | rely _ hw ih => rwa [hw.2]
  | call inp _ hv ih =>
    have hspec := position_spec ih
    rw [hv] at hspec
    exact hspec.2.1 _ inp _ rfl
  | rejection _ hv ih =>
    have hspec := position_spec ih
    rw [hv] at hspec
    exact hspec.2.2

end

/-- In every run of `admit` that answers, whatever the others do: it has no
effect of its own when it answers REJECTED, exactly if the ready queue has room
when it comes to push the job. -/
theorem rejected_admission (reg : Registry) (rely : Store → Store → Prop) (job : Job) (s : Store)
    (es : List (Core.Answer Reply)) (w : Store × Effects) (answer : BackpressureResponse)
    (h : Admits reg rely job s es w (.ret answer)) :
    RejectsFreely answer w.2 ↔ RoomAtPush reg job w.2 := by
  have hp := position_run h
  cases answer with
  | ready => exact iff_of_true nofun hp
  | nonReady => exact iff_of_true nofun hp
  | rejected reason =>
    rcases hp with ⟨s₁, he⟩ | ⟨⟨e, hmem, hc⟩, hfull⟩
    · -- rejected at the first test, which only reads
      rw [he]
      refine iff_of_true (fun _ _ e hmem => ?_) (roomAtPush_single fun he => by cases he)
      cases List.mem_singleton.mp hmem
      exact ⟨rfl, rfl, rfl, rfl, rfl, rfl⟩
    · exact iff_of_false (fun hfree => charged_counts hc (hfree reason rfl e hmem)) hfull

/-- Another producer pushes to the ready queue. -/
def pushes (reg : Registry) (s s' : Store) : Prop :=
  ∃ jobId, s' = (L2.readyQueuePush reg.config.backpressure.readyQueueMaxSize jobId s).1

/-- A ready queue for one job. -/
def oneSlot : Registry := { config := { backpressure := { readyQueueMaxSize := 1 } } }

def oneJob : Job := ⟨"j", "g", "SEND_EMAIL", "null", .pending, 0, 0⟩

theorem Admits.pushed {reg : Registry} {job : Job} {s : Store} {es : List (Core.Answer Reply)} {w : Store × Effects}
    {x : Core.Next AdmitPc BackpressureResponse} (h : Admits reg (pushes reg) job s es w x) (jobId : JobId) :
    Admits reg (pushes reg) job s es
      ((L2.readyQueuePush reg.config.backpressure.readyQueueMaxSize jobId w.1).1, w.2) x :=
  h.rely ⟨⟨jobId, rfl⟩, rfl⟩

theorem admits_start (reg : Registry) (rely : Store → Store → Prop) (job : Job) (s : Store) :
    Admits reg rely job s [] (s, []) (.goto (.hasCapacity job)) := .nil

/-- The queue is full from the start. -/
theorem rejected_admission_full : ∃ es w reason,
    Admits oneSlot (pushes oneSlot) oneJob { Store.empty with readyQueue := ["k"] } es w (.ret (.rejected reason)) ∧
      RejectsFreely (.rejected reason) w.2 := by
  have h := (admits_start oneSlot (pushes oneSlot) oneJob { Store.empty with readyQueue := ["k"] }).call {} rfl
  exact ⟨_, _, _, h, (rejected_admission oneSlot (pushes oneSlot) oneJob _ _ _ _ h).mpr (by decide +kernel)⟩

/-- Another job takes the last place after the check: the token is gone. -/
theorem rejected_after_check : ¬ ∀ (reg : Registry) (job : Job) (s : Store) (es : List (Core.Answer Reply))
    (w : Store × Effects) (answer : BackpressureResponse), Admits reg (pushes reg) job s es w (.ret answer) →
      RejectsFreely answer w.2 := by
  intro h
  have h₁ := (admits_start oneSlot (pushes oneSlot) oneJob .empty).call {} rfl
  have h₂ := h₁.call {} rfl
  have h₃ := (Admits.pushed h₂ "k").call {} rfl
  have hfree := h oneSlot oneJob .empty _ _ _ h₃ _ rfl _ (List.mem_append_left _ (List.mem_append_right _ List.mem_cons_self))
  have hcount := congrFun hfree.rateLimit "bulk-action:rate-limit:global:0"
  exact absurd hcount (by decide +kernel)

end NestPlayground.L5.Rejection
