import NestPlayground.L4Pipeline.Frames

/-!
# The size of the ready queue

`ready-queue-push.lua` tests the size and appends in one step. The dispatcher
tests it in one call and moves a whole batch in the next, and orphan recovery
and the dead-letter retries append without a test. The queue stays within its
maximum exactly as long as those three find room for all they append
(`ready_queue_bounded`).
-/
namespace NestPlayground.L5.Capacity
open L1 L3 L4

/-- The calls that append without a test. -/
def untested : Cmd → Bool
  | .moveToReady | .recoverOrphans | .readyAppend _ => true
  | _ => false

/-- They find room for all they append. -/
def FindsRoom (reg : Registry) : State → Label → Prop :=
  onCalls reg fun c _ cmd inp => untested cmd = true →
    c.world.readyQueue.length + (arrivals reg inp c.world cmd).length ≤ reg.config.backpressure.readyQueueMaxSize

instance (reg : Registry) (c : State) (l : Label) : Decidable (FindsRoom reg c l) :=
  instDecidableOnCalls reg _ c l

def Bounded (reg : Registry) (s : Store) : Prop :=
  s.readyQueue.length ≤ reg.config.backpressure.readyQueueMaxSize

section
variable {reg : Registry} {cmd : Cmd} {inp : Input} {s : Store}

theorem bounded_exec (h : Bounded reg s) : Bounded reg (exec reg cmd inp s).1 ↔
    s.readyQueue.length + (arrivals reg inp s cmd).length ≤ reg.config.backpressure.readyQueueMaxSize := by
  unfold Bounded at h ⊢
  rcases ready_cases reg cmd inp s with hr | ⟨j, hd, hr⟩
  · rw [hr, List.length_append]
  · -- a pop
    have harr : arrivals reg inp s cmd = [] := by
      cases cmd <;> first | rfl | cases hd
    have hlen := congrArg List.length hr
    rw [List.length_cons] at hlen
    rw [harr, List.length_nil]
    omega

/-- The other calls keep the bound by themselves. -/
theorem room_of_tested (h : Bounded reg s) (ht : untested cmd = false) :
    s.readyQueue.length + (arrivals reg inp s cmd).length ≤ reg.config.backpressure.readyQueueMaxSize := by
  unfold Bounded at h
  cases cmd with
  | readyQueuePush j =>
    simp only [arrivals]
    split
    · rename_i hlt
      simp only [List.length_singleton]
      omega
    · exact h
  | moveToReady | recoverOrphans | readyAppend => cases ht
  | _ => simpa [arrivals] using h

/-- A step from within the bound stays there if and only if it finds room. -/
theorem bounded_step {c c' : State} {l : Label} (hc : Bounded reg c.world) (hs : (pipeline reg).Step c l c') :
    Bounded reg c'.world ↔ FindsRoom reg c l := by
  cases hs with
  | @run i inp p cmd ok err hp hv =>
    have hroom := @bounded_exec reg cmd inp c.world hc
    simp only [FindsRoom, onCalls, nextCall_eq hp hv]
    constructor
    · intro hb _
      exact hroom.mp hb
    · intro hf
      refine hroom.mpr ?_
      by_cases hu : untested cmd = true
      · exact hf hu
      · exact room_of_tested hc (eq_false_of_ne_true hu)
  | reject | stop | spawn => exact ⟨fun _ => trivial, fun _ => hc⟩
  | @env e => cases e <;> exact ⟨fun _ => trivial, fun _ => hc⟩

theorem bounded_inductive (reg : Registry) :
    ((runs reg).restrict (FindsRoom reg)).Inductive fun c => Bounded reg c.world where
  init := by
    intro c hc
    rw [show c = initialState from hc]
    exact Nat.zero_le _
  step := by
    intro c l c' hc hs
    exact (bounded_step hc hs.1).mpr hs.2

/-- In every run whose dispatcher, recovery and dead-letter retries find room
for what they append, the ready queue is within its maximum; the first step
that finds none takes it beyond. -/
theorem ready_queue_bounded (reg : Registry) (c : State)
    (h : ((runs reg).restrict (FindsRoom reg)).Reachable c) :
    c.world.readyQueue.length ≤ reg.config.backpressure.readyQueueMaxSize ∧
      ∀ l c', (pipeline reg).Step c l c' →
        (c'.world.readyQueue.length ≤ reg.config.backpressure.readyQueueMaxSize ↔ FindsRoom reg c l) := by
  have hc : Bounded reg c.world := (bounded_inductive reg).reachable c h
  exact ⟨hc, fun l c' hs => bounded_step hc hs⟩

end

/-- One job in the queue, one call a window. -/
def tiny : Registry := { config := { backpressure := { readyQueueMaxSize := 1, globalRps := 1 } } }

/-- Three jobs are submitted; `j1` is admitted and taken by a worker, then `j2`
and `j3` are denied and wait in the non-ready queue. -/
def twoDenied : List Label :=
  [.spawn (.submitBulkJobs ⟨"g", "SEND_EMAIL", [⟨"j1", "null"⟩, ⟨"j2", "null"⟩, ⟨"j3", "null"⟩], 0, .normal⟩)] ++
    runsAt 0 1 6 ++ [.spawn .fetchCycle] ++ runsAt 1 2 6 ++ [.spawn (.tick "worker-0" "i")] ++ runsAt 2 3 5 ++
    [.spawn .fetchCycle] ++ runsAt 3 4 10

theorem ready_queue_bounded_full : ∃ c : State, c.world.readyQueue.length = 1 ∧
    ∀ l c', (pipeline tiny).Step c l c' → (c'.world.readyQueue.length ≤ 1 ↔ FindsRoom tiny c l) := by
  obtain ⟨c, hr, hP⟩ := Core.Program.exists_of_replay (S := pipeline tiny)
    (P := fun c : State => decide (c.world.readyQueue = ["j1"]))
    (show ((pipeline tiny).replay (fun c l => decide (FindsRoom tiny c l)) initialState
      (twoDenied.take 13)).any _ = true by decide +kernel)
  have hr' : ((runs tiny).restrict (FindsRoom tiny)).Reachable c :=
    Core.LTS.Reachable.weaken (fun _ _ h => of_decide_eq_true h) hr
  exact ⟨c, by rw [of_decide_eq_true hP]; rfl, (ready_queue_bounded tiny c hr').2⟩

/-- The dispatcher finds the queue empty and moves both. -/
theorem dispatched_beyond : ¬ ∀ (reg : Registry) (c : State), (runs reg).Reachable c →
    c.world.readyQueue.length ≤ reg.config.backpressure.readyQueueMaxSize := by
  intro h
  obtain ⟨c, hr, hP⟩ := Core.Program.exists_of_replay (S := pipeline tiny)
    (P := fun c : State => decide (c.world.readyQueue = ["j2", "j3"]))
    (show ((pipeline tiny).replay (fun _ _ => true) initialState
      (twoDenied ++ [.spawn .dispatchOnce] ++ runsAt 4 5000 2)).any _ = true by decide +kernel)
  have hle := h tiny c hr.unrestrict
  rw [of_decide_eq_true hP] at hle
  exact absurd hle (by decide)

end NestPlayground.L5.Capacity
