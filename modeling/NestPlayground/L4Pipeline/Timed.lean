import NestPlayground.L4Pipeline.Frames

/-!
# The pipeline on a clock

Runs in which time passes. Redis and all instances read one clock; between the
script that hands a job to a worker and the end of `executeWithHeartbeat` the
worker's own calls take no time and its two timers fire exactly when they are
due, so the clock advances only while every worker in there waits for a later
moment. Nothing else is urgent: all other activities may take any time.
-/
namespace NestPlayground.L4
open L1 L3

/-- The delay a Node timer keeps: one outside `1 .. 2^31 - 1` becomes 1. -/
def timerDelay (ms : Nat) : Nat := if 1 ≤ ms ∧ ms ≤ 2147483647 then ms else 1

/-- The period of the heartbeat, `Math.floor(jobTimeoutMs * 0.6)` as the timer keeps it.
mirrors libs/bulk-action/src/worker-pool/Worker.ts:150-159 -/
def heartbeatInterval (reg : Registry) : Nat := timerDelay (reg.config.workerPool.jobTimeoutMs * 3 / 5)

/-- How long a processor run that would take `duration` keeps the worker: it is
raced against the timeout.
mirrors libs/bulk-action/src/worker-pool/Worker.ts:168-190 -/
def executionTime (reg : Registry) (duration : Nat) : Nat :=
  min duration (timerDelay reg.config.workerPool.jobTimeoutMs)

/-- `armed i` is when the heartbeat timer of activity `i` was last armed. -/
structure Timed where
  state : State
  clock : Nat
  armed : Nat → Nat

/-- The job a worker executes: it got it from the ready queue and has not come
to the end of `executeWithHeartbeat`. -/
def executing : Proc → Option JobId
  | .tick (.loadJob j) | .tick (.startTime j _) | .tick (.process j _ _) | .tick (.heartbeat j _ _) => some j
  | _ => none

section
variable (reg : Registry) (lasts : Nat → Nat) (t : Timed)

/-- Activity `i`, whose processor run would take `lasts i`, has nothing to do yet. -/
def Waits (i : Nat) : Proc → Prop
  | .tick (.process _ _ startTime) =>
    t.clock < t.armed i + heartbeatInterval reg ∧ t.clock < startTime + executionTime reg (lasts i)
  | p => executing p = none

/-- The answer a worker gets from its processor run or its timers is due. -/
def Due (i : Nat) (inp : Input) : Proc → Prop
  | .tick (.process _ job startTime) =>
    match inp.outcome with
    | none => t.clock = t.armed i + heartbeatInterval reg
    | some outcome =>
      t.clock = startTime + executionTime reg (lasts i) ∧
      (timerDelay reg.config.workerPool.jobTimeoutMs < lasts i →
        outcome = .threw s!"Job {job.id} timed out after {reg.config.workerPool.jobTimeoutMs}ms")
  | _ => True

/-- Calls read the clock, and no call rejects. -/
def OnTime : Label → Prop
  | .run i inp => inp.now = t.clock ∧ ∀ p, t.state.procs[i]? = some p → Due reg lasts t i inp p
  | .reject _ => False
  | _ => True

/-- The steps that arm a heartbeat timer: `setInterval`, and its firing. -/
def arms : Proc → Bool
  | .tick (.startTime _ _) | .tick (.process _ _ _) => true
  | _ => false

def armedAfter : Label → Nat → Nat
  | .run i _ =>
    if (t.state.procs[i]?).any arms then Function.update t.armed i t.clock else t.armed
  | _ => t.armed

inductive TimedStep : Timed → Option Label → Timed → Prop where
  | elapse {t : Timed} (h : ∀ (i : Nat) p, t.state.procs[i]? = some p → Waits reg lasts t i p) :
      TimedStep t none { t with clock := t.clock + 1 }
  | act {t : Timed} {l c} (hs : (pipeline reg).Step t.state l c) (h : OnTime reg lasts t l) :
      TimedStep t (some l) { t with state := c, armed := armedAfter t l }

/-- The runs from a moment at which no worker executes a job, whatever the
database holds. -/
def timedRuns : Core.LTS Timed (Option Label) where
  init t := ∀ p ∈ t.state.procs, executing p = none
  step := TimedStep reg lasts

end

/-! ## How a worker comes to execute a job -/

/-- Where a step of an activity that executes nothing leads: nowhere near the
execution, or to the start of one with the job delivered. -/
def Enters (cmd : Cmd) (r : Reply cmd) (p : Proc) : Prop :=
  executing p = none ∨ ∃ j, p = .tick (.loadJob j) ∧ delivers cmd r = some j

section
variable {reg : Registry}

theorem enters_dequeue (p : DequeuePc) :
    ((TickPc.dequeue p).view reg).Spec (fun _ => True) (fun cmd r x => Enters cmd r (resume .tick x))
      fun _ x => executing (resume .tick x) = none := by
  simp only [TickPc.view]
  cases p with
  | script w i n g =>
    refine ⟨trivial, fun r => ?_, rfl⟩
    cases r with
    | none => exact .inl rfl
    | some x => exact .inr ⟨x.1, rfl, rfl⟩
  | length w i =>
    refine ⟨trivial, fun r => .inl ?_, rfl⟩
    simp only
    by_cases h : r = 0
    · rw [if_pos h]
      rfl
    · rw [if_neg h]
      rfl
  | peek w i =>
    refine ⟨trivial, fun r => .inl ?_, rfl⟩
    cases r <;> rfl
  | _ => exact ⟨trivial, fun _ => .inl rfl, rfl⟩

theorem enters_spec (p : Proc) (h : executing p = none) :
    (p.view reg).Spec (fun _ => True) Enters fun _ p' => executing p' = none := by
  have outside : ∀ {Pc α : Type} (a : Await Pc α) (mk : Core.Next Pc α → Proc), (∀ x, executing (mk x) = none) →
      (a.map mk).Spec (fun _ => True) Enters fun _ p' => executing p' = none := by
    intro Pc α a mk hmk
    exact (a.map_all hmk).mono (fun _ h => h) (fun _ _ _ hx => .inl hx) fun _ _ h => h
  cases p with
  | tick p =>
    cases p with
    | dequeue p => exact (enters_dequeue p).map (fun _ _ _ h => h) fun _ _ h => h
    | loadJob | startTime | process | heartbeat => cases h
    | complete p =>
      simp only [Proc.view, TickPc.view, Core.Action.map_map]
      exact outside _ _ fun x => by cases x <;> rfl
    | failed p =>
      simp only [Proc.view, TickPc.view, Core.Action.map_map]
      exact outside _ _ fun x => by cases x <;> rfl
    | endTime j job startTime r =>
      refine ⟨trivial, fun now => .inl ?_, rfl⟩
      simp only [resume, TickPc.settle]
      split
      · rfl
      · split
        · split <;> rfl
        · rfl
    | _ => exact ⟨trivial, fun _ => .inl rfl, rfl⟩
  | done => trivial
  | _ => exact outside _ _ fun x => by cases x <;> rfl

theorem executing_of_started {p : Proc} (h : Started p) : executing p = none := by
  cases h <;> rfl

end
end NestPlayground.L4
