import NestPlayground.L1Model.Types

/-!
# Group status transitions

The rule table of the watcher. A `Transition` is an edge of the table; the
services only ever ask `transition-status.lua` for one of these.
-/
namespace NestPlayground.L3
open L1

/-- mirrors libs/bulk-action/src/watcher/StateMachine.ts:3-7 -/
structure TransitionRule where
  source : GroupStatus
  target : GroupStatus
  requiresLock : Bool
  deriving DecidableEq, Repr

/-- mirrors libs/bulk-action/src/watcher/StateMachine.ts:9-50 -/
def transitionRules : List TransitionRule :=
  [⟨.created, .dispatched, false⟩, ⟨.dispatched, .running, false⟩, ⟨.running, .aggregating, true⟩,
    ⟨.aggregating, .completed, true⟩, ⟨.created, .failed, false⟩, ⟨.dispatched, .failed, false⟩,
    ⟨.running, .failed, false⟩, ⟨.aggregating, .failed, true⟩]

/-- mirrors libs/bulk-action/src/watcher/StateMachine.ts:58-62 -/
def isValidTransition (source target : GroupStatus) : Bool :=
  transitionRules.any fun rule => rule.source = source && rule.target = target

/-- mirrors libs/bulk-action/src/watcher/StateMachine.ts:64-68 -/
def requiresLock (source target : GroupStatus) : Bool :=
  match transitionRules.find? fun r => r.source = source && r.target = target with
  | some rule => rule.requiresLock
  | none => false

/-- mirrors libs/bulk-action/src/watcher/StateMachine.ts:70-74 -/
def getNextStates (source : GroupStatus) : List GroupStatus :=
  (transitionRules.filter (·.source = source)).map (·.target)

/-- mirrors libs/bulk-action/src/watcher/StateMachine.ts:52-55, 76-78 -/
def isTerminal (status : GroupStatus) : Bool := status = .completed || status = .failed

/-- An edge of the table. -/
structure Transition where
  source : GroupStatus
  target : GroupStatus
  valid : isValidTransition source target = true
  deriving DecidableEq

def Transition.aggregate : Transition := ⟨.running, .aggregating, by decide⟩
def Transition.complete : Transition := ⟨.aggregating, .completed, by decide⟩
def Transition.dispatch : Transition := ⟨.created, .dispatched, by decide⟩
def Transition.run : Transition := ⟨.dispatched, .running, by decide⟩

theorem mem_getNextStates {s t : GroupStatus} : t ∈ getNextStates s ↔ isValidTransition s t = true := by
  cases s <;> cases t <;> decide

/-- No rule leaves a terminal state, and every other state can still fail. -/
theorem isTerminal_iff_nil (s : GroupStatus) : isTerminal s = true ↔ getNextStates s = [] := by
  cases s <;> decide

theorem isTerminal_iff (s : GroupStatus) : isTerminal s = true ↔ ∀ t, isValidTransition s t = false := by
  simp only [isTerminal_iff_nil, List.eq_nil_iff_forall_not_mem, mem_getNextStates, Bool.not_eq_true]

theorem Transition.source_not_terminal (t : Transition) : isTerminal t.source = false := by
  by_contra h
  have := (isTerminal_iff t.source).mp (by simpa using h) t.target
  rw [t.valid] at this
  cases this

end NestPlayground.L3
