import Mathlib.Logic.Function.Basic

/-!
# Transactional events

`TransactionService.transactionalWithEvent` and its event context. A function
registers events for the phases of its transaction; each phase's events are
raised when the phase comes. Whatever throws leaves the world as it is at that
point.

Three things are not of this code and are parameters: the function (the events
it registers and how it ends), the listeners, which may throw from any event on,
and `dataSource.transaction`, as far as `Transactional` says.
-/
namespace NestPlayground.L3.Transaction

/-- mirrors libs/event-emitter/src/TransactionPhase.ts:1-5 -/
inductive TransactionPhase where
  | beforeCommit
  | afterCommit
  | afterRollback
  deriving DecidableEq

/-- `emitted` is what went through `EventEmitterService.raise`, in order, each
event with the phase it was flushed in; `committed` is the database's. -/
structure World (Event : Type) where
  buffer : TransactionPhase → List Event
  emitted : List (TransactionPhase × Event)
  committed : Bool

abbrev M (Event ε : Type) := ExceptT ε (StateM (World Event))

/-- What a listener throws at an event, after the events raised so far. -/
abbrev Listeners (Event ε : Type) := List Event → Event → Option ε

variable {Event ε T : Type}

def World.raised (w : World Event) : List Event := w.emitted.map Prod.snd

/-- `emit` calls the listeners, and throws what they throw.
mirrors libs/event-emitter/src/EventEmitterService.ts:9-11 -/
def EventEmitterService.raise (listeners : Listeners Event ε) (phase : TransactionPhase) (event : Event) :
    M Event ε Unit := do
  let w ← get
  set { w with emitted := w.emitted ++ [(phase, event)] }
  match listeners w.raised event with
  | some error => throw error
  | none => pure ()

namespace TransactionEventContext

/-- mirrors libs/event-emitter/src/TransactionEventContext.ts:8-14 -/
def new : M Event ε Unit := modify fun w => { w with buffer := fun _ => [] }

/-- mirrors libs/event-emitter/src/TransactionEventContext.ts:16-21 -/
def raise (event : Event) (phase : TransactionPhase := .afterCommit) : M Event ε Unit :=
  modify fun w => { w with buffer := Function.update w.buffer phase (w.buffer phase ++ [event]) }

/-- A `raise` that throws ends the `forEach`, and the buffer keeps its events.
mirrors libs/event-emitter/src/TransactionEventContext.ts:23-27 -/
def flush (listeners : Listeners Event ε) (phase : TransactionPhase) : M Event ε Unit := do
  let events := (← get).buffer phase
  events.forM fun event => EventEmitterService.raise listeners phase event
  modify fun w => { w with buffer := Function.update w.buffer phase [] }

/-- mirrors libs/event-emitter/src/TransactionEventContext.ts:29-31 -/
def clear : M Event ε Unit := modify fun w => { w with buffer := fun _ => [] }

end TransactionEventContext

/-- A function as the service sees it: the events it registers, in order, and
how it settles.
mirrors libs/entity/src/transaction/TransactionService.ts:11-14 -/
structure TransactionalEventFunction (Event ε T : Type) where
  raises : List (Event × TransactionPhase)
  outcome : Except ε T

def TransactionalEventFunction.run (fn : TransactionalEventFunction Event ε T) : M Event ε T := do
  fn.raises.forM fun (event, phase) => TransactionEventContext.raise event phase
  MonadExcept.ofExcept fn.outcome

/-- The events a function registers for a phase. -/
def TransactionalEventFunction.registered (fn : TransactionalEventFunction Event ε T) (phase : TransactionPhase) :
    List Event :=
  (fn.raises.filter fun r => r.2 = phase).map Prod.fst

/-- mirrors libs/entity/src/transaction/TransactionService.ts:27-51 -/
def transactionalWithEvent (transaction : M Event ε T → M Event ε T) (listeners : Listeners Event ε)
    (fn : TransactionalEventFunction Event ε T) : M Event ε T := do
  TransactionEventContext.new
  try
    let result ← transaction do
      let value ← fn.run
      TransactionEventContext.flush listeners .beforeCommit
      pure value
    TransactionEventContext.flush listeners .afterCommit
    pure result
  catch error =>
    TransactionEventContext.flush listeners .afterRollback
    throw error
  finally
    TransactionEventContext.clear

/-! ## The database -/

/-- What the database does with a transaction: it does not begin, or its commit
succeeds or fails once the callback has resolved. -/
inductive Fate (ε : Type) where
  | refused (error : ε)
  | commits
  | commitFails (error : ε)

/-- `dataSource.transaction` commits exactly when its callback resolves and the
commit succeeds, and rejects otherwise. -/
structure Transactional (transaction : M Event ε T → M Event ε T) (fate : Fate ε) : Prop where
  refused : ∀ error, fate = .refused error → ∀ callback w, transaction callback w = (.error error, w)
  rejected : (∀ error, fate ≠ .refused error) → ∀ callback w error w', callback w = (.error error, w') →
    transaction callback w = (.error error, w')
  commits : fate = .commits → ∀ callback w value w', callback w = (.ok value, w') →
    transaction callback w = (.ok value, { w' with committed := true })
  commitFails : ∀ error, fate = .commitFails error → ∀ callback w value w', callback w = (.ok value, w') →
    transaction callback w = (.error error, w')

/-- A call of the service, in a world that has raised nothing yet. -/
def World.init : World Event := ⟨fun _ => [], [], false⟩

end NestPlayground.L3.Transaction
