import NestPlayground.L3Services.Finalize

/-!
# `withLock`

`DistributedLockService.withLock` around any callback. `finalizeGroup` is it
around `finalizeBody` (`finalize_withLock`); the awaits of `Finalize` are the
same function written out.
-/
namespace NestPlayground.L3
open L1

/-- `result` of a release is `none` when the callback threw.
mirrors libs/bulk-action/src/lock/DistributedLockService.ts:53-72 -/
inductive WithLockPc (Pc α : Type) where
  | acquire (p : AcquirePc)
  | body (token : String) (p : Pc)
  | release (token : String) (result : Option α)

section
variable {Pc α : Type}

def WithLockPc.start (key : LockKey) : Core.Next (WithLockPc Pc α) (Option α) := .goto (.acquire (.uuid key))

/-- The `try` around the callback. -/
def WithLockPc.within (token : String) : Core.Next Pc α → Core.Next (WithLockPc Pc α) (Option α)
  | .goto p => .goto (.body token p)
  | .ret a => .goto (.release token (some a))
  | .throw => .goto (.release token none)

/-- `enter` is where the callback starts. -/
def WithLockPc.view (reg : Registry) (key : LockKey) (enter : Core.Next Pc α) (callback : Pc → Await Pc α) :
    WithLockPc Pc α → Await (WithLockPc Pc α) (Option α)
  | .acquire p =>
    (p.view reg).map fun
      | .goto p => .goto (.acquire p)
      | .ret (some token) => WithLockPc.within token enter
      | .ret none => .ret none
      | .throw => .throw
  | .body token p => (callback p).map (WithLockPc.within token)
  | .release token result =>
    .call (.releaseLock key token)
      (fun _ =>
        match result with
        | some a => .ret (some a)
        | none => .throw)
      .throw

end

/-! ## `finalizeGroup` -/

/-- The callback of `finalizeGroup`.
mirrors libs/bulk-action/src/aggregator/AggregatorService.ts:151-207 -/
inductive FinalizeBodyPc where
  | metaGetAll
  | toAggregating (processorType : Option String)
  | aggregate (p : AggregatePc)
  | toCompleted

def finalizeBody (reg : Registry) (g : GroupId) : FinalizeBodyPc → Await FinalizeBodyPc Bool
  | .metaGetAll =>
    .call (.metaGetAll g)
      (fun m =>
        match m.status with
        | some .aggregating => .goto (.aggregate (.metaGetAll g m.processorType))
        | some .running => .goto (.toAggregating m.processorType)
        | _ => .ret false)
      .throw
  | .toAggregating t =>
    .call (.transitionStatus g .aggregate)
      (fun transitioned => if transitioned then .goto (.aggregate (.metaGetAll g t)) else .ret false)
      .throw
  | .aggregate p =>
    (p.view reg batchSize).map fun
      | .goto p => .goto (.aggregate p)
      | .ret _ => .goto .toCompleted
      | .throw => .throw
  | .toCompleted => .call (.transitionStatus g .complete) (fun transitioned => .ret transitioned) .throw

/-- The await of `finalizeGroup`. -/
def WithLockPc.toFinalize (g : GroupId) : WithLockPc FinalizeBodyPc Bool → FinalizePc
  | .acquire p => .acquire g p
  | .body token .metaGetAll => .metaGetAll g token
  | .body token (.toAggregating t) => .toAggregating g token t
  | .body token (.aggregate p) => .aggregate g token p
  | .body token .toCompleted => .toCompleted g token
  | .release token result => .release g token result

/-- `return result ?? false`.
mirrors libs/bulk-action/src/aggregator/AggregatorService.ts:210 -/
def finalizeOutcome (g : GroupId) : Core.Next (WithLockPc FinalizeBodyPc Bool) (Option Bool) → Core.Next FinalizePc Bool
  | .goto p => .goto (p.toFinalize g)
  | .ret result => .ret (result.getD false)
  | .throw => .throw

/-- `finalizeGroup` is `withLock` on the aggregation lock. -/
theorem finalize_withLock (reg : Registry) (g : GroupId) (p : WithLockPc FinalizeBodyPc Bool) :
    (p.toFinalize g).view reg =
      (p.view reg (.aggregation g) (.goto .metaGetAll) (finalizeBody reg g)).map (finalizeOutcome g) := by
  cases p with
  | acquire p =>
    simp only [WithLockPc.toFinalize, FinalizePc.view, WithLockPc.view, Core.Action.map_map]
    congr 1
    funext x
    cases x with
    | goto p => rfl
    | ret token => cases token <;> rfl
    | throw => rfl
  | body token p =>
    cases p with
    | metaGetAll =>
      simp only [WithLockPc.toFinalize, FinalizePc.view, WithLockPc.view, finalizeBody, Core.Action.map]
      congr 1
      funext m
      rcases m.status with _ | _ | _ | _ | _ | _ | _ <;> rfl
    | toAggregating t =>
      simp only [WithLockPc.toFinalize, FinalizePc.view, WithLockPc.view, finalizeBody, Core.Action.map]
      congr 1
      funext transitioned
      cases transitioned <;> rfl
    | aggregate p =>
      simp only [WithLockPc.toFinalize, FinalizePc.view, WithLockPc.view, finalizeBody, Core.Action.map_map]
      congr 1
      funext x
      cases x <;> rfl
    | toCompleted => rfl
  | release token result =>
    simp only [WithLockPc.toFinalize, FinalizePc.view, WithLockPc.view, Core.Action.map]
    congr 1
    funext b
    cases result <;> rfl

end NestPlayground.L3
