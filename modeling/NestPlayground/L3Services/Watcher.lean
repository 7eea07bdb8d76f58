import NestPlayground.L3Services.Finalize

/-!
# The watcher

`WatcherService.watchCycle`: the groups of the set one after the other, each
check reading the metadata first. An error ends the cycle; inside a lock it
ends it after the release.
-/
namespace NestPlayground.L3
open L1

/-- mirrors libs/bulk-action/src/watcher/WatcherService.ts:91-318 -/
inductive WatchPc where
  | members
  | checkGroup (groupId : GroupId) (rest : List GroupId)
  | removeTerminal (groupId : GroupId) (rest : List GroupId)
  | checkTimeout (groupId : GroupId) (m : GroupMeta) (status : GroupStatus) (rest : List GroupId)
  -- the checks of a group that has not timed out
  | transition (groupId : GroupId) (t : Transition) (rest : List GroupId)
  | staleClock (groupId : GroupId) (aggregationStartAt : Nat) (rest : List GroupId)
  | finalize (p : FinalizePc) (rest : List GroupId)
  | lockTransition (groupId : GroupId) (p : AcquirePc) (rest : List GroupId)
  | lockedMeta (groupId : GroupId) (token : String) (rest : List GroupId)
  | lockedFinalize (groupId : GroupId) (token : String) (p : FinalizePc) (rest : List GroupId)
  | unlockTransition (groupId : GroupId) (token : String) (threw : Bool) (rest : List GroupId)
  -- `forceTransition`
  | force (groupId : GroupId) (t : Transition) (rest : List GroupId)
  | lockForce (groupId : GroupId) (target : GroupStatus) (p : AcquirePc) (rest : List GroupId)
  | forceMeta (groupId : GroupId) (target : GroupStatus) (token : String) (rest : List GroupId)
  | lockedForce (groupId : GroupId) (t : Transition) (token : String) (rest : List GroupId)
  | unlockForce (groupId : GroupId) (token : String) (threw : Bool) (rest : List GroupId)

/-- The loop over the set.
mirrors libs/bulk-action/src/watcher/WatcherService.ts:97-100 -/
def WatchPc.next : List GroupId → Core.Next WatchPc Unit
  | [] => .ret ()
  | g :: rest => .goto (.checkGroup g rest)

/-- `transition`: invalid edges are not tried.
mirrors libs/bulk-action/src/watcher/WatcherService.ts:244-261 -/
def WatchPc.tryTransition (g : GroupId) (source target : GroupStatus) (rest : List GroupId) :
    Core.Next WatchPc Unit :=
  if h : isValidTransition source target then .goto (.transition g ⟨source, target, h⟩ rest)
  else WatchPc.next rest

/-- The branch on the status.
mirrors libs/bulk-action/src/watcher/WatcherService.ts:128-222 -/
def WatchPc.check (g : GroupId) (m : GroupMeta) (status : GroupStatus) (rest : List GroupId) :
    Core.Next WatchPc Unit :=
  match status with
  | .created =>
    if m.totalJobs.getD 0 ≤ m.registeredJobs.getD 0 ∧ 0 < m.totalJobs.getD 0 then
      WatchPc.tryTransition g .created .dispatched rest
    else WatchPc.next rest
  | .dispatched =>
    if 0 < m.firstJobStartedAt.getD 0 then WatchPc.tryTransition g .dispatched .running rest
    else WatchPc.next rest
  | .running =>
    if m.totalJobs.getD 0 ≤ m.successCount.getD 0 + m.failedCount.getD 0 ∧ 0 < m.totalJobs.getD 0 then
      .goto (.lockTransition g (.uuid (.transition g)) rest)
    else WatchPc.next rest
  | .aggregating =>
    if m.aggregationStartAt.getD 0 = 0 then .goto (.finalize (.start g) rest)
    else .goto (.staleClock g (m.aggregationStartAt.getD 0) rest)
  | _ => WatchPc.next rest

/-- `forceTransition`.
mirrors libs/bulk-action/src/watcher/WatcherService.ts:263-318 -/
def WatchPc.forceTransition (g : GroupId) (currentStatus target : GroupStatus) (rest : List GroupId) :
    Core.Next WatchPc Unit :=
  if isTerminal currentStatus then WatchPc.next rest
  else if h : isValidTransition currentStatus target then
    if requiresLock currentStatus target then
      .goto (.lockForce g target (.uuid (.aggregation g)) rest)
    else .goto (.force g ⟨currentStatus, target, h⟩ rest)
  else WatchPc.next rest

def WatchPc.view (reg : Registry) : WatchPc → Await WatchPc Unit
  | .members => .call .watcherMembers WatchPc.next .throw
  | .checkGroup g rest =>
    .call (.metaGetAll g)
      (fun m =>
        match m.status with
        | none => WatchPc.next rest
        | some status =>
          if isTerminal status then .goto (.removeTerminal g rest)
          else .goto (.checkTimeout g m status rest))
      .throw
  | .removeTerminal g rest => .call (.watcherRemove g) (fun _ => WatchPc.next rest) .throw
  | .checkTimeout g m status rest =>
    .call .dateNow
      (fun now =>
        if 0 < m.timeoutAt.getD 0 ∧ m.timeoutAt.getD 0 < now then
          WatchPc.forceTransition g status .failed rest
        else WatchPc.check g m status rest)
      .throw
  | .transition g t rest => .call (.transitionStatus g t) (fun _ => WatchPc.next rest) .throw
  | .staleClock g startAt rest =>
    .call .dateNow
      (fun now =>
        if startAt + reg.config.watcher.staleGroupThresholdMs < now then .goto (.finalize (.start g) rest)
        else WatchPc.next rest)
      .throw
  | .finalize p rest =>
    (p.view reg).map fun
      | .goto p => .goto (.finalize p rest)
      | .ret _ => WatchPc.next rest
      | .throw => .throw
  | .lockTransition g p rest =>
    (p.view reg).map fun
      | .goto p => .goto (.lockTransition g p rest)
      | .ret (some token) => .goto (.lockedMeta g token rest)
      | .ret none => WatchPc.next rest
      | .throw => .throw
  | .lockedMeta g token rest =>
    .call (.metaGetAll g)
      (fun m =>
        if m.status = some .running then .goto (.lockedFinalize g token (.start g) rest)
        else .goto (.unlockTransition g token false rest))
      (.goto (.unlockTransition g token true rest))
  | .lockedFinalize g token p rest =>
    (p.view reg).map fun
      | .goto p => .goto (.lockedFinalize g token p rest)
      | .ret _ => .goto (.unlockTransition g token false rest)
      | .throw => .goto (.unlockTransition g token true rest)
  | .unlockTransition g token threw rest =>
    .call (.releaseLock (.transition g) token) (fun _ => if threw then .throw else WatchPc.next rest) .throw
  | .force g t rest => .call (.transitionStatus g t) (fun _ => WatchPc.next rest) .throw
  | .lockForce g target p rest =>
    (p.view reg).map fun
      | .goto p => .goto (.lockForce g target p rest)
      | .ret (some token) => .goto (.forceMeta g target token rest)
      | .ret none => WatchPc.next rest
      | .throw => .throw
  | .forceMeta g target token rest =>
    .call (.metaGetAll g)
      (fun m =>
        match m.status with
        | none => .goto (.unlockForce g token false rest)
        | some freshStatus =>
          if isTerminal freshStatus then .goto (.unlockForce g token false rest)
          else if h : isValidTransition freshStatus target then
            .goto (.lockedForce g ⟨freshStatus, target, h⟩ token rest)
          else .goto (.unlockForce g token false rest))
      (.goto (.unlockForce g token true rest))
  | .lockedForce g t token rest =>
    .call (.transitionStatus g t)
      (fun _ => .goto (.unlockForce g token false rest))
      (.goto (.unlockForce g token true rest))
  | .unlockForce g token threw rest =>
    .call (.releaseLock (.aggregation g) token) (fun _ => if threw then .throw else WatchPc.next rest) .throw

end NestPlayground.L3
