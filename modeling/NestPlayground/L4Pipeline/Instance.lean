import NestPlayground.L4Pipeline.Pipeline

/-!
# One instance

The loops of one process over the pipeline: the fetcher's, the dispatcher's and
those of its workers, with the calls that start and stop them. A cycle of a
loop is a task of the pipeline; the other activities of the net are anybody's
(API callers, the watcher, the orphan recovery, the other instances). The waits
between two cycles take any time. `shutdown` waits for the workers, whose
`stop` awaits their loop; the two services discard the promise of theirs.
-/
namespace NestPlayground.L4
open L1 L3

/-- The services with a loop on an interval.
mirrors libs/bulk-action/src/worker-pool/FetcherService.ts:21-140 and
libs/bulk-action/src/backpressure/DispatcherService.ts:13-143 -/
inductive Periodic where
  | fetcher | dispatcher
  deriving DecidableEq

/-- What `runLoop` awaits: its cycle, which is an activity of the net, or the timer. -/
inductive Phase where
  | cycle (pid : Nat)
  | timer
  deriving DecidableEq

/-- `loop` is the one `abortController` can abort. An aborted loop returns from
its timer at once, or after the cycle it is in: `aborted` are these cycles. -/
structure LoopService where
  loop : Option Phase := none
  aborted : List Nat := []

/-- mirrors libs/bulk-action/src/model/WorkerState.ts:1-6, with the activity of the
tick the loop is in; a worker is `stopping none` once its loop has returned. -/
inductive Worker where
  | idle
  | running (pid : Nat)
  | stopping (pid : Option Nat)
  | stopped
  deriving DecidableEq

/-- Where `shutdown` is: `isShuttingDown` is set from `draining` on; it has
resolved with all workers stopped (`down`) or by the grace period (`expired`). -/
inductive Stage where
  | serving | draining | down | expired
  deriving DecidableEq

/-- `dispatching` is the last call of `dispatch` that was not skipped, `mine`
are the cycles and ticks the loops have started. -/
structure Instance where
  net : State
  services : Periodic → LoopService
  dispatching : Option Nat
  workers : List Worker
  stage : Stage
  mine : List Nat

/-- `workerCount` is read from the configuration here only.
mirrors libs/bulk-action/src/worker-pool/WorkerPoolService.ts:90-113 -/
def initialInstance (workerCount : Nat) : Instance where
  net := initialState
  services _ := {}
  dispatching := none
  workers := List.replicate workerCount .idle
  stage := .serving
  mine := []

/-! ## Loops -/

/-- The cycles the loops of a service are in. -/
def LoopService.cycles (v : LoopService) : List Nat :=
  match v.loop with
  | some (.cycle pid) => pid :: v.aborted
  | _ => v.aborted

/-- mirrors libs/bulk-action/src/worker-pool/FetcherService.ts:58-62 and
libs/bulk-action/src/backpressure/DispatcherService.ts:48-52 -/
def LoopService.stop (v : LoopService) : LoopService where
  loop := none
  aborted := v.cycles

/-- The tick a worker's loop is in. -/
def Worker.pid : Worker → Option Nat
  | .running pid => some pid
  | .stopping pid => pid
  | _ => none

/-- Without a `loopPromise` there is nothing to await.
mirrors libs/bulk-action/src/worker-pool/Worker.ts:43-57 -/
def Worker.stop : Worker → Worker
  | .idle => .stopped
  | .running pid => .stopping (some pid)
  | .stopping pid => .stopping pid
  | .stopped => .stopped

namespace Instance
variable (reg : Registry) (me : String)

def setLoop (s : Instance) (v : Periodic) (loop : Option Phase) : Instance :=
  { s with services := Function.update s.services v { s.services v with loop } }

/-- A loop starts an activity. -/
def launch (s : Instance) (t : Task) : Instance :=
  { s with
    net := { s.net with procs := s.net.procs ++ [t.start reg] }
    mine := s.net.procs.length :: s.mine }

/-- The flag `dispatching` of `DispatcherService`. -/
def isDispatching (s : Instance) : Bool := s.dispatching.any fun i => !finished s.net i

/-- The loop of a service calls `fetchCycle` or `dispatch`. A dispatch returns at once
while another is under way.
mirrors libs/bulk-action/src/worker-pool/FetcherService.ts:75-76 and
libs/bulk-action/src/backpressure/DispatcherService.ts:74-75, 90-94 -/
def enter (s : Instance) : Periodic → Instance
  | .fetcher => (s.launch reg .fetchCycle).setLoop .fetcher (some (.cycle s.net.procs.length))
  | .dispatcher =>
    if s.isDispatching then s.setLoop .dispatcher (some .timer)
    else
      { (s.launch reg .dispatchOnce).setLoop .dispatcher (some (.cycle s.net.procs.length)) with
        dispatching := some s.net.procs.length }

/-- mirrors libs/bulk-action/src/worker-pool/FetcherService.ts:44-56 and
libs/bulk-action/src/backpressure/DispatcherService.ts:34-46 -/
def start (s : Instance) (v : Periodic) : Instance :=
  match (s.services v).loop with
  | some _ => s
  | none => s.enter reg v

def stop (s : Instance) (v : Periodic) : Instance :=
  { s with services := Function.update s.services v (s.services v).stop }

/-- The loop goes on: after its cycle to the timer, after the timer to a new cycle.
mirrors libs/bulk-action/src/worker-pool/FetcherService.ts:72-86 and
libs/bulk-action/src/backpressure/DispatcherService.ts:70-88 -/
def next (s : Instance) (v : Periodic) : Option Instance :=
  match (s.services v).loop with
  | some (.cycle pid) => if finished s.net pid then some (s.setLoop v (some .timer)) else none
  | some .timer => some (s.enter reg v)
  | none => none

/-- `dispatchOnce` called from outside the loop.
mirrors libs/bulk-action/src/backpressure/DispatcherService.ts:66-68 -/
def dispatchOnce (s : Instance) : Instance :=
  if s.isDispatching then s
  else
    { s with
      net := { s.net with procs := s.net.procs ++ [Task.dispatchOnce.start reg] }
      dispatching := some s.net.procs.length }

/-- The loop of worker `k` calls `tick`.
mirrors libs/bulk-action/src/worker-pool/Worker.ts:67-82 -/
def tick (s : Instance) (k : Nat) : Instance :=
  { s.launch reg (.tick s!"worker-{k}" me) with workers := s.workers.set k (.running s.net.procs.length) }

/-- mirrors libs/bulk-action/src/worker-pool/Worker.ts:33-41 -/
def startWorker (s : Instance) (k : Nat) : Option Instance :=
  match s.workers[k]? with
  | none => none
  | some .idle => some (s.tick reg me k)
  | some _ => some s

def stopWorker (s : Instance) (k : Nat) : Option Instance :=
  match s.workers[k]? with
  | none => none
  | some w => some { s with workers := s.workers.set k w.stop }

/-- The loop of worker `k` goes on after a tick, or returns, and then `stop` does.
mirrors libs/bulk-action/src/worker-pool/Worker.ts:43-57, 67-79 -/
def nextTick (s : Instance) (k : Nat) : Option Instance :=
  match s.workers[k]? with
  | some (.running pid) => if finished s.net pid then some (s.tick reg me k) else none
  | some (.stopping (some pid)) =>
    if finished s.net pid then some { s with workers := s.workers.set k (.stopping none) } else none
  | some (.stopping none) => some { s with workers := s.workers.set k .stopped }
  | _ => none

/-- Up to the wait for the workers.
mirrors libs/bulk-action/src/worker-pool/WorkerPoolService.ts:219-233 -/
def shutdown (s : Instance) : Instance :=
  match s.stage with
  | .serving => { s.stop .fetcher with workers := s.workers.map Worker.stop, stage := .draining }
  | _ => s

/-- After the wait for the workers.
mirrors libs/bulk-action/src/worker-pool/WorkerPoolService.ts:245-269 -/
def resolve (s : Instance) (stage : Stage) : Option Instance :=
  match s.stage with
  | .draining => some { s.stop .dispatcher with stage }
  | _ => none

end Instance

/-! ## Runs -/

/-- What happens next: a step of the net, a call from outside, a loop going on,
or `shutdown` going on because the workers have stopped or time is up. -/
inductive Move where
  | net (l : Label)
  | start (v : Periodic)
  | stop (v : Periodic)
  | next (v : Periodic)
  | dispatchOnce
  | startWorker (k : Nat)
  | stopWorker (k : Nat)
  | nextTick (k : Nat)
  | shutdown
  | allStopped
  | graceOver

/-- The calls that start a loop. -/
def Move.starts : Move → Bool
  | .start _ => true
  | .startWorker _ => true
  | _ => false

/-- `me` is the id the instance has drawn. -/
def Instance.step (reg : Registry) (me : String) (s : Instance) : Move → Option Instance
  | .net l => ((pipeline reg).step s.net l).map fun net => { s with net }
  | .start v => some (s.start reg v)
  | .stop v => some (s.stop v)
  | .next v => s.next reg v
  | .dispatchOnce => some (s.dispatchOnce reg)
  | .startWorker k => s.startWorker reg me k
  | .stopWorker k => s.stopWorker k
  | .nextTick k => s.nextTick reg me k
  | .shutdown => some s.shutdown
  | .allStopped => if ∀ w ∈ s.workers, w = .stopped then s.resolve .down else none
  | .graceOver => s.resolve .expired

/-- The runs of the instance from an empty database, with everybody else at work. -/
def instances (reg : Registry) (me : String) (workerCount : Nat) : Core.LTS Instance Move where
  init s := s = initialInstance workerCount
  step s m s' := s.step reg me m = some s'

/-! ## What the loops have started -/

section
variable {reg : Registry} {me : String} {s s' : Instance} {c c' : State} {v : Periodic} {i k : Nat}

namespace Instance

theorem resolve_cases {stage : Stage} (hs : s.resolve stage = some s') :
    s.stage = .draining ∧ s' = { s.stop .dispatcher with stage } := by
  unfold Instance.resolve at hs
  split at hs
  · rename_i hd
    exact ⟨hd, (Option.some.inj hs).symm⟩
  · cases hs

theorem allStopped_cases (hs : s.step reg me .allStopped = some s') :
    (∀ w ∈ s.workers, w = .stopped) ∧ s.resolve .down = some s' := by
  simp only [Instance.step] at hs
  split at hs
  · rename_i hw
    exact ⟨hw, hs⟩
  · cases hs

end Instance

/-- Some loop is in the cycle or tick `i`. -/
def Instance.Awaits (s : Instance) (i : Nat) : Prop :=
  (∃ v, i ∈ (s.services v).cycles) ∨ ∃ w ∈ s.workers, w.pid = some i

/-- What the loops started is over or awaited, and what they await they started. -/
structure Instance.Tracked (s : Instance) : Prop where
  awaited : ∀ i ∈ s.mine, finished s.net i = true ∨ s.Awaits i
  mine : ∀ i, s.Awaits i → i ∈ s.mine
  started : ∀ i ∈ s.mine, i < s.net.procs.length
  shut : s.stage ≠ .serving → (s.services .fetcher).loop = none

theorem LoopService.mem_cycles {x : LoopService} (h : i ∈ x.aborted) : i ∈ x.cycles := by
  unfold LoopService.cycles
  split
  · exact List.mem_cons_of_mem _ h
  · exact h

@[simp] theorem Worker.stop_pid (w : Worker) : w.stop.pid = w.pid := by
  cases w <;> rfl

namespace Instance

/-- A service whose loops drop only cycles that are over keeps the rest awaited. -/
theorem awaits_service {x : LoopService} (hx : ∀ i ∈ (s.services v).cycles, finished s.net i = true ∨ i ∈ x.cycles)
    (h : s.Awaits i) :
    finished s.net i = true ∨ Awaits { s with services := Function.update s.services v x } i := by
  rcases h with ⟨u, hu⟩ | h
  · rcases eq_or_ne u v with rfl | hne
    · refine (hx i hu).imp_right fun hi => .inl ⟨u, ?_⟩
      simpa only [Function.update_self] using hi
    · refine .inr (.inl ⟨u, ?_⟩)
      simpa only [Function.update_of_ne hne] using hu
  · exact .inr (.inr h)

theorem of_awaits_service {x : LoopService} (h : Awaits { s with services := Function.update s.services v x } i) :
    s.Awaits i ∨ i ∈ x.cycles := by
  rcases h with ⟨u, hu⟩ | h
  · rcases eq_or_ne u v with rfl | hne
    · simp only [Function.update_self] at hu
      exact .inr hu
    · simp only [Function.update_of_ne hne] at hu
      exact .inl (.inl ⟨u, hu⟩)
  · exact .inl (.inr h)

theorem awaits_worker {w x : Worker} (hw : s.workers[k]? = some w)
    (hx : ∀ i, w.pid = some i → finished s.net i = true ∨ x.pid = some i) (h : s.Awaits i) :
    finished s.net i = true ∨ Awaits { s with workers := s.workers.set k x } i := by
  rcases h with h | ⟨y, hy, hi⟩
  · exact .inr (.inl h)
  · have hk := (List.getElem?_eq_some_iff.mp hw).1
    obtain ⟨m, hm⟩ := List.mem_iff_getElem?.mp hy
    rcases eq_or_ne k m with rfl | hne
    · rw [hw] at hm
      cases hm
      exact (hx i hi).imp_right fun hi => .inr ⟨x, List.mem_set hk x, hi⟩
    · exact .inr (.inr ⟨y, List.mem_of_getElem? ((List.getElem?_set_ne hne).trans hm), hi⟩)

theorem of_awaits_worker {x : Worker} (h : Awaits { s with workers := s.workers.set k x } i) :
    s.Awaits i ∨ x.pid = some i := by
  rcases h with h | ⟨y, hy, hi⟩
  · exact .inl (.inl h)
  · rcases List.mem_or_eq_of_mem_set hy with hy | rfl
    · exact .inl (.inr ⟨y, hy, hi⟩)
    · exact .inr hi

namespace Tracked

/-- A move that starts nothing. -/
theorem same (h : s.Tracked) (hnet : s'.net = s.net) (hmine : s'.mine = s.mine)
    (hk : ∀ i, s.Awaits i → finished s.net i = true ∨ s'.Awaits i) (ho : ∀ i, s'.Awaits i → s.Awaits i)
    (hs : s'.stage ≠ .serving → (s'.services .fetcher).loop = none) : s'.Tracked where
  awaited i hi := by
    rw [hmine] at hi
    rw [hnet]
    exact (h.awaited i hi).elim .inl (hk i)
  mine i hi := by
    rw [hmine]
    exact h.mine i (ho i hi)
  started i hi := by
    rw [hmine] at hi
    rw [hnet]
    exact h.started i hi
  shut := hs

/-- A loop goes into a new cycle. -/
theorem launched (h : s.Tracked) {t : Task}
    (hnet : s'.net = { s.net with procs := s.net.procs ++ [t.start reg] })
    (hmine : s'.mine = s.net.procs.length :: s.mine) (hn : s'.Awaits s.net.procs.length)
    (hk : ∀ i, s.Awaits i → finished s.net i = true ∨ s'.Awaits i)
    (ho : ∀ i, s'.Awaits i → s.Awaits i ∨ i = s.net.procs.length)
    (hs : s'.stage ≠ .serving → (s'.services .fetcher).loop = none) : s'.Tracked where
  awaited i hi := by
    rw [hmine] at hi
    rcases List.mem_cons.mp hi with rfl | hi
    · exact .inr hn
    · rw [hnet]
      have hstay := @finished_step reg s.net _ _ i (.spawn (t := t))
      exact (h.awaited i hi).elim (fun hf => .inl (hstay hf)) fun ha => (hk i ha).imp_left hstay
  mine i hi := by
    rw [hmine]
    rcases ho i hi with hi | rfl
    · exact List.mem_cons_of_mem _ (h.mine i hi)
    · exact List.mem_cons_self
  started i hi := by
    rw [hmine] at hi
    rw [hnet, List.length_append]
    rcases List.mem_cons.mp hi with rfl | hi
    · exact Nat.lt_succ_self _
    · exact Nat.lt_add_right _ (h.started i hi)
  shut := hs

theorem net (h : s.Tracked) {l : Label} (hs : (pipeline reg).Step s.net l c) : Tracked { s with net := c } where
  awaited i hi := (h.awaited i hi).imp_left (finished_step hs)
  mine := h.mine
  started i hi := (h.started i hi).trans_le (Core.Program.length_le hs)
  shut := h.shut

/-- A service other than a stopped fetcher changes. -/
theorem shut_update (h : s.Tracked) (hv : v = .fetcher → s.stage = .serving) (x : LoopService)
    (hs : s.stage ≠ .serving) : (Function.update s.services v x .fetcher).loop = none := by
  have hne : Periodic.fetcher ≠ v := fun he => hs (hv he.symm)
  rw [Function.update_of_ne hne]
  exact h.shut hs

/-- The loop of a service goes into a cycle. -/
theorem cycle (h : s.Tracked) (hc : (s.services v).cycles = (s.services v).aborted)
    (hv : v = .fetcher → s.stage = .serving) (t : Task) (d : Option Nat) :
    Tracked { (s.launch reg t).setLoop v (some (.cycle s.net.procs.length)) with dispatching := d } := by
  refine h.launched rfl rfl (.inl ⟨v, ?_⟩) (fun i => awaits_service fun i hi => .inr ?_) (fun i hi => ?_)
    (h.shut_update hv _)
  · simp only [setLoop, Function.update_self, LoopService.cycles]
    exact List.mem_cons_self
  · rw [hc] at hi
    exact List.mem_cons_of_mem _ hi
  · rcases of_awaits_service hi with hi | hi
    · exact .inl hi
    · rcases List.mem_cons.mp hi with rfl | hi
      · exact .inr rfl
      · exact .inl (.inl ⟨v, LoopService.mem_cycles hi⟩)

/-- The loop of a service goes on to its timer. -/
theorem timer (h : s.Tracked) (hv : v = .fetcher → s.stage = .serving)
    (hc : ∀ i ∈ (s.services v).cycles, finished s.net i = true ∨ i ∈ (s.services v).aborted) :
    (s.setLoop v (some .timer)).Tracked := by
  refine h.same rfl rfl (fun i => awaits_service hc) (fun i hi => ?_) (h.shut_update hv _)
  exact (of_awaits_service hi).elim id fun hi => .inl ⟨v, LoopService.mem_cycles hi⟩

theorem enter (h : s.Tracked) (hc : (s.services v).cycles = (s.services v).aborted)
    (hv : v = .fetcher → s.stage = .serving) : (s.enter reg v).Tracked := by
  cases v with
  | fetcher => exact h.cycle hc hv _ _
  | dispatcher =>
    simp only [Instance.enter]
    split
    · exact h.timer hv fun i hi => .inr (hc ▸ hi)
    · exact h.cycle hc hv _ _

theorem next (h : s.Tracked) (hs : s.next reg v = some s') : s'.Tracked := by
  have hv : (s.services v).loop ≠ none → v = .fetcher → s.stage = .serving := by
    rintro hl rfl
    by_contra hne
    exact hl (h.shut hne)
  unfold Instance.next at hs
  split at hs
  · rename_i pid hl
    split at hs
    · rename_i hf
      cases hs
      refine h.timer (hv (by simp [hl])) fun i hi => ?_
      simp only [LoopService.cycles, hl] at hi
      rcases List.mem_cons.mp hi with rfl | hi
      · exact .inl hf
      · exact .inr hi
    · cases hs
  · rename_i hl
    cases hs
    exact h.enter (by simp [LoopService.cycles, hl]) (hv (by simp [hl]))
  · cases hs

theorem start (h : s.Tracked) (hs : s.stage = .serving) : (s.start reg v).Tracked := by
  unfold Instance.start
  split
  · exact h
  · rename_i hl
    exact h.enter (by simp [LoopService.cycles, hl]) fun _ => hs

theorem stop (h : s.Tracked) (v : Periodic) : (s.stop v).Tracked := by
  refine h.same rfl rfl (fun i => awaits_service fun i hi => .inr hi) (fun i hi => ?_) fun hs => ?_
  · exact (of_awaits_service hi).elim id fun hi => .inl ⟨v, hi⟩
  · show (Function.update s.services v _ .fetcher).loop = none
    by_cases hv : Periodic.fetcher = v
    · subst hv
      rw [Function.update_self]
      rfl
    · rw [Function.update_of_ne hv]
      exact h.shut hs

/-- A worker whose loop starts no tick. -/
theorem worker (h : s.Tracked) {w x : Worker} (hw : s.workers[k]? = some w)
    (hx : ∀ i, w.pid = some i → finished s.net i = true ∨ x.pid = some i) (ho : ∀ i, x.pid = some i → w.pid = some i) :
    Tracked { s with workers := s.workers.set k x } := by
  refine h.same rfl rfl (fun i => awaits_worker hw hx) (fun i hi => ?_) h.shut
  exact (of_awaits_worker hi).elim id fun hi => .inr ⟨w, List.mem_of_getElem? hw, ho i hi⟩

theorem tick (h : s.Tracked) {w : Worker} (hw : s.workers[k]? = some w)
    (hx : ∀ i, w.pid = some i → finished s.net i = true) : (s.tick reg me k).Tracked := by
  have hk := (List.getElem?_eq_some_iff.mp hw).1
  refine h.launched rfl rfl (.inr ⟨_, List.mem_set hk _, rfl⟩) (fun i => awaits_worker hw fun i hi => .inl (hx i hi))
    (fun i hi => ?_) h.shut
  refine (of_awaits_worker hi).imp_right fun hi => ?_
  cases hi
  rfl

theorem startWorker (h : s.Tracked) (hs : s.startWorker reg me k = some s') : s'.Tracked := by
  unfold Instance.startWorker at hs
  split at hs
  · cases hs
  · rename_i hw
    cases hs
    exact h.tick hw fun i hi => (by cases hi)
  · cases hs
    exact h

theorem stopWorker (h : s.Tracked) (hs : s.stopWorker k = some s') : s'.Tracked := by
  unfold Instance.stopWorker at hs
  split at hs
  · cases hs
  · rename_i w hw
    cases hs
    exact h.worker hw (fun i hi => .inr (by simpa using hi)) fun i hi => by simpa using hi

theorem nextTick (h : s.Tracked) (hs : s.nextTick reg me k = some s') : s'.Tracked := by
  unfold Instance.nextTick at hs
  split at hs
  · rename_i pid hw
    split at hs
    · rename_i hf
      cases hs
      refine h.tick hw fun i hi => ?_
      cases hi
      exact hf
    · cases hs
  · rename_i pid hw
    split at hs
    · rename_i hf
      cases hs
      refine h.worker hw (fun i hi => ?_) fun i hi => (by cases hi)
      cases hi
      exact .inl hf
    · cases hs
  · rename_i hw
    cases hs
    exact h.worker hw (fun i hi => (by cases hi)) fun i hi => (by cases hi)
  · cases hs

/-- `stop` on every worker. -/
theorem stopAll (h : s.Tracked) (stage : Stage) (hs : stage ≠ .serving → (s.services .fetcher).loop = none) :
    Tracked { s with workers := s.workers.map Worker.stop, stage } := by
  refine h.same rfl rfl (fun i hi => .inr (hi.imp_right ?_)) (fun i hi => hi.imp_right ?_) hs
  · rintro ⟨w, hw, hi⟩
    exact ⟨_, List.mem_map_of_mem hw, by simpa using hi⟩
  · rintro ⟨w, hw, hi⟩
    obtain ⟨x, hx, rfl⟩ := List.mem_map.mp hw
    exact ⟨x, hx, by simpa using hi⟩

theorem shutdown (h : s.Tracked) : s.shutdown.Tracked := by
  unfold Instance.shutdown
  split
  · refine (h.stop .fetcher).stopAll .draining fun _ => ?_
    simp only [Instance.stop, Function.update_self]
    rfl
  · exact h

theorem resolve (h : s.Tracked) {stage : Stage} (hs : s.resolve stage = some s') : s'.Tracked := by
  obtain ⟨hd, rfl⟩ := resolve_cases hs
  have hstop := h.stop .dispatcher
  exact hstop.same rfl rfl (fun i hi => .inr hi) (fun i hi => hi) fun _ => hstop.shut (by simp [Instance.stop, hd])

theorem dispatchOnce (h : s.Tracked) : (s.dispatchOnce reg).Tracked := by
  unfold Instance.dispatchOnce
  split
  · exact h
  · have hspawn : (pipeline reg).Step s.net (.spawn .dispatchOnce)
        { s.net with procs := s.net.procs ++ [Task.dispatchOnce.start reg] } := .spawn
    have hnet := h.net hspawn
    exact ⟨hnet.awaited, h.mine, hnet.started, h.shut⟩

/-- Once `shutdown` was called the fetcher has to stay stopped. -/
theorem step {m : Move} (h : s.Tracked) (hm : ∀ v, m = .start v → s.stage = .serving)
    (hs : s.step reg me m = some s') : s'.Tracked := by
  cases m with
  | net l =>
    obtain ⟨c, hc, rfl⟩ := Option.map_eq_some_iff.mp hs
    exact h.net (Core.Program.step_sound hc)
  | start v =>
    cases hs
    exact h.start (hm v rfl)
  | stop v =>
    cases hs
    exact h.stop v
  | next v => exact h.next hs
  | dispatchOnce =>
    cases hs
    exact h.dispatchOnce
  | startWorker k => exact h.startWorker hs
  | stopWorker k => exact h.stopWorker hs
  | nextTick k => exact h.nextTick hs
  | shutdown =>
    cases hs
    exact h.shutdown
  | allStopped => exact h.resolve (allStopped_cases hs).2
  | graceOver => exact h.resolve hs

theorem init (n : Nat) : (initialInstance n).Tracked where
  awaited i hi := by cases hi
  mine i hi := by
    rcases hi with ⟨v, hv⟩ | ⟨w, hw, hi⟩
    · cases hv
    · rw [List.eq_of_mem_replicate hw] at hi
      cases hi
  started i hi := by cases hi
  shut _ := rfl

end Tracked

/-- What a move does to the net and to the list of what the loops have started. -/
inductive Shows (reg : Registry) (s : Instance) (m : Move) (s' : Instance) : Prop where
  | still (hnet : s'.net = s.net) (hmine : s'.mine = s.mine)
  | call {l} (hm : m = .net l) (hs : (pipeline reg).Step s.net l s'.net) (hmine : s'.mine = s.mine)
  | spawn {t} (hs : (pipeline reg).Step s.net (.spawn t) s'.net)
      (hmine : ∀ i ∈ s'.mine, i ∈ s.mine ∨ i = s.net.procs.length)

theorem launch_shows {m : Move} {t : Task} (hnet : s'.net = { s.net with procs := s.net.procs ++ [t.start reg] })
    (hmine : s'.mine = s.net.procs.length :: s.mine) : Shows reg s m s' := by
  refine .spawn (t := t) ?_ fun i hi => ?_
  · rw [hnet]
    exact .spawn
  · rw [hmine] at hi
    exact (List.mem_cons.mp hi).symm

theorem enter_shows {m : Move} : Shows reg s m (s.enter reg v) := by
  cases v with
  | fetcher => exact launch_shows (t := .fetchCycle) rfl rfl
  | dispatcher =>
    simp only [Instance.enter]
    split
    · exact .still rfl rfl
    · exact launch_shows (t := .dispatchOnce) rfl rfl

theorem step_shows {m : Move} (hs : s.step reg me m = some s') : Shows reg s m s' := by
  cases m with
  | net l =>
    obtain ⟨c, hc, rfl⟩ := Option.map_eq_some_iff.mp hs
    exact .call rfl (Core.Program.step_sound hc) rfl
  | start v =>
    cases hs
    unfold Instance.start
    split
    · exact .still rfl rfl
    · exact enter_shows
  | stop v =>
    cases hs
    exact .still rfl rfl
  | next v =>
    simp only [Instance.step, Instance.next] at hs
    split at hs
    · split at hs
      · cases hs
        exact .still rfl rfl
      · cases hs
    · cases hs
      exact enter_shows
    · cases hs
  | dispatchOnce =>
    cases hs
    unfold Instance.dispatchOnce
    split
    · exact .still rfl rfl
    · exact .spawn (t := .dispatchOnce) .spawn fun i hi => .inl hi
  | startWorker k =>
    simp only [Instance.step, Instance.startWorker] at hs
    split at hs
    · cases hs
    · cases hs
      exact launch_shows rfl rfl
    · cases hs
      exact .still rfl rfl
  | stopWorker k =>
    simp only [Instance.step, Instance.stopWorker] at hs
    split at hs
    · cases hs
    · cases hs
      exact .still rfl rfl
  | nextTick k =>
    simp only [Instance.step, Instance.nextTick] at hs
    split at hs
    · split at hs
      · cases hs
        exact launch_shows rfl rfl
      · cases hs
    · split at hs
      · cases hs
        exact .still rfl rfl
      · cases hs
    · cases hs
      exact .still rfl rfl
    · cases hs
  | shutdown =>
    cases hs
    unfold Instance.shutdown
    split <;> exact .still rfl rfl
  | allStopped =>
    obtain ⟨-, rfl⟩ := resolve_cases (allStopped_cases hs).2
    exact .still rfl rfl
  | graceOver =>
    obtain ⟨-, rfl⟩ := resolve_cases hs
    exact .still rfl rfl

/-- The net of an instance's run is one of the pipeline's. -/
theorem net_reachable {H : Instance → Move → Prop} {K : State → Label → Prop} {n : Nat}
    (hH : ∀ s l, H s (.net l) → K s.net l) (hK : ∀ c t, K c (.spawn t))
    (h : ((instances reg me n).restrict H).Reachable s) : ((runs reg).restrict K).Reachable s.net := by
  induction h with
  | init hi => exact .init (congrArg Instance.net hi)
  | @step s m s' _ hs ih =>
    cases step_shows hs.1 with
    | still hnet _ =>
      rw [hnet]
      exact ih
    | call hm hstep _ =>
      subst hm
      exact .step ih ⟨hstep, hH _ _ hs.2⟩
    | spawn hstep _ => exact .step ih ⟨hstep, hK _ _⟩

/-- No loop goes into a cycle again. -/
structure Halted (s : Instance) : Prop where
  services : ∀ v, (s.services v).loop = none
  workers : ∀ w ∈ s.workers, w = .stopped

theorem Halted.stop (h : s.Halted) (v : Periodic) : (s.stop v).Halted := by
  refine ⟨fun u => ?_, h.workers⟩
  simp only [Instance.stop]
  rcases eq_or_ne u v with rfl | hne
  · rw [Function.update_self]
    rfl
  · rw [Function.update_of_ne hne]
    exact h.services u

/-- Without a call that starts a loop there is no further cycle. -/
theorem Halted.step {m : Move} (h : s.Halted) (hm : m.starts = false) (hs : s.step reg me m = some s') :
    s'.Halted ∧ s'.mine = s.mine := by
  cases m with
  | start v | startWorker k => cases hm
  | net l =>
    obtain ⟨c, -, rfl⟩ := Option.map_eq_some_iff.mp hs
    exact ⟨⟨h.services, h.workers⟩, rfl⟩
  | stop v =>
    cases hs
    exact ⟨h.stop v, rfl⟩
  | next v =>
    simp only [Instance.step, Instance.next, h.services v] at hs
    cases hs
  | dispatchOnce =>
    cases hs
    unfold Instance.dispatchOnce
    split
    · exact ⟨h, rfl⟩
    · exact ⟨⟨h.services, h.workers⟩, rfl⟩
  | stopWorker k =>
    simp only [Instance.step, Instance.stopWorker] at hs
    split at hs
    · cases hs
    · rename_i w hw
      cases hs
      refine ⟨⟨h.services, fun x hx => ?_⟩, rfl⟩
      rcases List.mem_or_eq_of_mem_set hx with hx | rfl
      · exact h.workers x hx
      · rw [h.workers w (List.mem_of_getElem? hw)]
        rfl
  | nextTick k =>
    simp only [Instance.step, Instance.nextTick] at hs
    cases hw : s.workers[k]? with
    | none =>
      rw [hw] at hs
      cases hs
    | some w =>
      rw [hw, h.workers w (List.mem_of_getElem? hw)] at hs
      cases hs
  | shutdown =>
    cases hs
    unfold Instance.shutdown
    split
    · refine ⟨⟨(h.stop .fetcher).services, fun x hx => ?_⟩, rfl⟩
      obtain ⟨w, hw, rfl⟩ := List.mem_map.mp hx
      rw [h.workers w hw]
      rfl
    · exact ⟨h, rfl⟩
  | allStopped =>
    obtain ⟨-, rfl⟩ := resolve_cases (allStopped_cases hs).2
    exact ⟨⟨(h.stop .dispatcher).services, h.workers⟩, rfl⟩
  | graceOver =>
    obtain ⟨-, rfl⟩ := resolve_cases hs
    exact ⟨⟨(h.stop .dispatcher).services, h.workers⟩, rfl⟩

/-- When `shutdown` resolves with its workers stopped no loop is left that goes on. -/
theorem Tracked.halted (h : s.Tracked) (hs : s.step reg me .allStopped = some s') :
    s'.Halted ∧ s'.net = s.net ∧ s'.mine = s.mine := by
  obtain ⟨hw, hs⟩ := allStopped_cases hs
  obtain ⟨hd, rfl⟩ := resolve_cases hs
  refine ⟨⟨fun v => ?_, hw⟩, rfl, rfl⟩
  cases v with
  | fetcher => exact h.shut (by simp [hd])
  | dispatcher => rfl

end Instance
end

end NestPlayground.L4
