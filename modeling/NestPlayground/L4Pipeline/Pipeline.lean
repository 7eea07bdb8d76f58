import NestPlayground.L3Services.Worker
import NestPlayground.L3Services.Watcher
import NestPlayground.L3Services.Operations

/-!
# The whole pipeline

Any number of instances, workers and API callers over one Redis. A timer
callback, a turn of a polling loop or an API call is a task; the periodic
loops of the services only start such tasks one after the other, so a run in
which tasks start at any time and in any number covers them. A stopped
process takes its activities with it (label `stop`), a rejected call has no
effect on the store (label `reject`), and a key with a TTL may expire at any
moment (label `env`).
-/
namespace NestPlayground.L4
open L1 L3

/-- What can be started. `workerId` and `instanceId` name the worker whose turn
it is. -/
inductive Task where
  | submitJob (req : BulkActionRequest)
  | submitBulkJobs (req : SubmitBulkJobsRequest)
  | fetchCycle
  | dispatchOnce
  | tick (workerId instanceId : String)
  | recoverOnce
  | watchCycle
  | finalizeGroup (groupId : GroupId)
  | retry (jobId : JobId)
  | retryAll
  | purge (jobId : JobId)
  | cleanup (olderThanMs : Option Nat)
  | releaseFromNonReady (groupId : GroupId) (count : Int)
  | resetGroupStats (groupId : GroupId)
  | deactivateGroup (groupId : GroupId)

inductive Proc where
  | submit (p : SubmitPc)
  | fetch (p : FetchPc)
  | dispatch (p : DispatchPc)
  | tick (p : TickPc)
  | recovery (p : RecoveryPc)
  | watch (p : WatchPc)
  | finalize (p : FinalizePc)
  | deadLetter (p : DeadLetterPc)
  | call (p : CallPc)
  | done

/-- The activity after a step of its function. -/
def resume {Pc α : Type} (f : Pc → Proc) : Core.Next Pc α → Proc
  | .goto p => f p
  | _ => .done

def Proc.view (reg : Registry) : Proc → Core.Action Reply Proc
  | .submit p => p.view.map (resume .submit)
  | .fetch p => (p.view reg).map (resume .fetch)
  | .dispatch p => (p.view reg).map (resume .dispatch)
  | .tick p => (p.view reg).map (resume .tick)
  | .recovery p => (p.view reg).map (resume .recovery)
  | .watch p => (p.view reg).map (resume .watch)
  | .finalize p => (p.view reg).map (resume .finalize)
  | .deadLetter p => p.view.map (resume .deadLetter)
  | .call p => p.view.map (resume .call)
  | .done => .halt

def Task.start (reg : Registry) : Task → Proc
  | .submitJob req => .submit (.enqueue req)
  | .submitBulkJobs req => .submit (SubmitPc.loop req req.jobs)
  | .fetchCycle => resume .fetch (FetchPc.loop reg 0)
  | .dispatchOnce => .dispatch .hasCapacity
  | .tick w i => .tick (.dequeue (.length w i))
  | .recoverOnce => .recovery .script
  | .watchCycle => .watch .members
  | .finalizeGroup g => .finalize (.start g)
  | .retry j => .deadLetter (.retryList j)
  | .retryAll => .deadLetter (.allPop 0)
  | .purge j => .deadLetter (.purgeList j)
  | .cleanup ms => .deadLetter (.cleanupClock (ms.getD reg.config.reliableQueue.deadLetterRetentionMs))
  | .releaseFromNonReady g n => .call (.releaseFromNonReady g n)
  | .resetGroupStats g => .call (.resetGroupStats g)
  | .deactivateGroup g => .call (.deactivateGroup g)

/-- Where a task starts. -/
inductive Started : Proc → Prop where
  | submit (p : SubmitPc) : Started (.submit p)
  | fetch : Started (.fetch (.hasCapacity 0))
  | dispatch : Started (.dispatch .hasCapacity)
  | tick (workerId instanceId : String) : Started (.tick (.dequeue (.length workerId instanceId)))
  | recovery : Started (.recovery .script)
  | watch : Started (.watch .members)
  | finalize (g : GroupId) : Started (.finalize (.start g))
  | retryList (j : JobId) : Started (.deadLetter (.retryList j))
  | allPop : Started (.deadLetter (.allPop 0))
  | purgeList (j : JobId) : Started (.deadLetter (.purgeList j))
  | cleanupClock (ms : Nat) : Started (.deadLetter (.cleanupClock ms))
  | call (p : CallPc) : Started (.call p)
  | done : Started .done

theorem Task.started (reg : Registry) (t : Task) : Started (t.start reg) := by
  cases t with
  | fetchCycle =>
    simp only [Task.start, FetchPc.loop]
    split
    · exact .fetch
    · exact .done
  | _ => constructor

/-- The keys with a TTL. -/
inductive Expiry where
  | lock (key : LockKey)
  | rateLimit (key : String)

def expire : Expiry → Store → Store
  | .lock key, s => { s with locks := Function.update s.locks key none }
  | .rateLimit key, s => { s with rateLimit := Function.update s.rateLimit key 0 }

def pipeline (reg : Registry) : Core.Program Reply Store Input Expiry Task Proc where
  exec := exec reg
  remote := Cmd.remote
  view := Proc.view reg
  start := Task.start reg
  env := expire
  dead := .done

abbrev State := Core.Net Reply Store Proc
abbrev Label := Core.Label Input Expiry Task
abbrev Log := List (Core.Entry Reply)

def initialState : State := ⟨.empty, [], []⟩

/-- The runs from an empty database. -/
def runs (reg : Registry) : Core.LTS State Label := (pipeline reg).lts initialState

/-- The call activity `i` is about to make. -/
def nextCall (reg : Registry) (c : State) (i : Nat) : Option Cmd :=
  match c.procs[i]? with
  | some p =>
    match p.view reg with
    | .call cmd _ _ => some cmd
    | .halt => none
  | none => none

/-- A step condition on the executed calls only. -/
def onCalls (reg : Registry) (ok : State → Nat → Cmd → Input → Prop) (c : State) : Label → Prop
  | .run i inp =>
    match nextCall reg c i with
    | some cmd => ok c i cmd inp
    | none => True
  | _ => True

instance instDecidableOnCalls (reg : Registry) (ok : State → Nat → Cmd → Input → Prop)
    [∀ c i cmd inp, Decidable (ok c i cmd inp)] (c : State) (l : Label) : Decidable (onCalls reg ok c l) :=
  match l with
  | .run i inp =>
    match h : nextCall reg c i with
    | some cmd => decidable_of_iff (ok c i cmd inp) (by simp [onCalls, h])
    | none => isTrue (by simp [onCalls, h])
  | .reject _ | .stop _ | .spawn _ | .env _ => isTrue trivial

/-- No process stops and no call rejects. -/
def Faultless : Label → Prop
  | .stop _ => False
  | .reject _ => False
  | _ => True

instance (l : Label) : Decidable (Faultless l) :=
  match l with
  | .stop _ | .reject _ => isFalse id
  | .run _ _ | .spawn _ | .env _ => isTrue trivial

theorem nextCall_eq {reg : Registry} {c : State} {i : Nat} {p : Proc} {cmd : Cmd}
    {ok : Reply cmd → Proc} {err : Proc} (hp : c.procs[i]? = some p)
    (hv : p.view reg = .call cmd ok err) : nextCall reg c i = some cmd := by
  simp [nextCall, hp, hv]

theorem onCalls_run {reg : Registry} {ok : State → Nat → Cmd → Input → Prop} {c : State} {i : Nat}
    {inp : Input} {p : Proc} {cmd : Cmd} {k : Reply cmd → Proc} {err : Proc}
    (h : onCalls reg ok c (.run i inp)) (hp : c.procs[i]? = some p) (hv : p.view reg = .call cmd k err) :
    ok c i cmd inp := by
  simpa only [onCalls, nextCall_eq hp hv] using h

/-- Activity `i` is over. -/
def finished (c : State) (i : Nat) : Bool :=
  match c.procs[i]? with
  | some .done => true
  | _ => false

theorem finished_iff {c : State} {i : Nat} : finished c i = true ↔ c.procs[i]? = some .done := by
  unfold finished
  split
  · rename_i h
    exact iff_of_true rfl h
  · rename_i h
    exact iff_of_false (fun h => (by cases h)) h

/-- An activity that is over stays so. -/
theorem finished_step {reg : Registry} {c c' : State} {l : Label} {i : Nat}
    (hs : (pipeline reg).Step c l c') (h : finished c i = true) :
    finished c' i = true := by
  rw [finished_iff] at h ⊢
  have hlt := (List.getElem?_eq_some_iff.mp h).1
  cases hs with
  | @run m inp p cmd ok err hp hv | @reject m p cmd ok err hp hv =>
    rcases eq_or_ne i m with rfl | hne
    · rw [h] at hp
      cases hp
      cases hv
    · exact (List.getElem?_set_ne hne.symm).trans h
  | @stop m p hp =>
    rcases eq_or_ne i m with rfl | hne
    · exact List.getElem?_set_self hlt
    · exact (List.getElem?_set_ne hne.symm).trans h
  | spawn => exact (List.getElem?_append_left hlt).trans h
  | env => exact h

/-- A step of activity `i` at time `now`, to write schedules with. -/
def runAt (i now : Nat) : Label := .run i { now }

/-! ## Schedules -/

def runsAt (i now n : Nat) : List Label := List.replicate n (runAt i now)

/-- Activity 0 submits the group `g` of one job `j`; activity 1 fetches it. -/
def oneJob : List Label :=
  [.spawn (.submitBulkJobs ⟨"g", "SEND_EMAIL", [⟨"j", "null"⟩], 0, .normal⟩)] ++ runsAt 0 1 4 ++
    [.spawn .fetchCycle] ++ runsAt 1 2 5

/-- Worker `i` takes the job `j` of `g` and processes it with success; its ack is next. -/
def processed (i now : Nat) : List Label :=
  [.spawn (.tick "worker-0" "i")] ++ runsAt i now 7 ++
    [.run i { now, outcome := some (.returned ⟨"j", "g", true, none, none, 0, none⟩) }] ++ runsAt i now 1

/-! ## The history -/

def enqueues : Cmd → Option (JobId × GroupId)
  | .enqueue req => some (req.jobId, req.jobGroupId)
  | _ => none

def records : Cmd → Option (JobId × GroupId)
  | .recordJobResult r => some (r.jobId, r.groupId)
  | _ => none

def acks : Cmd → Option (JobId × GroupId)
  | .ack j g => some (j, g)
  | _ => none

def fetches : (cmd : Cmd) → Reply cmd → Option (JobId × GroupId)
  | .dequeue, some hash => some (hash.id.getD "", hash.groupId.getD "")
  | _, _ => none

def delivers : (cmd : Cmd) → Reply cmd → Option JobId
  | .reliableDequeue _ _ _ _, some (j, _) => some j
  | _, _ => none

/-- The jobs enqueued, with the group each went to, latest first. -/
def enqueued (log : Log) : List (JobId × GroupId) := log.filterMap fun e => enqueues e.cmd

/-- The results recorded: the job each names and the group it was charged to. -/
def recorded (log : Log) : List (JobId × GroupId) := log.filterMap fun e => records e.cmd

/-- The executions of `ack.lua`: the job and the group charged. -/
def acked (log : Log) : List (JobId × GroupId) := log.filterMap fun e => acks e.cmd

/-- The jobs `dequeue.lua` returned. -/
def fetched (log : Log) : List (JobId × GroupId) := log.filterMap fun e => fetches e.cmd e.reply

/-- The jobs `reliable-dequeue.lua` handed out, with the activity that got each. -/
def delivered (log : Log) : List (JobId × Nat) :=
  log.filterMap fun e => (delivers e.cmd e.reply).map (·, e.pid)

section
variable (i : Nat) (cmd : Cmd) (r : Reply cmd) (log : Log)

@[simp] theorem enqueued_cons :
    enqueued (⟨i, cmd, r⟩ :: log) = (enqueues cmd).toList ++ enqueued log := by
  cases h : enqueues cmd <;> simp [enqueued, h]

@[simp] theorem recorded_cons :
    recorded (⟨i, cmd, r⟩ :: log) = (records cmd).toList ++ recorded log := by
  cases h : records cmd <;> simp [recorded, h]

@[simp] theorem acked_cons : acked (⟨i, cmd, r⟩ :: log) = (acks cmd).toList ++ acked log := by
  cases h : acks cmd <;> simp [acked, h]

@[simp] theorem fetched_cons :
    fetched (⟨i, cmd, r⟩ :: log) = (fetches cmd r).toList ++ fetched log := by
  cases h : fetches cmd r <;> simp [fetched, h]

@[simp] theorem delivered_cons :
    delivered (⟨i, cmd, r⟩ :: log) = ((delivers cmd r).map (·, i)).toList ++ delivered log := by
  cases h : delivers cmd r <;> simp [delivered, h]

end

theorem mem_enqueued_cons {e : Core.Entry Reply} {log : Log} {x : JobId × GroupId} (h : x ∈ enqueued log) :
    x ∈ enqueued (e :: log) := by
  obtain ⟨i, cmd, r⟩ := e
  rw [enqueued_cons]
  exact List.mem_append_right _ h

theorem countP_fst (xs : List (JobId × GroupId)) (j : JobId) :
    xs.countP (·.1 = j) = (xs.map Prod.fst).count j := by
  rw [List.count, List.countP_map]
  refine List.countP_congr fun x _ => ?_
  simp

/-! ## The calls of a run with its past -/

abbrev Past := List (State × Label)

/-- An executed call: who made it, and on what store. -/
structure Call where
  pid : Nat
  cmd : Cmd
  inp : Input
  world : Store

/-- The call a step executes. -/
def callOf (reg : Registry) (c : State) : Label → Option Call
  | .run i inp => (nextCall reg c i).map fun cmd => ⟨i, cmd, inp, c.world⟩
  | _ => none

/-- The executed calls of a run, latest first. -/
def calls (reg : Registry) (past : Past) : List Call := past.filterMap fun e => callOf reg e.1 e.2

theorem callOf_run {reg : Registry} {c : State} {i : Nat} {inp : Input} {p : Proc} {cmd : Cmd}
    {ok : Reply cmd → Proc} {err : Proc} (hp : c.procs[i]? = some p) (hv : p.view reg = .call cmd ok err) :
    callOf reg c (.run i inp) = some ⟨i, cmd, inp, c.world⟩ := by
  simp [callOf, nextCall_eq hp hv]

end NestPlayground.L4
