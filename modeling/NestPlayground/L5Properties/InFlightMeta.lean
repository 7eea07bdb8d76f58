import NestPlayground.L4Pipeline.Identity

/-!
# In-flight metadata

`dequeue` reads the head of the ready queue, then the retry count and the group
of that job, and passes both to `reliable-dequeue.lua`, which pops whatever job
is at the head by then and writes them as its metadata. The metadata is the
popped job's own while the script pops the job its call peeked at and nobody
rewrites what the call has read; otherwise orphan recovery goes by another
job's group and retry count (`metadata_of_another_job`): it looks into the job's
own hash only when there is no metadata at all.
-/
namespace NestPlayground.L5.InFlightMeta
open L1 L3 L4

/-- A look at the head of the ready queue. -/
def peeks : (cmd : Cmd) → Reply cmd → Option (Option JobId)
  | .readyHead, jobs => some jobs.head?
  | _, _ => none

/-- The job activity `i` saw at the head when it last looked. -/
def peeked (i : Nat) (log : Log) : Option JobId :=
  (log.filterMap fun e => if e.pid = i then peeks e.cmd e.reply else none).head?.join

/-- A `dequeue` call that has read the retry count. -/
def readCount : Proc → Bool
  | .tick (.dequeue (.peekGroupId _ _ _ _)) => true
  | .tick (.dequeue (.script _ _ _ _)) => true
  | _ => false

/-- A `dequeue` call that has read the group. -/
def readGroup : Proc → Bool
  | .tick (.dequeue (.script _ _ _ _)) => true
  | _ => false

def takes : Cmd → Bool
  | .reliableDequeue _ _ _ _ => true
  | _ => false

/-- The script pops the job its call peeked at. -/
def SameHead (reg : Registry) : State → Label → Prop :=
  onCalls reg fun c i cmd _ => takes cmd = true → ∀ j ∈ c.world.readyQueue.head?, peeked i c.log = some j

/-- No call changes what a pending `dequeue` call has read of the job it peeked at. -/
def Undisturbed (reg : Registry) : State → Label → Prop :=
  onCalls reg fun c _ cmd inp => ∀ k < c.procs.length, ∀ p ∈ c.procs[k]?, ∀ j ∈ peeked k c.log,
    (readCount p = true → ((exec reg cmd inp c.world).1.jobs j).retryCount = (c.world.jobs j).retryCount) ∧
    (readGroup p = true → ((exec reg cmd inp c.world).1.jobs j).groupId = (c.world.jobs j).groupId)

instance (reg : Registry) (c : State) (l : Label) : Decidable (SameHead reg c l) :=
  instDecidableOnCalls reg
    (fun c i cmd _ => takes cmd = true → ∀ j ∈ c.world.readyQueue.head?, peeked i c.log = some j) c l

instance (reg : Registry) (c : State) (l : Label) : Decidable (Undisturbed reg c l) :=
  instDecidableOnCalls reg (fun c _ cmd inp => ∀ k < c.procs.length, ∀ p ∈ c.procs[k]?, ∀ j ∈ peeked k c.log,
    (readCount p = true → ((exec reg cmd inp c.world).1.jobs j).retryCount = (c.world.jobs j).retryCount) ∧
    (readGroup p = true → ((exec reg cmd inp c.world).1.jobs j).groupId = (c.world.jobs j).groupId)) c l

/-- The metadata of `j` is that of its own hash. -/
def Belongs (w : Store) (j : JobId) : Prop :=
  (w.inFlightMeta j).groupId = (w.jobs j).groupId ∧ (w.inFlightMeta j).retryCount = (w.jobs j).retryCount

/-- The latest call, if it registered a job, wrote metadata that belongs to it. -/
def Registered (c : State) : Prop :=
  ∀ e ∈ c.log.head?, ∀ j ∈ delivers e.cmd e.reply, Belongs c.world j

section
variable {reg : Registry} {cmd : Cmd} {inp : Input} {s : Store} {log : Log} {i k : Nat} {j : JobId}

theorem peeked_self {r : Reply cmd} {head : Option JobId} (h : peeks cmd r = some head) :
    peeked i (⟨i, cmd, r⟩ :: log) = head := by
  simp [peeked, h]

theorem peeked_skip {r : Reply cmd} (h : k ≠ i ∨ peeks cmd r = none) :
    peeked i (⟨k, cmd, r⟩ :: log) = peeked i log := by
  have hnone : (if k = i then peeks cmd r else none) = none := by
    rcases h with h | h
    · rw [if_neg h]
    · rw [h, ite_self]
  simp only [peeked, List.filterMap_cons, hnone]

/-- What a pending call knows of the job it peeked at. -/
def Saw (w : Store) (log : Log) (i : Nat) : Proc → Prop
  | .tick (.dequeue (.peekRetryCount _ _ j)) => peeked i log = some j
  | .tick (.dequeue (.peekGroupId _ _ j n)) => peeked i log = some j ∧ n = (w.jobs j).retryCount.getD 0
  | .tick (.dequeue (.script _ _ n g)) => ∀ j ∈ peeked i log,
      n = (w.jobs j).retryCount.getD 0 ∧ g = (w.jobs j).groupId.getD ""
  | _ => True

/-- In the middle of `dequeue`. -/
def looking : Proc → Bool
  | .tick (.dequeue _) => true
  | _ => false

theorem saw_of_not_looking {p : Proc} (h : looking p = false) : Saw s log i p := by
  cases p with
  | tick p => cases p <;> trivial
  | _ => trivial

theorem Saw.frame {w w' : Store} {log' : Log} {p : Proc} (h : Saw w log i p) (hlog : peeked i log' = peeked i log)
    (hkeep : ∀ j ∈ peeked i log, (readCount p = true → (w'.jobs j).retryCount = (w.jobs j).retryCount) ∧
      (readGroup p = true → (w'.jobs j).groupId = (w.jobs j).groupId)) : Saw w' log' i p := by
  by_cases hl : looking p = true
  · cases p with
    | tick p =>
      cases p with
      | dequeue p =>
        cases p with
        | length | peek => trivial
        | peekRetryCount w i' j => exact hlog.trans h
        | peekGroupId w i' j n =>
          obtain ⟨hj, hn⟩ := h
          refine ⟨hlog.trans hj, ?_⟩
          rw [(hkeep j hj).1 rfl]
          exact hn
        | script w i' n g =>
          intro j hj
          rw [hlog] at hj
          rw [(hkeep j hj).1 rfl, (hkeep j hj).2 rfl]
          exact h j hj
      | _ => cases hl
    | _ => cases hl
  · exact saw_of_not_looking (eq_false_of_ne_true hl)

/-- Whoever is not in `dequeue` does not come into it by a step. -/
theorem looking_spec {p : Proc} (h : looking p = false) :
    (p.view reg).Spec (fun _ => True) (fun _ _ p' => looking p' = false) fun _ p' => looking p' = false := by
  have lift : ∀ {Pc α : Type} {P : Pc → Prop} {f : Pc → Proc} {a : Await Pc α},
      a.Spec (fun _ => True) (fun _ _ x => x.All P) (fun _ x => x.All P) → (∀ p, P p → looking (f p) = false) →
      (a.map (resume f)).Spec (fun _ => True) (fun _ _ p' => looking p' = false) fun _ p' => looking p' = false := by
    intro Pc α P f a ha hf
    have hres : ∀ x : Core.Next Pc α, x.All P → looking (resume f x) = false := by
      intro x hx
      cases x with
      | goto p => exact hf p hx
      | ret b => rfl
      | throw => rfl
    exact ha.map (fun _ _ x hx => hres x hx) fun _ x hx => hres x hx
  have other : ∀ {Pc α : Type} (a : Await Pc α), a.Spec (fun _ => True) (fun _ _ x => x.All fun _ => True)
      (fun _ x => x.All fun _ => True) := by
    intro Pc α a
    have hall : ∀ x : Core.Next Pc α, x.All fun _ => True := Core.Next.all_of_forall fun _ => trivial
    exact Core.Action.Spec.of_forall (fun _ => trivial) (fun _ _ => hall) (fun _ => hall) a
  cases p with
  | tick p =>
    refine lift (P := fun p => looking (.tick p) = false) ?_ fun _ h => h
    cases p with
    | dequeue p => cases h
    | loadJob j =>
      refine ⟨trivial, fun hash => ?_, trivial⟩
      simp only [TickPc.loaded]
      split
      · rfl
      · split <;> trivial
    | startTime j job =>
      refine ⟨trivial, fun r => ?_, trivial⟩
      simp only
      split <;> rfl
    | process j job t =>
      refine ⟨trivial, fun r => ?_, trivial⟩
      cases r with
      | none => rfl
      | some outcome => cases outcome <;> rfl
    | endTime j job t r =>
      refine ⟨trivial, fun r => ?_, trivial⟩
      simp only [Core.Next.All, TickPc.settle]
      split
      · rfl
      · split
        · split <;> rfl
        · rfl
    | complete p =>
      rw [TickPc.view]
      refine (other (p.view reg)).map (fun _ _ x _ => ?_) fun _ x _ => ?_ <;> cases x <;> trivial
    | failed p =>
      rw [TickPc.view]
      refine (other (p.view reg)).map (fun _ _ x _ => ?_) fun _ x _ => ?_ <;> cases x <;> trivial
    | cleanUp j => exact ⟨trivial, fun _ => trivial, trivial⟩
    | heartbeat | ack | nack => exact ⟨trivial, fun _ => rfl, rfl⟩
    | nackCaught => exact ⟨trivial, fun _ => rfl, trivial⟩
  | done => trivial
  | _ => exact lift (other _) fun _ _ => rfl

/-- The triple of every await: what a pending call has seen. -/
theorem saw_spec {p : Proc} (h : Saw s log i p) :
    (p.view reg).Spec (fun _ => True)
      (fun cmd r p' => ∀ inp, (exec reg cmd inp s).2 = r → Saw (exec reg cmd inp s).1 (⟨i, cmd, r⟩ :: log) i p')
      fun _ p' => Saw s log i p' := by
  by_cases hl : looking p = true
  · cases p with
    | tick p =>
      cases p with
      | dequeue p =>
        cases p with
        | length w k =>
          refine ⟨trivial, fun n inp _ => ?_, trivial⟩
          by_cases hn : n = 0
          · simp only [if_pos hn]
            trivial
          · simp only [if_neg hn]
            trivial
        | peek w k =>
          refine ⟨trivial, fun r inp _ => ?_, trivial⟩
          cases r with
          | nil =>
            intro j hj
            rw [peeked_self rfl] at hj
            cases hj
          | cons j rest => exact peeked_self rfl
        | peekRetryCount w k j =>
          refine ⟨trivial, fun r inp hr => ⟨(peeked_skip (.inr rfl)).trans h, ?_⟩, trivial⟩
          rw [← hr]
          rfl
        | peekGroupId w k j n =>
          refine ⟨trivial, fun r inp hr j' hj' => ?_, trivial⟩
          rw [peeked_skip (.inr rfl), h.1] at hj'
          cases hj'
          refine ⟨h.2, ?_⟩
          rw [← hr]
          rfl
        | script w k n g =>
          refine ⟨trivial, fun r inp _ => ?_, trivial⟩
          cases r <;> trivial
      | _ => cases hl
    | _ => cases hl
  · have hspec := @looking_spec reg p (eq_false_of_ne_true hl)
    cases hv : p.view reg with
    | call cmd ok err =>
      rw [hv] at hspec
      exact ⟨trivial, fun r _ _ => saw_of_not_looking (hspec.2.1 r), saw_of_not_looking hspec.2.2⟩
    | halt => trivial

/-- A pending call knows its job's retry count and group. -/
theorem saw_of_started {s : Store} {log : Log} {i : Nat} {p : Proc} (h : Started p) : Saw s log i p := by
  cases h <;> trivial

theorem saw_outline : Core.Program.Outline (pipeline reg) (Undisturbed reg) (fun _ _ => True) Saw where
  run := by
    intro c i inp p cmd ok err _ hA hp hv hH
    have hs := @saw_spec reg c.world c.log i p (hA i p hp)
    rw [show p.view reg = .call cmd ok err from hv] at hs
    refine ⟨trivial, hs.2.1 _ inp rfl, fun k q hk hq => ?_⟩
    have hundisturbed := onCalls_run hH hp hv
    exact (hA k q hq).frame (peeked_skip (.inl (Ne.symm hk)))
      (hundisturbed k (List.getElem?_eq_some_iff.mp hq).1 q hq)
  reject := by
    intro c i p cmd ok err _ hA hp hv _
    have hs := @saw_spec reg c.world c.log i p hA
    rw [show p.view reg = .call cmd ok err from hv] at hs
    exact hs.2.2
  dead := fun _ _ _ => trivial
  spawn := by
    intro c t _ _
    exact saw_of_started (t.started reg)
  env := by
    intro w log e _
    refine ⟨trivial, fun i q h => h.frame rfl fun j _ => ?_⟩
    cases e <;> exact ⟨fun _ => rfl, fun _ => rfl⟩

/-- The hash of a known job has a retry count. -/
theorem retryCount_exec (h : (s.jobs j).retryCount.isSome) :
    ((exec reg cmd inp s).1.jobs j).retryCount.isSome := by
  have hupdate : ∀ {k : JobId} {hash : JobHash}, hash.retryCount.isSome ∨ hash.retryCount = (s.jobs k).retryCount →
      (Function.update s.jobs k hash j).retryCount.isSome := by
    intro k hash hk
    rcases eq_or_ne j k with rfl | hne
    · rw [Function.update_self]
      rcases hk with hk | hk
      · exact hk
      · rw [hk]
        exact h
    · rw [Function.update_of_ne hne]
      exact h
  by_cases ha : aside cmd = true
  · rw [(untouched ha).jobs]
    exact h
  cases cmd with
  | enqueue req => exact hupdate (.inl rfl)
  | jobIncrRetryCount k => exact hupdate (.inl rfl)
  | jobResetRetryCount k => exact hupdate (.inl rfl)
  | ack k g => exact hupdate (.inr rfl)
  | jobSetStatus k st => exact hupdate (.inr rfl)
  | dequeue =>
    rcases L2.dequeue_cases Core.binary64 reg.config.fairQueue.alpha inp.now s with ⟨q, he⟩ | ⟨g, k, rest, q, -, he⟩
    · simp only [exec, he]
      exact h
    · simp only [exec, he]
      exact hupdate (.inr rfl)
  | moveToReady =>
    obtain ⟨_, _, he⟩ := @moveToReady_frame reg inp s
    rw [he]
    exact h
  | transitionStatus g t =>
    obtain ⟨m, he⟩ := @transitionStatus_frame reg inp s g t
    rw [he]
    exact h
  | reliableDequeue w k n g =>
    obtain ⟨_, _, _, he⟩ := @reliableDequeue_frame reg inp s w k n g
    rw [he]
    exact h
  | extendDeadline k =>
    obtain ⟨_, _, he⟩ := @extendDeadline_frame reg inp s k
    rw [he]
    exact h
  | recoverOrphans => exact L2.recoverBatch_retryCount _ _ _ _ h
  | _ => first | exact h | exact absurd rfl ha

theorem retryCount_known {H : State → Label → Prop} {c : State} (h : ((runs reg).restrict H).Reachable c) :
    ∀ j, Known (enqueued c.log) j → (c.world.jobs j).retryCount.isSome := by
  have L : Core.Program.Ledgered (pipeline reg) H
      fun w log => ∀ j, Known (enqueued log) j → (w.jobs j).retryCount.isSome := by
    refine ⟨?_, fun e h => by cases e <;> exact h⟩
    intro c i inp p cmd ok err hI _ _ _ j hj
    cases cmd with
    | enqueue req =>
      rcases eq_or_ne j req.jobId with rfl | hne
      · simp only [pipeline, exec, L2.enqueue, Function.update_self]
        rfl
      · obtain ⟨g, hg⟩ := hj
        rcases List.mem_cons.mp hg with he | hg
        · exact absurd (congrArg Prod.fst he) hne
        · exact @retryCount_exec reg _ inp _ j (hI j ⟨g, hg⟩)
    | _ => exact @retryCount_exec reg _ inp _ j (hI j hj)
  have h₀ : ∀ j, Known (enqueued initialState.log) j → (initialState.world.jobs j).retryCount.isSome := by
    rintro j ⟨g, hg⟩
    cases hg
  exact (L.inductive h₀).reachable c h

/-- Only `dequeue` calls the script. -/
theorem takes_spec {p : Proc} (h : looking p = false) : Calls (fun cmd => takes cmd = false) (p.view reg) := by
  cases p with
  | tick p =>
    refine Calls.map ?_
    cases p with
    | dequeue p => cases h
    | complete p =>
      rw [TickPc.view]
      refine Calls.map (Calls.mono (complete_calls reg p) fun cmd hc => ?_)
      cases cmd <;> first | rfl | cases hc
    | failed p =>
      rw [TickPc.view]
      refine Calls.map ?_
      cases p with
      | requeue p => cases p <;> exact ⟨rfl, fun _ => trivial, trivial⟩
      | _ => exact ⟨rfl, fun _ => trivial, trivial⟩
    | _ => exact ⟨rfl, fun _ => trivial, trivial⟩
  | _ =>
    refine (may_call reg _).mono fun cmd hc => ?_
    cases cmd <;> first | rfl | cases hc

/-- What a call passes to the script is what it has read. -/
theorem script_spec {p : Proc} (h : Saw s log i p) :
    Calls (fun cmd => ∀ w k n g, cmd = .reliableDequeue w k n g → ∀ j ∈ peeked i log,
      n = (s.jobs j).retryCount.getD 0 ∧ g = (s.jobs j).groupId.getD "") (p.view reg) := by
  by_cases hl : looking p = true
  · cases p with
    | tick p =>
      refine Calls.map ?_
      cases p with
      | dequeue p =>
        rw [TickPc.view]
        refine Calls.map ?_
        cases p with
        | script w k n g =>
          refine ⟨fun w' k' n' g' he => ?_, fun _ => trivial, trivial⟩
          cases he
          exact h
        | _ => exact ⟨fun _ _ _ _ he => (by cases he), fun _ => trivial, trivial⟩
      | _ => cases hl
    | _ => cases hl
  · refine (takes_spec (eq_false_of_ne_true hl)).mono fun cmd hc w k n g he => ?_
    rw [he] at hc
    cases hc

theorem registered_step {H : State → Label → Prop} (hH : ∀ c l, H c l → SameHead reg c l ∧ Undisturbed reg c l)
    {c c' : State} {l : Label} (h : ((runs reg).restrict H).Reachable c) (hc : Registered c)
    (hs : (pipeline reg).Step c l c') (hl : H c l) : Registered c' := by
  cases hs with
  | @run i inp p cmd ok err hp hv =>
    intro e he j hj
    cases he
    have hsaw := ((saw_outline.inductive ⟨trivial, fun i p hp => by simp [initialState] at hp⟩).reachable c
      (h.weaken fun c l h => (hH c l h).2)).2 i p hp
    have hid := (identity_reachable (fun c l _ => answers_true reg c l) h).1
    have hscript := @script_spec reg _ _ _ _ hsaw
    rw [show p.view reg = .call cmd ok err from hv] at hscript
    have hhead := onCalls_run (hH _ _ hl).1 hp hv
    cases cmd with
    | reliableDequeue w k n g =>
      cases hr : c.world.readyQueue with
      | nil => simp [pipeline, exec, L2.reliableDequeue, hr, delivers] at hj
      | cons j' rest =>
        have hjj : j' = j := by
          simpa [pipeline, exec, L2.reliableDequeue, hr, delivers] using hj
        subst hjj
        have hknown := hid.ready j' (hr ▸ List.mem_cons_self)
        obtain ⟨g', hg', -⟩ := (hid.hash j' hknown).2.2
        obtain ⟨n', hn'⟩ := Option.isSome_iff_exists.mp (retryCount_known h j' hknown)
        obtain ⟨rfl, rfl⟩ := hscript.1 w k n g rfl j' (hhead rfl j' (by simp [hr]))
        unfold Belongs
        simp [Core.Program.ran, pipeline, exec, L2.reliableDequeue, hr, hg', hn']
    | _ => cases hj
  | @env ev => cases ev <;> exact hc
  | reject | stop | spawn => exact hc

/-- In every run in which each script pops the job its call peeked at and no
call changes what a pending call has read of that job: the metadata a script
registers is that of the job's own hash. -/
theorem metadata_belongs (c : State)
    (h : ((runs reg).restrict fun c l => SameHead reg c l ∧ Undisturbed reg c l).Reachable c) :
    Registered c := by
  induction h with
  | init hc =>
    cases hc
    exact fun e he => (by cases he)
  | step hr hs ih => exact registered_step (fun _ _ h => h) hr ih hs.1 hs.2

end

/-- One worker takes the job of `oneJob`. -/
theorem metadata_belongs_one_job : ∃ c : State,
    (∃ e ∈ c.log.head?, delivers e.cmd e.reply = some "j") ∧ Registered c ∧
      (c.world.inFlightMeta "j").groupId = some "g" := by
  obtain ⟨c, hr, hP⟩ := Core.Program.exists_of_replay (S := pipeline {})
    (P := fun c : State => decide ((∃ e ∈ c.log.head?, delivers e.cmd e.reply = some "j") ∧
      (c.world.inFlightMeta "j").groupId = some "g"))
    (show ((pipeline {}).replay (fun c l => decide (SameHead {} c l ∧ Undisturbed {} c l)) initialState
      (oneJob ++ [.spawn (.tick "worker-0" "i")] ++ runsAt 2 3 5)).any _ = true by decide +kernel)
  have hr' : ((runs {}).restrict fun c l => SameHead {} c l ∧ Undisturbed {} c l).Reachable c :=
    Core.LTS.Reachable.weaken (fun _ _ h => of_decide_eq_true h) hr
  obtain ⟨hd, hg⟩ := of_decide_eq_true hP
  exact ⟨c, hd, metadata_belongs c hr', hg⟩

/-- The jobs `j` of the group `g` and `k` of the group `h` in the ready queue. -/
def twoGroups : List Label :=
  oneJob ++ [.spawn (.submitBulkJobs ⟨"h", "SEND_EMAIL", [⟨"k", "null"⟩], 0, .normal⟩)] ++ runsAt 2 1 4 ++
    [.spawn .fetchCycle] ++ runsAt 3 2 5

/-- Worker 4 has read the group of `j` when worker 5 takes `j`; its script takes
`k` and registers it with the group of `j`. -/
theorem metadata_of_another_job :
    ¬ ∀ (reg : Registry) (c : State), (runs reg).Reachable c → Registered c := by
  intro h
  obtain ⟨c, hr, hP⟩ := Core.Program.exists_of_replay (S := pipeline {})
    (P := fun c : State => decide ((∃ e ∈ c.log.head?, delivers e.cmd e.reply = some "k") ∧
      (c.world.inFlightMeta "k").groupId = some "g" ∧ (c.world.jobs "k").groupId = some "h"))
    (show ((pipeline {}).replay (fun _ _ => true) initialState
      (twoGroups ++ [.spawn (.tick "worker-0" "i"), .spawn (.tick "worker-1" "i")] ++ runsAt 4 3 4 ++
        runsAt 5 3 5 ++ runsAt 4 3 1)).any _ = true by decide +kernel)
  obtain ⟨⟨e, he, hd⟩, hmeta, hjob⟩ := of_decide_eq_true hP
  have hb := (h {} c hr.unrestrict e he "k" hd).1
  rw [hmeta, hjob] at hb
  exact absurd hb (by decide)

end NestPlayground.L5.InFlightMeta
