import NestPlayground.L4Pipeline.Tokens

/-!
# The admission path

A fetch cycle takes a job off the list of its group (`dequeue.lua`) and then
has to admit it. The size of the ready queue is tested before the job is
taken, again at the start of `admit` and again in `ready-queue-push.lua`, and
other producers fill the queue in between; an admission that finds it full
answers REJECTED and the cycle ends without putting the job anywhere
(`rejected_job_is_gone`). While every admission finds room, no job is lost.
-/
namespace NestPlayground.L5.Admission
open L1 L3 L4

/-- `admit` is about to test the size of the ready queue. -/
def tests : Proc → Bool
  | .fetch (.admission _ (.hasCapacity _)) => true
  | .fetch (.admission _ (.push _)) => true
  | _ => false

/-- Every admission finds the ready queue below its limit. -/
def Roomy (reg : Registry) (c : State) : Label → Prop
  | .run i _ => ∀ p ∈ c.procs[i]?, tests p = true →
      c.world.readyQueue.length < reg.config.backpressure.readyQueueMaxSize
  | _ => True

instance (reg : Registry) (c : State) (l : Label) : Decidable (Roomy reg c l) :=
  match l with
  | .run i _ => inferInstanceAs (Decidable (∀ p ∈ c.procs[i]?, tests p = true →
      c.world.readyQueue.length < reg.config.backpressure.readyQueueMaxSize))
  | .stop _ | .reject _ | .spawn _ | .env _ => isTrue trivial

/-- Activity `i` is still in the iteration of its fetch loop that took `j`; `log`
is what was executed since. -/
def Iterating (c : State) (log : Log) (i : Nat) (j : JobId) : Prop :=
  (∃ n q, c.procs[i]? = some (.fetch (.admission n q)) ∧ q.jobId = j) ∧
    ∀ e ∈ log, e.pid = i → fetches e.cmd e.reply = none

/-- In the ready or the non-ready queue, or handed to a worker in `log`. -/
def Onward (j : JobId) (w : Store) (log : Log) : Prop :=
  j ∈ w.readyQueue ∨ j ∈ w.nonReadyQueue ∨ j ∈ (delivered log).map Prod.fst

/-- Every job taken off its group's list is onward, or back on the list of a
group, when its iteration ends. -/
def LosesNothing (c : State) : Prop :=
  ∀ l₁ e l₂, c.log = l₁ ++ e :: l₂ → ∀ x ∈ fetches e.cmd e.reply,
    Iterating c l₁ e.pid x.1 ∨ Onward x.1 c.world l₁ ∨ ∃ g, x.1 ∈ c.world.groupJobs g

section
variable {reg : Registry} {cmd : Cmd} {inp : Input} {s : Store} {log : Log} {i : Nat} {j : JobId}

theorem onward_exec (h : Onward j s log) :
    Onward j (exec reg cmd inp s).1 (⟨i, cmd, (exec reg cmd inp s).2⟩ :: log) := by
  unfold Onward at h ⊢
  rw [delivered_cons, List.map_append, List.mem_append]
  rcases h with h | h | h
  · rcases @ready_stays reg cmd inp s j h with h | h
    · exact .inl h
    · rw [h]
      exact .inr (.inr (.inl List.mem_cons_self))
  · rcases @nonReady_stays reg cmd inp s j h with h | h
    · exact .inl h
    · exact .inr (.inl h)
  · exact .inr (.inr (.inr h))

/-- An admission that finds room goes on with its job or queues it. -/
theorem admission_spec {n : Nat} {q : AdmitPc} (hroom : tests (.fetch (.admission n q)) = true →
      s.readyQueue.length < reg.config.backpressure.readyQueueMaxSize) :
    ((Proc.fetch (.admission n q)).view reg).Spec (fun cmd => cmd ≠ .dequeue)
      (fun cmd r p' => ∀ inp, (exec reg cmd inp s).2 = r →
        (∃ q', p' = .fetch (.admission n q') ∧ q'.jobId = q.jobId) ∨
        q.jobId ∈ (exec reg cmd inp s).1.readyQueue ∨ q.jobId ∈ (exec reg cmd inp s).1.nonReadyQueue)
      fun _ _ => True := by
  cases q with
  | hasCapacity job =>
    refine ⟨by simp, fun r inp hr => .inl ?_, trivial⟩
    cases hr
    have hlt : (exec reg .readyLength inp s).2 < reg.config.backpressure.readyQueueMaxSize := hroom rfl
    simp only [if_pos hlt]
    exact ⟨.checkRateLimit job, rfl, rfl⟩
  | checkRateLimit job =>
    refine ⟨by simp, fun r inp _ => .inl ?_, trivial⟩
    by_cases h : r.allowed = true
    · simp only [if_pos h]
      exact ⟨.push job, rfl, rfl⟩
    · simp only [if_neg h]
      exact ⟨_, rfl, AddPc.start_jobId reg job.id job.groupId⟩
  | push job =>
    refine ⟨by simp, fun r inp _ => .inr (.inl ?_), trivial⟩
    simp only [exec, L2.readyQueuePush]
    rw [if_pos (decide_eq_true (hroom rfl))]
    exact List.mem_append_right _ List.mem_cons_self
  | addToNonReady r p =>
    cases p with
    | script j g =>
      exact ⟨by simp, fun _ _ _ => .inr (.inr (Core.ZSet.mem_zadd.mpr (.inl rfl))), trivial⟩
    | fixedBackoff j =>
      exact ⟨by simp, fun _ _ _ => .inr (.inr (Core.ZSet.mem_zadd.mpr (.inl rfl))), trivial⟩

/-- A cycle that took a job starts its admission. -/
theorem fetched_spec {E : List (JobId × GroupId)} (f : FetchPc) :
    ((Proc.fetch f).view reg).Spec (fun _ => True)
      (fun cmd r p' => Truthful (fun _ _ _ => True) E cmd r → ∀ x ∈ fetches cmd r,
        ∃ n q, p' = .fetch (.admission n q) ∧ q.jobId = x.1)
      fun _ _ => True := by
  cases f with
  | hasCapacity n => exact ⟨trivial, fun _ _ _ hx => (by cases hx), trivial⟩
  | dequeue n =>
    refine ⟨trivial, fun r ht x hx => ?_, trivial⟩
    cases r with
    | none => cases hx
    | some hash =>
      obtain ⟨j, hg⟩ := ht
      obtain ⟨job, hjob, hid, -⟩ := hg.job
      cases hx
      simp only [hjob]
      refine ⟨n, .hasCapacity job, rfl, ?_⟩
      rw [hg.1]
      exact hid
  | admission n q =>
    cases q with
    | addToNonReady r p => cases p <;> exact ⟨trivial, fun _ _ _ hx => (by cases hx), trivial⟩
    | _ => exact ⟨trivial, fun _ _ _ hx => (by cases hx), trivial⟩

/-- Whoever takes a job is a fetch cycle and starts its admission. -/
theorem taken {E : List (JobId × GroupId)} {p err : Proc} {ok : Reply cmd → Proc} (hid : Identified E s)
    (hv : p.view reg = .call cmd ok err) {x : JobId × GroupId} (hx : x ∈ fetches cmd (exec reg cmd inp s).2) :
    ∃ n q, ok (exec reg cmd inp s).2 = .fetch (.admission n q) ∧ q.jobId = x.1 := by
  have hcmd : cmd = .dequeue := by
    cases cmd <;> first | rfl | cases hx
  subst hcmd
  have hmay := mayCall_of_view hv
  cases p with
  | fetch f =>
    have hspec := @fetched_spec reg E f
    rw [hv] at hspec
    exact hspec.2.1 _ (truthful_exec hid (fun _ _ => trivial)) x hx
  | _ => cases hmay

/-- Every job taken is in the hands of its cycle or onward. -/
def Admitted (c : State) : Prop :=
  ∀ l₁ e l₂, c.log = l₁ ++ e :: l₂ → ∀ x ∈ fetches e.cmd e.reply,
    Iterating c l₁ e.pid x.1 ∨ Onward x.1 c.world l₁

/-- Every job activity `m` took. -/
def AdmittedBy (m : Nat) (c : State) : Prop :=
  ∀ l₁ e l₂, c.log = l₁ ++ e :: l₂ → e.pid = m → ∀ x ∈ fetches e.cmd e.reply,
    Iterating c l₁ e.pid x.1 ∨ Onward x.1 c.world l₁

theorem iterating_set {c : State} {p' : Proc} (hi : i < c.procs.length) {n : Nat} {q : AdmitPc}
    (hp : p' = .fetch (.admission n q)) {w : Store} {log' : Log}
    (hlog : ∀ e ∈ log, e.pid = i → fetches e.cmd e.reply = none) :
    Iterating ⟨w, c.procs.set i p', log'⟩ log i q.jobId :=
  ⟨⟨n, q, by simp [hi, hp], rfl⟩, hlog⟩

theorem admittedBy_step {m : Nat} {c c' : State} {l : Label} (hid : Identified (enqueued c.log) c.world)
    (hc : AdmittedBy m c) (hs : (pipeline reg).Step c l c') (hf : Faultless l)
    (hr : ∀ inp, l = .run m inp → Roomy reg c l) : AdmittedBy m c' := by
  cases hs with
  | stop | reject => exact hf.elim
  | spawn =>
    intro l₁ e l₂ hlog he x hx
    rcases hc l₁ e l₂ hlog he x hx with ⟨⟨n, q, hp, hq⟩, hnone⟩ | h
    · have hlt := (List.getElem?_eq_some_iff.mp hp).1
      exact .inl ⟨⟨n, q, by simp only [List.getElem?_append_left hlt, hp], hq⟩, hnone⟩
    · exact .inr h
  | @env ev =>
    intro l₁ e l₂ hlog he x hx
    rcases hc l₁ e l₂ hlog he x hx with h | h
    · exact .inl h
    · cases ev <;> exact .inr h
  | @run i inp p cmd ok err hp hv =>
    intro l₁ e l₂ hlog he x hx
    have hlt := (List.getElem?_eq_some_iff.mp hp).1
    cases l₁ with
    | nil =>
      -- the job was taken just now
      cases hlog
      obtain ⟨n, q, hok, hq⟩ := @taken reg cmd inp _ _ _ _ _ hid hv x hx
      left
      rw [← hq]
      exact iterating_set hlt hok (fun _ h => (by cases h))
    | cons e₀ l₁ =>
      obtain ⟨rfl, hrest⟩ := List.cons.inj hlog
      rcases hc l₁ e l₂ hrest he x hx with ⟨⟨n, q, hq, hj⟩, hnone⟩ | h
      · rcases eq_or_ne e.pid i with rfl | hne
        · -- its own admission goes on
          rw [hp] at hq
          cases hq
          have hspec := @admission_spec reg c.world n q (hr inp (by rw [he]) _ hp)
          rw [show (Proc.fetch (.admission n q)).view reg = .call cmd ok err from hv] at hspec
          rw [← hj]
          rcases hspec.2.1 _ inp rfl with ⟨q', hok, hq'⟩ | h | h
          · left
            rw [← hq']
            refine iterating_set hlt hok fun e' he' hpid => ?_
            rcases List.mem_cons.mp he' with rfl | he'
            · exact fetches_eq_none hspec.1
            · exact hnone e' he' hpid
          · exact .inr (.inl h)
          · exact .inr (.inr (.inl h))
        · left
          refine ⟨⟨n, q, ?_, hj⟩, fun e' he' hpid => ?_⟩
          · show (c.procs.set i _)[e.pid]? = _
            rw [List.getElem?_set_ne (Ne.symm hne)]
            exact hq
          · rcases List.mem_cons.mp he' with rfl | he'
            · exact absurd hpid.symm hne
            · exact hnone e' he' hpid
      · exact .inr (onward_exec h)

theorem admitted_step {c c' : State} {l : Label} (hid : Identified (enqueued c.log) c.world) (hc : Admitted c)
    (hs : (pipeline reg).Step c l c') (hf : Faultless l) (hr : Roomy reg c l) : Admitted c' :=
  fun l₁ e l₂ hlog => admittedBy_step hid (fun l₁ e l₂ h _ => hc l₁ e l₂ h) hs hf (fun _ _ => hr) l₁ e l₂ hlog rfl

/-- In every run without a fault in which every admission finds the ready queue
below its limit, the admission path loses no job. -/
theorem admission_loses_nothing (c : State)
    (h : ((runs reg).restrict fun c l => Faultless l ∧ Roomy reg c l).Reachable c) : LosesNothing c := by
  have hr := h.enrich fun c h => (identity_reachable (fun c l _ => answers_true reg c l) h).1
  have hI : ((runs reg).restrict fun c l => (Faultless l ∧ Roomy reg c l) ∧
      Identified (enqueued c.log) c.world).Inductive Admitted := {
    init := fun c hc l₁ e l₂ hlog => by
      rw [show c = initialState from hc] at hlog
      cases l₁ <;> cases hlog
    step := fun c l c' hc hs => admitted_step hs.2.2 hc hs.1 hs.2.1.1 hs.2.1.2 }
  intro l₁ e l₂ hlog x hx
  rcases hI.reachable c hr l₁ e l₂ hlog x hx with h | h
  · exact .inl h
  · exact .inr (.inl h)

end

/-- A registry whose ready queue holds one job. -/
def small : Registry := { config := { backpressure := { readyQueueMaxSize := 1 } } }

/-- Activity 0 submits the jobs `j` and `k`; 1 and 2 are fetch cycles that both
take a job while the ready queue is empty, and 1 admits its job. -/
def twoCycles : List Label :=
  [.spawn (.submitBulkJobs ⟨"g", "SEND_EMAIL", [⟨"j", "null"⟩, ⟨"k", "null"⟩], 0, .normal⟩)] ++ runsAt 0 1 5 ++
    [.spawn .fetchCycle, .spawn .fetchCycle] ++ runsAt 1 2 2 ++ runsAt 2 2 2 ++ runsAt 1 2 3

/-- Fetching one job, up to its admission. -/
theorem admission_loses_nothing_one_job : ∃ c : State,
    (∃ e ∈ c.log, fetches e.cmd e.reply = some ("j", "g")) ∧ LosesNothing c ∧ "j" ∈ c.world.readyQueue := by
  obtain ⟨c, hr, hP⟩ := Core.Program.exists_of_replay (S := pipeline small)
    (P := fun c : State => decide ((∃ e ∈ c.log, fetches e.cmd e.reply = some ("j", "g")) ∧ "j" ∈ c.world.readyQueue))
    (show ((pipeline small).replay (fun c l => decide (Faultless l ∧ Roomy small c l)) initialState
      twoCycles).any _ = true by decide +kernel)
  have hr' : ((runs small).restrict fun c l => Faultless l ∧ Roomy small c l).Reachable c :=
    Core.LTS.Reachable.weaken (fun _ _ h => of_decide_eq_true h) hr
  obtain ⟨hf, hq⟩ := of_decide_eq_true hP
  exact ⟨c, hf, admission_loses_nothing c hr', hq⟩

/-- The other cycle finds the queue full: its job is nowhere. -/
theorem rejected_job_is_gone :
    ¬ ∀ (reg : Registry) (c : State), ((runs reg).restrict fun _ l => Faultless l).Reachable c → LosesNothing c := by
  intro h
  obtain ⟨c, hr, hP⟩ := Core.Program.exists_of_replay (S := pipeline small)
    (P := fun c : State => (c.log[4]?).any (fun e : Core.Entry Reply =>
        decide (e.pid = 2 ∧ fetches e.cmd e.reply = some ("k", "g"))) &&
      finished c 2 &&
      decide (delivered c.log = [] ∧ enqueued c.log = [("k", "g"), ("j", "g")] ∧
        "k" ∉ c.world.readyQueue ∧ "k" ∉ c.world.nonReadyQueue ∧ "k" ∉ c.world.groupJobs "g"))
    (show ((pipeline small).replay (fun _ l => decide (Faultless l)) initialState
      (twoCycles ++ runsAt 2 2 1)).any _ = true by decide +kernel)
  have hr' : ((runs small).restrict fun _ l => Faultless l).Reachable c :=
    Core.LTS.Reachable.weaken (fun _ _ h => of_decide_eq_true h) hr
  simp only [Bool.and_eq_true, Option.any_eq_true] at hP
  obtain ⟨⟨⟨e, he, hef⟩, hdone⟩, hstore⟩ := hP
  obtain ⟨hpid, hf⟩ := of_decide_eq_true hef
  obtain ⟨hdel, henq, hready, hnon, hgroup⟩ := of_decide_eq_true hstore
  obtain ⟨hlt, rfl⟩ := List.getElem?_eq_some_iff.mp he
  have hsplit : c.log = c.log.take 4 ++ c.log[4] :: c.log.drop 5 := by
    rw [List.getElem_cons_drop, List.take_append_drop]
  have hnone : delivered (c.log.take 4) = [] := by
    refine List.eq_nil_of_sublist_nil ?_
    rw [← hdel]
    exact (List.take_sublist 4 c.log).filterMap _
  rcases h small c hr' _ _ _ hsplit _ hf with ⟨⟨n, q, hq, -⟩, -⟩ | hk | ⟨g, hk⟩
  · rw [hpid, finished_iff.mp hdone] at hq
    cases hq
  · rcases hk with hk | hk | hk
    · exact hready hk
    · exact hnon hk
    · rw [hnone] at hk
      cases hk
  · have hmem := (identity_reachable (fun c l _ => answers_true small c l) hr').1.groupJobs g _ hk
    rw [henq] at hmem
    rcases List.mem_pair.mp hmem with he | he
    · have hg : g = "g" := congrArg Prod.snd he
      exact hgroup (hg ▸ hk)
    · have hj : "k" = "j" := congrArg Prod.fst he
      exact absurd hj (by decide)

end NestPlayground.L5.Admission
