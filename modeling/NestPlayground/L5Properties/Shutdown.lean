import NestPlayground.Core.Sequential
import NestPlayground.L4Pipeline.Instance
import NestPlayground.L5Properties.Admission
import NestPlayground.L5Properties.AtLeastOnce

/-!
# Shutdown

`shutdown` aborts the fetcher, waits for the workers and aborts the dispatcher.
Aborting a service does not wait for the cycle its loop is in: a fetch cycle
that has taken a job off the list of its group may have it in hand when
`shutdown` resolves, and with the process the job is gone
(`fetched_job_is_stranded`). When the workers have stopped and no cycle of the
two services is under way, nothing of the instance is left over.
-/
namespace NestPlayground.L5.Shutdown
open L1 L3 L4

/-- No call fails, ids, answers and the removal of dead letters are orderly, and
no loop is started once `shutdown` was called. -/
def Assumed (reg : Registry) (s : Instance) : Move → Prop
  | .net l => AtLeastOnce.Orderly reg s.net l ∧ Faultless l
  | .start _ => s.stage = .serving
  | .startWorker _ => s.stage = .serving
  | _ => True

/-- Every admission of the instance finds the ready queue below its limit. -/
def Admits (reg : Registry) (s : Instance) : Move → Prop
  | .net (.run i inp) => i ∈ s.mine → Admission.Roomy reg s.net (.run i inp)
  | _ => True

instance (reg : Registry) (s : Instance) (m : Move) : Decidable (Assumed reg s m) :=
  match m with
  | .net l => inferInstanceAs (Decidable (AtLeastOnce.Orderly reg s.net l ∧ Faultless l))
  | .start _ | .startWorker _ => inferInstanceAs (Decidable (s.stage = .serving))
  | .stop _ | .next _ | .dispatchOnce | .stopWorker _ | .nextTick _ | .shutdown | .allStopped
  | .graceOver => isTrue trivial

instance (reg : Registry) (s : Instance) (m : Move) : Decidable (Admits reg s m) :=
  match m with
  | .net (.run i inp) => inferInstanceAs (Decidable (i ∈ s.mine → Admission.Roomy reg s.net (.run i inp)))
  | .net (.reject _) | .net (.stop _) | .net (.spawn _) | .net (.env _) | .start _ | .stop _ | .next _
  | .dispatchOnce | .startWorker _ | .stopWorker _ | .nextTick _ | .shutdown | .allStopped
  | .graceOver => isTrue trivial

def Guarded (reg : Registry) (s : Instance) (m : Move) : Prop := Assumed reg s m ∧ Admits reg s m

instance (reg : Registry) (s : Instance) (m : Move) : Decidable (Guarded reg s m) :=
  inferInstanceAs (Decidable (_ ∧ _))

/-- The instance has taken `j` off a group's list or off the ready queue. -/
def Popped (s : Instance) (j : JobId) : Prop :=
  ∃ e ∈ s.net.log, e.pid ∈ s.mine ∧
    ((fetches e.cmd e.reply).map Prod.fst = some j ∨ delivers e.cmd e.reply = some j)

/-- In one of the four queues, back on its group's list, or recorded. -/
def Placed (j : JobId) (c : State) : Prop :=
  AtLeastOnce.Recorded j c ∨ AtLeastOnce.Present j c.world ∨
    ∃ g, (j, g) ∈ enqueued c.log ∧ j ∈ c.world.groupJobs g

/-- The process may end: no cycle is under way or to come, nobody has a job in
hand, and what the instance popped is in its place. -/
structure StrandsNothing (reg : Registry) (me : String) (n : Nat) (s : Instance) : Prop where
  ended : ∀ i ∈ s.mine, finished s.net i = true
  silent : ∀ s', ((instances reg me n).restrict fun _ m => m.starts = false).Steps s s' → s'.mine = s.mine
  free : ∀ i ∈ s.mine, ∀ p ∈ s.net.procs[i]?, duties p = []
  placed : ∀ j, Popped s j → Placed j s.net

/-- No loop of the fetcher or of the dispatcher is in the middle of a cycle. -/
def Idle (s : Instance) : Prop := ∀ v, ∀ i ∈ (s.services v).cycles, finished s.net i = true

/-- No tick of another instance has just taken out of flight a job this one popped. -/
def Apart (s : Instance) : Prop := ∀ j, Popped s j → ∀ i, i ∉ s.mine → ¬ AtLeastOnce.InHand j s.net i

section
variable {reg : Registry} {me : String} {n : Nat} {s s' : Instance}

theorem tracked_reachable (h : ((instances reg me n).restrict (Assumed reg)).Reachable s) : s.Tracked := by
  induction h with
  | init hi =>
    cases hi
    exact .init n
  | step _ hs ih =>
    obtain ⟨hs, hm⟩ := hs
    refine ih.step ?_ hs
    rintro v rfl
    exact hm

theorem orderly_reachable (h : ((instances reg me n).restrict (Assumed reg)).Reachable s) :
    ((runs reg).restrict fun c l => AtLeastOnce.Orderly reg c l ∧ Faultless l).Reachable s.net :=
  Instance.net_reachable (fun _ _ h => h) (fun _ _ => ⟨⟨trivial, trivial, trivial⟩, trivial⟩) h

/-- What the fetch cycles of the instance took is in their hands or onward. -/
theorem admitted_reachable (h : ((instances reg me n).restrict (Guarded reg)).Reachable s) :
    ∀ i ∈ s.mine, Admission.AdmittedBy i s.net := by
  induction h with
  | init hi =>
    cases hi
    intro i hi
    cases hi
  | @step s m s' hr hs ih =>
    have hnet := orderly_reachable (hr.weaken fun _ _ h => h.1)
    have hid := (identity_reachable (fun _ _ h => h.1.1) hnet).1
    obtain ⟨hs, hg⟩ := hs
    cases Instance.step_shows hs with
    | still hnet hmine =>
      rw [hnet, hmine]
      exact ih
    | call hm hstep hmine =>
      subst hm
      rw [hmine]
      intro i hi
      refine Admission.admittedBy_step hid (ih i hi) hstep hg.1.2 ?_
      rintro inp rfl
      exact hg.2 hi
    | spawn hstep hmine =>
      intro i hi
      rcases hmine i hi with hi | rfl
      · exact Admission.admittedBy_step hid (ih i hi) hstep trivial fun _ h => (by cases h)
      · -- the new activity has made no call
        refine Admission.admittedBy_step hid (fun l₁ e l₂ hlog he => ?_) hstep trivial fun _ h => (by cases h)
        have hlt := (Core.Program.follows_reachable rfl ⟨rfl, rfl⟩ hnet).1 e (hlog ▸ List.mem_append_cons_self)
        exact absurd hlt he.not_lt

/-- What the workers popped is recorded, in a queue, or in the hands of a tick. -/
theorem delivered_placed (h : ((instances reg me n).restrict (Assumed reg)).Reachable s) {j : JobId}
    (hj : j ∈ (delivered s.net.log).map Prod.fst) : Placed j s.net ∨ ∃ i, AtLeastOnce.InHand j s.net i := by
  have hr : ((runs reg).restrict fun c l => AtLeastOnce.Orderly reg c l ∧ AtLeastOnce.Careful c l).Reachable s.net :=
    (orderly_reachable h).weaken fun c l hl => ⟨hl.1, AtLeastOnce.careful_of_faultless hl.2⟩
  rcases AtLeastOnce.delivered_somewhere hr hj with h | h | h
  · exact .inl (.inl h)
  · exact .inl (.inr (.inl h))
  · exact .inr h

/-- Once nothing of the instance is under way, what it popped is in its place, or
in the hands of a tick of somebody else. -/
theorem popped_placed (h : ((instances reg me n).restrict (Guarded reg)).Reachable s)
    (hend : ∀ i ∈ s.mine, finished s.net i = true) (ha : Apart s) {j : JobId} (hj : Popped s j) : Placed j s.net := by
  have hassumed := h.weaken fun _ _ hg => hg.1
  have hdelivered : j ∈ (delivered s.net.log).map Prod.fst → Placed j s.net := by
    intro hmem
    rcases delivered_placed hassumed hmem with hp | ⟨i, t, hi, hd⟩
    · exact hp
    · by_cases hm : i ∈ s.mine
      · rw [finished_iff.mp (hend i hm)] at hi
        cases hi
      · exact absurd ⟨t, hi, hd⟩ (ha j hj i hm)
  obtain ⟨e, he, hm, hpop⟩ := hj
  obtain ⟨l₁, l₂, hlog⟩ := List.append_of_mem he
  have hsplit : delivered s.net.log = delivered l₁ ++ delivered (e :: l₂) := by
    rw [hlog, delivered, List.filterMap_append]
    rfl
  rcases hpop with hf | hd
  · obtain ⟨x, hx, rfl⟩ := Option.map_eq_some_iff.mp hf
    rcases admitted_reachable h _ hm l₁ e l₂ hlog rfl x hx with ⟨⟨k, q, hq, -⟩, -⟩ | hready | hnon | hdel
    · rw [finished_iff.mp (hend _ hm)] at hq
      cases hq
    · exact .inr (.inl (.inl hready))
    · exact .inr (.inl (.inr (.inl hnon)))
    · refine hdelivered ?_
      rw [hsplit, List.map_append]
      exact List.mem_append_left _ hdel
  · refine hdelivered ?_
    rw [hsplit, List.map_append, delivered_cons, hd]
    exact List.mem_append_right _ List.mem_cons_self

/-- A halted instance whose services are idle has nothing under way. -/
theorem ended_of_idle (ht : s.Tracked) (hs : s.step reg me .allStopped = some s') (hi : Idle s) :
    ∀ i ∈ s.mine, finished s.net i = true := by
  intro i hm
  rcases ht.awaited i hm with hf | ⟨v, hv⟩ | ⟨w, hw, hp⟩
  · exact hf
  · exact hi v i hv
  · rw [(Instance.allStopped_cases hs).1 w hw] at hp
    cases hp

/-- In every run without a failing call in which the instance's admissions find
room: when `shutdown` resolves with its workers stopped, and no other instance has
a job of this one just in hand, nothing is stranded exactly if the fetcher and the
dispatcher are between two cycles. -/
theorem shutdown_strands_nothing (reg : Registry) (me : String) (n : Nat) (s s' : Instance)
    (h : ((instances reg me n).restrict (Guarded reg)).Reachable s)
    (hs : s.step reg me .allStopped = some s') (ha : Apart s) : StrandsNothing reg me n s' ↔ Idle s := by
  have ht := tracked_reachable (h.weaken fun _ _ hg => hg.1)
  obtain ⟨hhalt, hnet, hmine⟩ := ht.halted hs
  constructor
  · intro hn v i hi
    have := hn.ended i (hmine ▸ ht.mine i (.inl ⟨v, hi⟩))
    rwa [hnet] at this
  · intro hidle
    have hend := ended_of_idle ht hs hidle
    refine ⟨?_, fun s₁ hsteps => ?_, ?_, fun j hj => ?_⟩
    · rw [hnet, hmine]
      exact hend
    · have hI := hsteps.preserves (I := fun s₁ => s₁.Halted ∧ s₁.mine = s'.mine) (fun s₁ m s₂ hI hstep => by
        obtain ⟨h₁, h₂⟩ := hI.1.step hstep.2 hstep.1
        exact ⟨h₁, h₂.trans hI.2⟩) ⟨hhalt, rfl⟩
      exact hI.2
    · rw [hnet, hmine]
      intro i hi p hp
      rw [finished_iff.mp (hend i hi)] at hp
      cases hp
      rfl
    · rw [hnet]
      refine popped_placed h hend ha ?_
      unfold Popped at hj
      rwa [hnet, hmine] at hj

end

/-! ## One worker -/

/-- `n` steps of activity `i`. -/
def steps (i now n : Nat) : List Move := (runsAt i now n).map .net

/-- Activity 0 submits the group `g` of one job `j`. -/
def submitted : List Move := (oneJob.take 5).map .net

/-- Activity 1 is a fetch cycle, 2 a dispatch, 3 the tick of the worker, which is
told to stop while it processes the job. -/
def drained : List Move :=
  submitted ++ [.start .fetcher, .start .dispatcher, .startWorker 0] ++ steps 1 2 7 ++ steps 2 2 2 ++ steps 3 3 7 ++
    [.shutdown, .net (.run 3 { now := 4, outcome := some (.returned ⟨"j", "g", true, none, none, 0, none⟩) })] ++
    steps 3 4 14 ++ [.nextTick 0, .nextTick 0]

/-- The fetch cycle, activity 1, has just taken the job; the worker found the ready
queue empty and stops at once. -/
def cutShort : List Move :=
  submitted ++ [.start .fetcher] ++ steps 1 2 2 ++ [.startWorker 0] ++ steps 2 2 1 ++
    [.shutdown, .nextTick 0, .nextTick 0]

/-- A schedule of the instance `i` with one worker, up to the end of `shutdown`. -/
theorem exists_of_moves (ms : List Move) {P : Instance → Instance → Bool}
    (h : (Core.LTS.follow (Instance.step {} "i") (fun s m => decide (Guarded {} s m)) (initialInstance 1) ms).any
      (fun s => (s.step {} "i" .allStopped).any (P s)) = true) :
    ∃ s s', ((instances {} "i" 1).restrict (Guarded {})).Reachable s ∧ s.step {} "i" .allStopped = some s' ∧
      P s s' = true := by
  obtain ⟨s, hs, hP⟩ := (Option.any_eq_true _ _).mp h
  obtain ⟨s', hs', hP⟩ := (Option.any_eq_true _ _).mp hP
  have hr := Core.LTS.follow_reachable (T := instances {} "i" 1) (fun _ _ _ h => h) ms (.init rfl) hs
  exact ⟨s, s', hr.weaken fun _ _ h => of_decide_eq_true h, hs', hP⟩

theorem shutdown_strands_nothing_drained :
    ∃ s, Popped s "j" ∧ StrandsNothing {} "i" 1 s ∧ ∃ r ∈ s.net.world.groupJobResults "g", r.jobId = "j" := by
  obtain ⟨s, s', hr, hs, hP⟩ := exists_of_moves drained
    (P := fun s s' => decide ((∀ i ∈ s.mine, finished s.net i = true) ∧
      (∀ p ∈ s.net.procs, ∀ d ∈ duties p, AtLeastOnce.loose d = none) ∧
      (∃ e ∈ s'.net.log, e.pid ∈ s'.mine ∧
        ((fetches e.cmd e.reply).map Prod.fst = some "j" ∨ delivers e.cmd e.reply = some "j")) ∧
      ∃ r ∈ s'.net.world.groupJobResults "g", r.jobId = "j")) (by decide +kernel)
  obtain ⟨hend, hloose, hpop, hres⟩ := of_decide_eq_true hP
  have ht := tracked_reachable (hr.weaken fun _ _ hg => hg.1)
  have hidle : Idle s := fun v i hi => hend i (ht.mine i (.inl ⟨v, hi⟩))
  have hapart : Apart s := by
    rintro j - i - ⟨t, hi, d, hd, hl⟩
    rw [hloose _ (List.mem_of_getElem? hi) d hd] at hl
    cases hl
  exact ⟨s', hpop, (shutdown_strands_nothing {} "i" 1 s s' hr hs hapart).mpr hidle, hres⟩

/-- `shutdown` resolves while the fetch cycle has the job in hand. -/
theorem fetched_job_is_stranded :
    ¬ ∀ (reg : Registry) (me : String) (n : Nat) (s s' : Instance),
      ((instances reg me n).restrict (Assumed reg)).Reachable s → s.step reg me .allStopped = some s' →
      StrandsNothing reg me n s' := by
  intro h
  obtain ⟨s, s', hr, hs, hP⟩ := exists_of_moves cutShort
    (P := fun _ s' => decide ((∃ e ∈ s'.net.log, e.pid ∈ s'.mine ∧
        ((fetches e.cmd e.reply).map Prod.fst = some "j" ∨ delivers e.cmd e.reply = some "j")) ∧
      enqueued s'.net.log = [("j", "g")] ∧ s'.net.world.groupJobResults "g" = [] ∧
      "j" ∉ s'.net.world.groupJobs "g" ∧ "j" ∉ s'.net.world.readyQueue ∧ "j" ∉ s'.net.world.nonReadyQueue ∧
      "j" ∉ s'.net.world.inFlightQueue ∧ s'.net.world.deadLetterQueue = [])) (by decide +kernel)
  obtain ⟨hpop, henq, hres, hgroup, hready, hnon, hflight, hdlq⟩ := of_decide_eq_true hP
  have hg : ∀ {g}, ("j", g) ∈ enqueued s'.net.log → g = "g" := by
    intro g hg
    rw [henq, List.mem_singleton] at hg
    exact congrArg Prod.snd hg
  rcases (h {} "i" 1 s s' (hr.weaken fun _ _ hg => hg.1) hs).placed "j" hpop with
    ⟨g, hmem, r, hr, -⟩ | (h | h | h | ⟨e, he, -⟩) | ⟨g, hmem, h⟩
  · rw [hg hmem, hres] at hr
    cases hr
  · exact hready h
  · exact hnon h
  · exact hflight h
  · rw [hdlq] at he
    cases he
  · rw [hg hmem] at h
    exact hgroup h

end NestPlayground.L5.Shutdown
