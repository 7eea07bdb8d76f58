import NestPlayground.L4Pipeline.Deeds

/-!
# Waiting in the two queues

A job waits in the ready queue for a worker and in the non-ready queue for the
dispatcher. The ready queue has five producers and any number of consumers, and
is first-in first-out all the same (`ready_fifo`). The non-ready queue is
ordered by time: what the dispatcher moves had been parked and its time has
come (`parked_until`), and a job whose time has come is not overtaken by those
parked later, so its turn comes after as many batches as the jobs ahead of it
fill (`due_not_overtaken`).
-/
namespace NestPlayground.L5.Waiting
open L1 L3 L4

section
variable {reg : Registry}

/-! ## The ready queue -/

/-- What was there and what a call pushes is what it hands out and what is there then. -/
theorem fifo_exec (reg : Registry) (cmd : Cmd) (inp : Input) (s : Store) :
    s.readyQueue ++ pushedBy reg ⟨cmd, inp, s⟩ =
      (handedBy reg ⟨cmd, inp, s⟩).toList ++ (exec reg cmd inp s).1.readyQueue := by
  have hpush : delivers cmd (exec reg cmd inp s).2 = none →
      s.readyQueue ++ pushedBy reg ⟨cmd, inp, s⟩ =
        (handedBy reg ⟨cmd, inp, s⟩).toList ++ (exec reg cmd inp s).1.readyQueue := by
    intro hd
    simp only [handedBy, hd, Option.toList_none, List.nil_append]
    rcases ready_cases reg cmd inp s with hr | ⟨j, hj, -⟩
    · exact hr.symm
    · rw [hd] at hj
      cases hj
  cases cmd with
  | reliableDequeue w i n g =>
    simp only [pushedBy, arrivals, handedBy, exec, L2.reliableDequeue, List.append_nil]
    split
    · rename_i hq
      simp [delivers, hq]
    · rename_i hq
      simp [delivers, hq]
  | _ => exact hpush rfl

/-- The ready queue is first-in first-out along every run, whatever it held
first: what was pushed has been handed out in order, and the rest is waiting. -/
theorem ready_fifo (reg : Registry) (c₀ : State) (t : Core.Traced State Label)
    (h : ((pipeline reg).lts c₀).traced.Reachable t) :
    c₀.world.readyQueue ++ arrived reg ((pipeline reg).deeds t.past) =
      departed reg ((pipeline reg).deeds t.past) ++ t.state.world.readyQueue := by
  have hr : (((pipeline reg).lts c₀).traced.restrict fun _ l => Inputs (fun _ => True) l).Reachable t :=
    h.of_forall fun _ l => by cases l <;> trivial
  refine along (I := fun s ds => c₀.world.readyQueue ++ arrived reg ds = departed reg ds ++ s.readyQueue) ?_ ?_ ?_ hr
  · exact List.append_nil _
  · intro cmd inp s ds _ hI
    rw [arrived_cons, departed_cons, ← List.append_assoc, hI, List.append_assoc, List.append_assoc, fifo_exec]
  · intro e s ds hI
    cases e <;> exact hI

/-- The one job is pushed and handed out. -/
theorem ready_fifo_oneJob : ∃ t : Core.Traced State Label,
    departed {} ((pipeline {}).deeds t.past) = ["j"] ∧
      arrived {} ((pipeline {}).deeds t.past) =
        departed {} ((pipeline {}).deeds t.past) ++ t.state.world.readyQueue := by
  obtain ⟨t, hr, hP⟩ := Core.Program.exists_of_retrace (S := pipeline {})
    (P := fun t : Core.Traced State Label => decide (departed {} ((pipeline {}).deeds t.past) = ["j"]))
    (show ((pipeline {}).retrace (fun _ _ => true) ⟨initialState, []⟩ (oneJob ++ processed 2 3)).any _ = true by
      decide +kernel)
  exact ⟨t, of_decide_eq_true hP, ready_fifo {} initialState t hr.unrestrict⟩

/-! ## The non-ready queue -/

/-- The execute-at time of `j` that the deeds give: that of its latest parking,
unless the dispatcher has moved it since. -/
def executeAt (reg : Registry) (j : JobId) : Deeds → Option Nat
  | [] => none
  | d :: ds =>
    match parkedUntil reg j d with
    | some e => some e
    | none => if j ∈ movedBy reg d then none else executeAt reg j ds

/-- The deed neither parks nor moves `j`. -/
def Passes (reg : Registry) (j : JobId) (d : Deed) : Prop := parkedUntil reg j d = none ∧ j ∉ movedBy reg d

/-- A parking of `j` until `e`, the latest thing that happened to it in the non-ready queue. -/
def Parked (reg : Registry) (j : JobId) (e : Nat) (ds : Deeds) : Prop :=
  ∃ newer p older, ds = newer ++ p :: older ∧ parkedUntil reg j p = some e ∧ ∀ d ∈ newer, Passes reg j d

theorem parked_of_executeAt {j : JobId} {e : Nat} {ds : Deeds} (h : executeAt reg j ds = some e) :
    Parked reg j e ds := by
  induction ds with
  | nil => cases h
  | cons d ds ih =>
    unfold executeAt at h
    cases hp : parkedUntil reg j d with
    | some e' =>
      simp only [hp] at h
      cases h
      exact ⟨[], d, ds, rfl, hp, by simp⟩
    | none =>
      simp only [hp] at h
      split at h
      · cases h
      · rename_i hm
        obtain ⟨newer, p, older, rfl, hpp, hpass⟩ := ih h
        refine ⟨d :: newer, p, older, rfl, hpp, fun d' hd' => ?_⟩
        rcases List.mem_cons.mp hd' with rfl | hd'
        · exact ⟨hp, hm⟩
        · exact hpass d' hd'

/-- The delays applied lie between the base, or the cap if that is less, and the cap or the base. -/
theorem parkedUntil_bounds {j : JobId} {d : Deed} {e : Nat} (h : parkedUntil reg j d = some e) :
    d.inp.now + min reg.config.congestion.baseBackoffMs reg.config.congestion.maxBackoffMs ≤ e ∧
      e ≤ d.inp.now + max reg.config.congestion.baseBackoffMs reg.config.congestion.maxBackoffMs := by
  unfold parkedUntil at h
  split at h
  · split at h
    · cases h
      simp only [L2.congestionBackoff]
      omega
    · cases h
  · split at h
    · cases h
      omega
    · cases h
  · cases h

theorem score_exec {cmd : Cmd} {inp : Input} {s : Store} {ds : Deeds} {j : JobId}
    (h : s.nonReadyQueue.score j = executeAt reg j ds) :
    (exec reg cmd inp s).1.nonReadyQueue.score j = executeAt reg j (⟨cmd, inp, s⟩ :: ds) := by
  unfold executeAt
  have hstep := nonReady_step reg cmd inp s
  generalize (exec reg cmd inp s).1.nonReadyQueue = z at hstep ⊢
  cases hstep with
  | other hm hp =>
    rw [hp j, hm]
    simpa using h
  | @parked k e hm hp hne =>
    rcases eq_or_ne j k with rfl | hjk
    · rw [hp]
      exact Core.ZSet.score_zadd_self ..
    · rw [hne j hjk, hm, Core.ZSet.score_zadd_ne _ _ hjk]
      simpa using h
  | moved hc hp =>
    rw [hp j]
    simp only
    split
    · rename_i hj
      cases hs : (List.foldl Core.ZSet.zrem s.nonReadyQueue (movedBy reg ⟨cmd, inp, s⟩)).score j with
      | none => rfl
      | some e =>
        have := Core.ZSet.mem_iff_score.mpr ⟨e, hs⟩
        exact absurd hj (Core.ZSet.mem_foldl_zrem.mp this).2
    · rename_i hj
      rw [Core.ZSet.score_foldl_zrem hj, h]

/-- Every move was of a job parked before, at a time that had come. -/
def Timely (reg : Registry) (ds : Deeds) : Prop :=
  ∀ newer d older j, ds = newer ++ d :: older → j ∈ movedBy reg d →
    ∃ e, Parked reg j e older ∧ e ≤ d.inp.now

theorem timely_cons {d : Deed} {ds : Deeds} (h : Timely reg ds)
    (hd : ∀ j ∈ movedBy reg d, ∃ e, Parked reg j e ds ∧ e ≤ d.inp.now) : Timely reg (d :: ds) := by
  intro newer d' older j he hj
  cases newer with
  | nil =>
    cases he
    exact hd j hj
  | cons n newer =>
    cases he
    exact h newer d' older j rfl hj

/-- A moved job was due. -/
theorem due_of_moved {j : JobId} {d : Deed} (h : j ∈ movedBy reg d) :
    ∃ e, d.world.nonReadyQueue.score j = some e ∧ e ≤ d.inp.now := by
  unfold movedBy at h
  split at h
  · exact Core.ZSet.score_le_of_mem_rangeByScore h
  · cases h

/-- In every run the non-ready queue holds the jobs that were parked and not
moved since, with the time of the latest parking, and the dispatcher moves each
no earlier than that: a backoff is never cut short, and serves one move. -/
theorem parked_until (reg : Registry) (t : Core.Traced State Label) (h : (runs reg).traced.Reachable t) :
    (∀ j, t.state.world.nonReadyQueue.score j = executeAt reg j ((pipeline reg).deeds t.past)) ∧
      Timely reg ((pipeline reg).deeds t.past) := by
  have hr : ((runs reg).traced.restrict fun _ l => Inputs (fun _ => True) l).Reachable t :=
    h.of_forall fun _ l => by cases l <;> trivial
  refine along (I := fun s ds => (∀ j, s.nonReadyQueue.score j = executeAt reg j ds) ∧ Timely reg ds) ?_ ?_ ?_ hr
  · exact ⟨fun _ => rfl, fun newer d older j he => by simp at he⟩
  · intro cmd inp s ds _ hI
    refine ⟨fun j => score_exec (hI.1 j), timely_cons hI.2 fun j hj => ?_⟩
    obtain ⟨e, hs, hle⟩ := due_of_moved hj
    exact ⟨e, parked_of_executeAt ((hI.1 j).symm.trans hs), hle⟩
  · intro e s ds hI
    cases e <;> exact hI

/-- No job passes the limiter. -/
def throttled : Registry := { config := { backpressure := { globalRps := 0, dispatchBatchSize := 1 } } }

/-- The one job is parked, and moved when its time has come. -/
theorem parked_until_oneJob : ∃ t : Core.Traced State Label,
    t.state.world.readyQueue = ["j"] ∧ t.state.world.nonReadyQueue.score "j" = none ∧
      (∀ j, t.state.world.nonReadyQueue.score j = executeAt throttled j ((pipeline throttled).deeds t.past)) ∧
      Timely throttled ((pipeline throttled).deeds t.past) := by
  obtain ⟨t, hr, hP⟩ := Core.Program.exists_of_retrace (S := pipeline throttled)
    (P := fun t : Core.Traced State Label =>
      decide (t.state.world.readyQueue = ["j"] ∧ t.state.world.nonReadyQueue.score "j" = none))
    (show ((pipeline throttled).retrace (fun _ _ => true) ⟨initialState, []⟩
      (oneJob ++ [.spawn .dispatchOnce] ++ runsAt 2 5000 2)).any _ = true by decide +kernel)
  obtain ⟨hready, hscore⟩ := of_decide_eq_true hP
  exact ⟨t, hready, hscore, parked_until throttled t hr.unrestrict⟩

/-! ## Nobody is overtaken -/

/-- `j` waits with at most as many jobs ahead of it as there were, less a batch
for every dispatch. -/
def Advanced (reg : Registry) (j : JobId) (e ahead₀ : Nat) (s : Store) (ds : Deeds) : Prop :=
  (e, j) ∈ s.nonReadyQueue.entries ∧
    s.nonReadyQueue.ahead (e, j) + dispatches ds * reg.config.backpressure.dispatchBatchSize ≤ ahead₀

/-- One call: the job is parked anew, moved, or a batch further to the front. -/
theorem advanced_exec {cmd : Cmd} {inp : Input} {s : Store} {ds : Deeds} {j : JobId} {e ahead₀ : Nat}
    (hlater : e < inp.now + min reg.config.congestion.baseBackoffMs reg.config.congestion.maxBackoffMs)
    (hnow : e ≤ inp.now) (h : Advanced reg j e ahead₀ s ds)
    (hp : parkedUntil reg j ⟨cmd, inp, s⟩ = none) (hm : j ∉ movedBy reg ⟨cmd, inp, s⟩) :
    Advanced reg j e ahead₀ (exec reg cmd inp s).1 (⟨cmd, inp, s⟩ :: ds) := by
  obtain ⟨hmem, hahead⟩ := h
  have hcount : ∀ d : Deed, movedBy reg d = [] → d.cmd ≠ .moveToReady → dispatches (d :: ds) = dispatches ds := by
    intro d _ hd
    unfold dispatches
    refine List.countP_cons_of_neg ?_
    split
    · rename_i hc
      exact absurd hc hd
    · exact Bool.false_ne_true
  by_cases hc : cmd = .moveToReady
  · subst hc
    obtain ⟨_, _, he⟩ := @moveToReady_frame reg inp s
    obtain ⟨hstays, hless⟩ := Core.ZSet.ahead_of_not_taken hmem hnow hm
    have hone : dispatches (⟨.moveToReady, inp, s⟩ :: ds) = dispatches ds + 1 := by
      unfold dispatches
      exact List.countP_cons_of_pos rfl
    unfold Advanced
    rw [he, hone, Nat.add_mul]
    exact ⟨hstays, by simp only; omega⟩
  · unfold Advanced
    have hstep := nonReady_step reg cmd inp s
    generalize (exec reg cmd inp s).1.nonReadyQueue = z at hstep ⊢
    cases hstep with
    | other hm' _ =>
      rw [hcount _ hm' hc]
      exact ⟨hmem, hahead⟩
    | @parked k e' hm' hk hne =>
      rw [hcount _ hm' hc]
      have hjk : j ≠ k := by
        rintro rfl
        rw [hk] at hp
        cases hp
      -- it is parked for a time that is still to come
      have hlater : e < e' := hlater.trans_le (parkedUntil_bounds hk).1
      have hbehind : ¬ Core.before (e', k) (e, j) := by
        unfold Core.before
        simp only
        omega
      have := Core.ZSet.ahead_zadd_le s.nonReadyQueue hbehind
      exact ⟨Core.ZSet.mem_entries_zadd.mpr (.inr ⟨hmem, hjk⟩), by omega⟩
    | moved hc' _ => exact absurd hc' hc

/-- From a time at which `j` is due, in every run on a clock that does not go back
behind that time: unless it has been parked anew or moved, `j` waits, and every
dispatch has taken a whole batch of those ahead of it. (A job that is parked for
no time at all in the very millisecond in which `j` comes due may be ahead of `j`;
positive backoffs or a later start exclude this.) -/
theorem due_not_overtaken (reg : Registry) (c₀ : State) (j : JobId) (e now₀ : Nat) (t : Core.Traced State Label)
    (hj : c₀.world.nonReadyQueue.score j = some e) (hdue : e ≤ now₀)
    (hlater : e < now₀ + min reg.config.congestion.baseBackoffMs reg.config.congestion.maxBackoffMs)
    (h : (((pipeline reg).lts c₀).traced.restrict fun _ l => Inputs (fun inp => now₀ ≤ inp.now) l).Reachable t) :
    (∃ d ∈ (pipeline reg).deeds t.past, ¬ Passes reg j d) ∨
      t.state.world.nonReadyQueue.score j = some e ∧
        t.state.world.nonReadyQueue.ahead (e, j) +
            dispatches ((pipeline reg).deeds t.past) * reg.config.backpressure.dispatchBatchSize ≤
          c₀.world.nonReadyQueue.ahead (e, j) := by
  have hI := along (I := fun s ds => (∃ d ∈ ds, ¬ Passes reg j d) ∨
    Advanced reg j e (c₀.world.nonReadyQueue.ahead (e, j)) s ds) ?_ ?_ ?_ h
  · exact hI.imp_right fun hA => ⟨Core.ZSet.score_eq_some_iff.mpr hA.1, hA.2⟩
  · refine .inr ⟨Core.ZSet.score_eq_some_iff.mp hj, ?_⟩
    simp [dispatches]
  · intro cmd inp s ds hnow hI
    rcases hI with ⟨d, hd, hpass⟩ | hA
    · exact .inl ⟨d, List.mem_cons_of_mem _ hd, hpass⟩
    · by_cases hpass : Passes reg j ⟨cmd, inp, s⟩
      · exact .inr (advanced_exec (hlater.trans_le (Nat.add_le_add_right hnow _)) (hdue.trans hnow) hA hpass.1 hpass.2)
      · exact .inl ⟨_, List.mem_cons_self, hpass⟩
  · intro x s ds hI
    cases x <;> exact hI

/-- Two jobs that are due, `k` ahead of `j`. -/
def twoDue : State := ⟨{ Store.empty with nonReadyQueue := (Core.ZSet.empty.zadd 5 "j").zadd 3 "k" }, [], []⟩

/-- One batch of one job is moved, and `j` is next. -/
theorem due_not_overtaken_next : ∃ t : Core.Traced State Label,
    t.state.world.readyQueue = ["k"] ∧
      ((∃ d ∈ (pipeline throttled).deeds t.past, ¬ Passes throttled "j" d) ∨
        t.state.world.nonReadyQueue.score "j" = some 5 ∧
          t.state.world.nonReadyQueue.ahead (5, "j") +
              dispatches ((pipeline throttled).deeds t.past) * throttled.config.backpressure.dispatchBatchSize ≤
            twoDue.world.nonReadyQueue.ahead (5, "j")) := by
  obtain ⟨t, hr, hP⟩ := Core.Program.exists_of_retrace (S := pipeline throttled)
    (P := fun t : Core.Traced State Label => decide (t.state.world.readyQueue = ["k"]))
    (show ((pipeline throttled).retrace (fun _ l => decide (Inputs (fun inp => 7 ≤ inp.now) l)) ⟨twoDue, []⟩
      ([.spawn .dispatchOnce] ++ runsAt 0 7 2)).any _ = true by decide +kernel)
  have hr' := hr.weaken fun _ _ h => of_decide_eq_true h
  exact ⟨t, of_decide_eq_true hP,
    due_not_overtaken throttled twoDue "j" 5 7 t (by decide +kernel) (by decide) (by decide) hr'⟩

end
end NestPlayground.L5.Waiting
