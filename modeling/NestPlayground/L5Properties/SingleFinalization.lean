import NestPlayground.L5Properties.EndToEnd

/-!
# Single finalization

The locks expire, callers act on statuses they read before, and the watcher
fails groups without a lock. What is left is the compare-and-set of
`transition-status.lua`: every edge of the table goes up in `rank`, so while no
`ack.lua` writes the status of a group that is being finalized, a status is
left once, and of all who ask for COMPLETED or FAILED one is told true.

An `ack.lua` may come before the group's first enqueue, a processor's answer
names the group it is charged to. The group is then finalized as it is, and
the enqueue makes it CREATED again (`finalized_again`).
-/
namespace NestPlayground.L5.SingleFinalization
open L1 L3 L4

def status (c : State) (g : GroupId) : Option GroupStatus := (c.world.groupMeta g).status

/-- AGGREGATING, COMPLETED or FAILED. -/
def concluding : Option GroupStatus → Bool
  | some .aggregating | some .completed | some .failed => true
  | _ => false

/-- No `ack.lua` is charged to the group while it is being finalized, or after. -/
def NoAck (reg : Registry) (g : GroupId) : State → Label → Prop :=
  onCalls reg fun c _ cmd _ => ∀ x ∈ acks cmd, x.2 = g → concluding (status c g) = false

/-- An `ack.lua` is charged to the group after its first enqueue only. -/
def Submitted (reg : Registry) (g : GroupId) : State → Label → Prop :=
  onCalls reg fun c _ cmd _ => ∀ x ∈ acks cmd, x.2 = g → 0 < (c.world.groupMeta g).totalJobs.getD 0

instance (reg : Registry) (g : GroupId) (c : State) (l : Label) : Decidable (NoAck reg g c l) :=
  instDecidableOnCalls reg (fun c _ cmd _ => ∀ x ∈ acks cmd, x.2 = g → concluding (status c g) = false) c l

instance (reg : Registry) (g : GroupId) (c : State) (l : Label) : Decidable (Submitted reg g c l) :=
  instDecidableOnCalls reg
    (fun c _ cmd _ => ∀ x ∈ acks cmd, x.2 = g → 0 < (c.world.groupMeta g).totalJobs.getD 0) c l

/-- The caller asked for the status `target` of the group and was told true. -/
def grants (g : GroupId) (target : GroupStatus) : (cmd : Cmd) → Reply cmd → Bool
  | .transitionStatus g' t, told => decide (g' = g) && decide (t.target = target) && told
  | _, _ => false

/-- How many callers were told true. -/
def granted (g : GroupId) (target : GroupStatus) (log : Log) : Nat :=
  log.countP fun e => grants g target e.cmd e.reply

/-- The group is finalized once, in the runs whose steps meet `H`. -/
structure Once (reg : Registry) (H : State → Label → Prop) (g : GroupId) (c : State) : Prop where
  /-- a status that was left is not the group's again -/
  left : ∀ l c', ((runs reg).restrict H).step c l c' → status c' g ≠ status c g →
    ∀ c'', ((runs reg).restrict H).Steps c' c'' → status c'' g ≠ status c g
  completed : granted g .completed c.log ≤ 1
  failed : granted g .failed c.log ≤ 1
  /-- not both COMPLETED and FAILED -/
  exclusive : ∀ st, isTerminal st = true → status c g = some st → ∀ c', ((runs reg).restrict H).Steps c c' →
    ∀ st', isTerminal st' = true → status c' g = some st' → st' = st
  stored : ∀ l c', ((runs reg).restrict H).step c l c' → status c g ≠ some .completed →
    status c' g = some .completed → (c.world.groupResult g).result.isSome = true

/-! ## The order of the statuses -/

def rank : Option GroupStatus → Nat
  | none => 0
  | some .created => 1
  | some .dispatched => 2
  | some .running => 3
  | some .aggregating => 4
  | some .completed | some .failed => 5

theorem rank_lt (t : Transition) : rank (some t.source) < rank (some t.target) := by
  obtain ⟨source, target, h⟩ := t
  cases source <;> cases target <;> first | (cases h; done) | (simp only [rank]; omega)

theorem rank_terminal {st : GroupStatus} (h : isTerminal st = true) : rank (some st) = 5 := by
  cases st <;> first | rfl | cases h

theorem rank_le (o : Option GroupStatus) : rank o ≤ 5 := by
  rcases o with _ | _ | _ | _ | _ | _ | _ <;> decide

theorem rank_concluding {o : Option GroupStatus} (h : concluding o = false) : rank o < 4 := by
  rcases o with _ | _ | _ | _ | _ | _ | _ <;> first | decide | cases h

/-- A group with a status has been enqueued to. -/
def Counted (g : GroupId) (w : Store) : Prop :=
  (w.groupMeta g).status ≠ none → 0 < (w.groupMeta g).totalJobs.getD 0

section
variable {reg : Registry} {g : GroupId} {cmd : Cmd} {inp : Input} {s : Store}

theorem counted_exec (hI : Counted g s) (hsub : ∀ x ∈ acks cmd, x.2 = g → 0 < (s.groupMeta g).totalJobs.getD 0) :
    Counted g (exec reg cmd inp s).1 := by
  intro hne
  have hmono := totalJobs_mono reg cmd inp s g
  rcases status_cases reg cmd inp s g with h | ⟨req, rfl, rfl, -, -⟩ | ⟨j, rfl, -, -⟩ | ⟨t, rfl, h, -⟩
  · rw [h] at hne
    have := hI hne
    omega
  · -- the enqueue itself counts
    simp only [exec, L2.enqueue, Function.update_self]
    split <;> exact Nat.succ_pos _
  · have : 0 < (s.groupMeta g).totalJobs.getD 0 := hsub _ rfl rfl
    omega
  · have := hI (by rw [h]; simp)
    omega

/-- What one call does to the status: nothing, or a step up. -/
theorem rank_exec (hI : Counted g s) (hack : ∀ x ∈ acks cmd, x.2 = g → concluding (s.groupMeta g).status = false) :
    ((exec reg cmd inp s).1.groupMeta g).status = (s.groupMeta g).status ∨
      rank (s.groupMeta g).status < rank ((exec reg cmd inp s).1.groupMeta g).status := by
  rcases status_cases reg cmd inp s g with h | ⟨req, rfl, -, h0, h⟩ | ⟨j, rfl, -, h⟩ | ⟨t, rfl, hs, h⟩
  · exact .inl h
  · right
    have hnone : (s.groupMeta g).status = none := by
      by_contra hne
      have := hI hne
      omega
    rw [h, hnone]
    decide
  · right
    rw [h]
    exact rank_concluding (hack _ rfl rfl)
  · right
    rw [h, hs]
    exact rank_lt t

/-- Who is told true has moved the group to the status asked for. -/
theorem grants_exec {target : GroupStatus} (h : grants g target cmd (exec reg cmd inp s).2 = true) :
    (∃ source, (s.groupMeta g).status = some source ∧ rank (some source) < rank (some target)) ∧
      ((exec reg cmd inp s).1.groupMeta g).status = some target := by
  cases cmd with
  | transitionStatus g' t =>
    simp only [grants, Bool.and_eq_true, decide_eq_true_eq] at h
    obtain ⟨⟨rfl, rfl⟩, htold⟩ := h
    simp only [exec, L2.transitionStatus] at htold ⊢
    split at htold
    · rename_i hs
      rw [if_pos hs]
      refine ⟨⟨t.source, hs, rank_lt t⟩, ?_⟩
      simp only [Store.modMeta, Function.update_self, L2.setStatus_status]
    · cases htold
  | _ => cases h

theorem granted_cons (target : GroupStatus) (i : Nat) (cmd : Cmd) (r : Reply cmd) (log : Log) :
    granted g target (⟨i, cmd, r⟩ :: log) = granted g target log + if grants g target cmd r then 1 else 0 := by
  simp [granted, List.countP_cons]

/-- What is granted: nothing before the group is COMPLETED or FAILED, one then. -/
structure Accounted (g : GroupId) (w : Store) (log : Log) : Prop where
  counted : Counted g w
  completed : granted g .completed log ≤ if rank (w.groupMeta g).status = 5 then 1 else 0
  failed : granted g .failed log ≤ if rank (w.groupMeta g).status = 5 then 1 else 0

theorem granted_exec {target : GroupStatus} (hterm : isTerminal target = true) {i : Nat} {log : Log}
    (hup : rank (s.groupMeta g).status ≤ rank ((exec reg cmd inp s).1.groupMeta g).status)
    (h : granted g target log ≤ if rank (s.groupMeta g).status = 5 then 1 else 0) :
    granted g target (⟨i, cmd, (exec reg cmd inp s).2⟩ :: log) ≤
      if rank ((exec reg cmd inp s).1.groupMeta g).status = 5 then 1 else 0 := by
  have hle := rank_le ((exec reg cmd inp s).1.groupMeta g).status
  rw [granted_cons]
  by_cases hg : grants g target cmd (exec reg cmd inp s).2 = true
  · obtain ⟨⟨source, hs, hlt⟩, hs'⟩ := grants_exec hg
    have h5 := rank_terminal hterm
    -- the source was not terminal, so nothing had been granted
    rw [hs, if_neg (by omega)] at h
    rw [if_pos hg, hs', if_pos h5]
    omega
  · rw [if_neg hg]
    split at h <;> split <;> omega

theorem accounted : Core.Program.Ledgered (pipeline reg) (fun c l => NoAck reg g c l ∧ Submitted reg g c l)
    (Accounted g) where
  run := by
    intro c i inp p cmd ok err hI hp hv hH
    have hup : rank (c.world.groupMeta g).status ≤ rank ((exec reg cmd inp c.world).1.groupMeta g).status := by
      rcases rank_exec hI.counted (onCalls_run hH.1 hp hv) with h | h
      · rw [h]
      · omega
    exact ⟨counted_exec hI.counted (onCalls_run hH.2 hp hv), granted_exec rfl hup hI.completed,
      granted_exec rfl hup hI.failed⟩
  env := by
    intro w log e hI
    cases e <;> exact ⟨hI.counted, hI.completed, hI.failed⟩

theorem accounted_reachable {c : State}
    (h : ((runs reg).restrict fun c l => NoAck reg g c l ∧ Submitted reg g c l).Reachable c) :
    Accounted g c.world c.log :=
  (accounted.inductive ⟨fun hne => absurd rfl hne, Nat.zero_le _, Nat.zero_le _⟩).reachable c h

/-- A step of the run keeps the status or takes it up. -/
theorem rank_step {c c' : State} {l : Label} (hI : Counted g c.world) (hs : (pipeline reg).Step c l c')
    (hH : NoAck reg g c l) : status c' g = status c g ∨ rank (status c g) < rank (status c' g) := by
  cases hs with
  | run hp hv => exact rank_exec hI (onCalls_run hH hp hv)
  | @env e => cases e <;> exact .inl rfl
  | reject | stop | spawn => exact .inl rfl

/-- So does a run. -/
theorem rank_steps {c c' : State}
    (h : ((runs reg).restrict fun c l => NoAck reg g c l ∧ Submitted reg g c l).Reachable c)
    (hs : ((runs reg).restrict fun c l => NoAck reg g c l ∧ Submitted reg g c l).Steps c c') :
    status c' g = status c g ∨ rank (status c g) < rank (status c' g) := by
  have hkeep := Core.LTS.Steps.preserves
    (I := fun s => ((runs reg).restrict fun c l => NoAck reg g c l ∧ Submitted reg g c l).Reachable s ∧
      (status s g = status c g ∨ rank (status c g) < rank (status s g))) (fun s l s' hI hst => ?_) hs ⟨h, .inl rfl⟩
  · exact hkeep.2
  · refine ⟨.step hI.1 hst, ?_⟩
    rcases rank_step (accounted_reachable hI.1).counted hst.1 hst.2.1 with hsame | hlt
    · rw [hsame]
      exact hI.2
    · rcases hI.2 with h0 | h0
      · rw [h0] at hlt
        exact .inr hlt
      · exact .inr (h0.trans hlt)

/-! ## The result -/

/-- A call of `finalizeGroup` that is past the aggregation has stored its result. -/
def Deposited (g : GroupId) (stored : Prop) : FinalizePc → Prop
  | .aggregate g' _ a => aggregated a = g' ∧ ∀ r, a = .setAggregatedAt g r → stored
  | .toCompleted g' _ => g' = g → stored
  | _ => True

theorem Deposited.mono {stored stored' : Prop} {q : FinalizePc} (h : Deposited g stored q) (hst : stored → stored') :
    Deposited g stored' q := by
  cases q with
  | aggregate => exact ⟨h.1, fun r ha => hst (h.2 r ha)⟩
  | toCompleted => exact fun hg => hst (h hg)
  | _ => trivial

/-- What an await of the aggregation leads to: its last write comes after the result. -/
def After (g : GroupId) (stored : Prop) : Core.Next AggregatePc AggregatedResult → Prop
  | .goto a => ∀ r, a = .setAggregatedAt g r → stored
  | .ret _ => stored
  | .throw => True

/-- The triple of `aggregate`. -/
theorem aggregate_spec {a : AggregatePc} (hg : aggregated a = g)
    (ha : ∀ r, a = .setAggregatedAt g r → EndToEnd.Stored s g) :
    (a.view reg batchSize).Spec (fun _ => True)
      (fun cmd r x => ∀ inp, (exec reg cmd inp s).2 = r → After g (EndToEnd.Stored (exec reg cmd inp s).1 g) x)
      fun _ x => After g (EndToEnd.Stored s g) x := by
  have hreduce : ∀ agg ctx ms stored, After g stored (AggregatePc.reduce g agg ctx ms) := by
    intro agg ctx ms stored
    unfold AggregatePc.reduce
    split
    · trivial
    · simp [After]
  cases a with
  | metaGetAll g' type =>
    refine ⟨trivial, fun m inp _ => ?_, trivial⟩
    simp only
    split
    · trivial
    · simp [After]
  | range g' type context mapped offset =>
    obtain rfl : g' = g := hg
    refine ⟨trivial, fun results inp _ => ?_, trivial⟩
    simp only
    split
    · trivial
    · split
      · exact hreduce _ _ _ _
      · split
        · trivial
        · split
          · exact hreduce _ _ _ _
          · simp [After]
  | setResult g' r =>
    obtain rfl : g' = g := hg
    refine ⟨trivial, fun _ inp _ _ _ => ?_, trivial⟩
    simp [EndToEnd.Stored, exec]
  | setAggregatedAt g' r =>
    obtain rfl : g' = g := hg
    exact ⟨trivial, fun _ inp _ => EndToEnd.stored_exec (ha r rfl), trivial⟩

/-- The triple of `finalizeGroup`: it asks for COMPLETED after the result is stored. -/
theorem finalize_spec {q : FinalizePc} (hq : Deposited g (EndToEnd.Stored s g) q) :
    FinalizeSpec reg (fun cmd => ∀ t, cmd = .transitionStatus g t → t.target = .completed → EndToEnd.Stored s g)
      (fun cmd r q' => ∀ inp, (exec reg cmd inp s).2 = r → Deposited g (EndToEnd.Stored (exec reg cmd inp s).1 g) q')
      (fun _ q' => Deposited g (EndToEnd.Stored s g) q') q := by
  have hno : ∀ {cmd : Cmd}, decides cmd = false →
      ∀ t, cmd = .transitionStatus g t → t.target = .completed → EndToEnd.Stored s g := by
    intro cmd h t he
    rw [he] at h
    cases h
  have hstart : ∀ {g' token type stored}, Deposited g stored (.aggregate g' token (.metaGetAll g' type)) := by
    intro g' token type stored
    exact ⟨rfl, by simp⟩
  cases q with
  | acquire g' p =>
    exact finalize_acquire (hno rfl) (fun _ _ => hno rfl) (fun _ _ _ _ _ => trivial) fun _ _ _ _ _ => trivial
  | metaGetAll g' token =>
    refine ⟨hno rfl, fun m => ?_, trivial⟩
    simp only
    split
    · exact fun inp _ => hstart
    · exact fun inp _ => trivial
    · exact fun inp _ => trivial
  | toAggregating g' token type =>
    refine ⟨fun t he => ?_, fun b => ?_, trivial⟩
    · cases he
      simp [Transition.aggregate]
    · cases b with
      | false => exact fun inp _ => trivial
      | true => exact fun inp _ => hstart
  | aggregate g' token a =>
    obtain ⟨hga, ha⟩ := hq
    rw [FinalizeSpec, FinalizePc.view]
    have hkeep := aggregated_spec reg batchSize a
    by_cases hg : g' = g
    · have hboth := (aggregate_spec (hga.trans hg) ha).and hkeep
      refine (hboth.mono (fun cmd h t he => absurd he (aggregates_transition h.2))
        (fun _ _ _ hx => hx) fun _ _ hx => hx).map (fun cmd r x hx => ?_) fun _ x hx => ?_
      · cases x with
        | goto a' => exact fun inp hr => ⟨Eq.trans hx.2 hga, hx.1 inp hr⟩
        | ret r => exact fun inp hr _ => hx.1 inp hr
        | throw => exact fun inp _ => trivial
      · cases x with
        | goto a' => exact ⟨Eq.trans hx.2 hga, hx.1⟩
        | ret r => exact fun _ => hx.1
        | throw => trivial
    · -- the aggregation of another group
      have hother : ∀ {a' stored}, aggregated a' = aggregated a → Deposited g stored (.aggregate g' token a') := by
        intro a' stored h
        refine ⟨h.trans hga, fun r he => ?_⟩
        rw [he] at h
        exact absurd (hga.symm.trans h.symm) hg
      refine (hkeep.mono (fun cmd h t he => absurd he (aggregates_transition h))
        (fun _ _ _ hx => hx) fun _ _ hx => hx).map (fun cmd r x hx => ?_) fun _ x hx => ?_
      · cases x with
        | goto a' => exact fun inp _ => hother hx
        | ret r => exact fun inp _ h => absurd h hg
        | throw => exact fun inp _ => trivial
      · cases x with
        | goto a' => exact hother hx
        | ret r => exact fun h => absurd h hg
        | throw => trivial
  | toCompleted g' token =>
    refine ⟨fun t he _ => ?_, fun b inp _ => trivial, trivial⟩
    cases he
    exact hq rfl
  | release g' token result => exact finalize_release (hno rfl)

/-- The watcher never asks for COMPLETED itself. -/
abbrev Minding : Proc → Prop := Watching (fun _ _ => True) (fun _ => True) fun _ => True

theorem minding_heeds : Heeds (fun _ _ => True) (fun _ => True) fun _ => True :=
  ⟨fun _ _ _ _ _ _ => trivial, fun _ _ _ _ _ _ => trivial, fun _ _ _ _ => trivial⟩

/-- What is asserted of an activity. -/
def Prepared (g : GroupId) (stored : Prop) (p : Proc) : Prop := Minding p ∧ ∀ q ∈ finalizing p, Deposited g stored q

/-- The triple of every await. -/
theorem prepared_spec {p : Proc} (h : Prepared g (EndToEnd.Stored s g) p) :
    (p.view reg).Spec
      (fun cmd => ∀ t, cmd = .transitionStatus g t → t.target = .completed → EndToEnd.Stored s g)
      (fun cmd r p' => ∀ inp, (exec reg cmd inp s).2 = r → Prepared g (EndToEnd.Stored (exec reg cmd inp s).1 g) p')
      fun _ p' => Prepared g (EndToEnd.Stored s g) p' := by
  have hw := @watching_spec reg _ _ _ minding_heeds p h.1
  have hf := @finalizing_spec reg _ _ _ p (fun q hq => finalize_spec (h.2 q hq)) fun cmd r g' _ inp _ => trivial
  refine (hw.and hf).mono (fun cmd hc t he ht => ?_) (fun cmd r p' hp inp hr => ?_) fun _ p' hp => hp
  · rcases hc.1.2 g t he with hin | ⟨hd, -⟩ | hd | hd
    · exact hc.2 hin t he ht
    all_goals rw [ht] at hd; cases hd
  · exact ⟨hp.1 fun _ _ => trivial, fun q hq => hp.2 q hq inp hr⟩

theorem prepared_outline : Core.Program.Outline (pipeline reg) (fun _ _ => True) (fun _ _ => True)
    fun w _ _ p => Prepared g (EndToEnd.Stored w g) p where
  run := by
    intro c i inp p cmd ok err _ hA hp hv _
    have hs := @prepared_spec reg _ _ _ (hA i p hp)
    rw [show p.view reg = .call cmd ok err from hv] at hs
    exact ⟨trivial, hs.2.1 _ inp rfl, fun k q _ hk => ⟨(hA k q hk).1, fun q' hq' =>
      ((hA k q hk).2 q' hq').mono EndToEnd.stored_exec⟩⟩
  reject := by
    intro c i p cmd ok err _ hA hp hv _
    have hs := @prepared_spec reg _ _ _ hA
    rw [show p.view reg = .call cmd ok err from hv] at hs
    exact hs.2.2
  dead := fun _ _ _ => ⟨trivial, forall_finalizing rfl⟩
  spawn := by
    intro c t _ _
    exact ⟨watching_of_started _ _ _ (t.started reg), finalizing_of_started (fun _ => trivial) (t.started reg)⟩
  env := by
    intro w log e _
    refine ⟨trivial, fun i q h => ?_⟩
    cases e <;> exact h

/-- Whoever makes the group COMPLETED finds a result stored. -/
theorem stored_step {H : State → Label → Prop} {c c' : State} {l : Label} (h : ((runs reg).restrict H).Reachable c)
    (hs : (pipeline reg).Step c l c') (hne : status c g ≠ some .completed) (hc : status c' g = some .completed) :
    EndToEnd.Stored c.world g := by
  have h₀ : Core.Program.Holds (fun _ _ => True) (fun w _ _ p => Prepared g (EndToEnd.Stored w g) p) initialState :=
    ⟨trivial, fun i p hp => by simp [initialState] at hp⟩
  have hA := ((prepared_outline.inductive h₀).reachable c (h.weaken fun _ _ _ => trivial)).2
  cases hs with
  | @run i inp p cmd ok err hp hv =>
    have hspec := @prepared_spec reg _ _ _ (hA i p hp)
    rw [show p.view reg = .call cmd ok err from hv] at hspec
    have hc : ((exec reg cmd inp c.world).1.groupMeta g).status = some .completed := hc
    rcases status_cases reg cmd inp c.world g with h' | ⟨req, rfl, -, -, h'⟩ | ⟨j, rfl, -, h'⟩ | ⟨t, rfl, -, h'⟩
    · exact absurd (h'.symm.trans hc) hne
    · rw [h'] at hc
      cases hc
    · rw [h'] at hc
      cases hc
    · exact hspec.1 t rfl (Option.some.inj (h'.symm.trans hc))
  | @env e => cases e <;> exact absurd hc hne
  | reject | stop | spawn => exact absurd hc hne

/-- In every run in which `ack.lua` is charged to the group after its first
enqueue only, and not while it is AGGREGATING, COMPLETED or FAILED: it is
finalized once, whatever locks expire. -/
theorem single_finalization (reg : Registry) (g : GroupId) (c : State)
    (h : ((runs reg).restrict fun c l => NoAck reg g c l ∧ Submitted reg g c l).Reachable c) :
    Once reg (fun c l => NoAck reg g c l ∧ Submitted reg g c l) g c where
  left := by
    intro l c' hs hne c'' hsteps heq
    have hr' := h.step hs
    rcases rank_step (accounted_reachable h).counted hs.1 hs.2.1 with hsame | hlt
    · exact hne hsame
    · rcases rank_steps hr' hsteps with hsame | hlt'
      · exact hne (hsame.symm.trans heq)
      · rw [heq] at hlt'
        omega
  completed := by
    have := (accounted_reachable h).completed
    split at this <;> omega
  failed := by
    have := (accounted_reachable h).failed
    split at this <;> omega
  exclusive := by
    intro st hterm hst c' hsteps st' _ hst'
    rcases rank_steps h hsteps with hsame | hlt
    · rw [hst, hst'] at hsame
      exact Option.some.inj hsame
    · have := rank_le (status c' g)
      rw [hst, rank_terminal hterm] at hlt
      omega
  stored := fun _ _ hs hne hc => stored_step h hs.1 hne hc

end

/-- The worker's call of `finalizeGroup` has read AGGREGATING when its lock
expires; a second call comes to the end first. -/
def overlapped : List Label :=
  oneJob ++ processed 2 3 ++ runsAt 2 3 7 ++ [.env (.lock (.aggregation "g")), .spawn (.finalizeGroup "g")] ++
    runsAt 3 4 8 ++ runsAt 2 5 5

theorem single_finalization_overlapped : ∃ c : State,
    status c "g" = some .completed ∧ granted "g" .completed c.log = 1 ∧
      Once {} (fun c l => NoAck {} "g" c l ∧ Submitted {} "g" c l) "g" c := by
  obtain ⟨c, hr, hP⟩ := Core.Program.exists_of_replay (S := pipeline {})
    (P := fun c : State => decide (status c "g" = some .completed ∧ granted "g" .completed c.log = 1))
    (show ((pipeline {}).replay (fun c l => decide (NoAck {} "g" c l ∧ Submitted {} "g" c l)) initialState
      overlapped).any _ = true by decide +kernel)
  have hr' : ((runs {}).restrict fun c l => NoAck {} "g" c l ∧ Submitted {} "g" c l).Reachable c :=
    Core.LTS.Reachable.weaken (fun _ _ h => of_decide_eq_true h) hr
  obtain ⟨hs, hg⟩ := of_decide_eq_true hP
  exact ⟨c, hs, hg, single_finalization {} "g" c hr'⟩

/-- Worker `i` takes the job `j`; the processor's answer names the group `h`. -/
def charged (i now : Nat) (j : JobId) : List Label :=
  [.spawn (.tick "worker-0" "i")] ++ runsAt i now 7 ++
    [.run i { now, outcome := some (.returned ⟨j, "h", true, none, none, 0, none⟩) }] ++ runsAt i now 14

/-- The job of `g` is charged to `h`, which is completed before its own job is
submitted. -/
def chargedEarly : List Label :=
  oneJob ++ charged 2 3 "j" ++ [.spawn (.submitJob ⟨"h", "k", "SEND_EMAIL", "null", 0, .normal⟩)] ++ runsAt 3 4 1 ++
    [.spawn .fetchCycle] ++ runsAt 4 5 5 ++ charged 5 6 "k"

/-- Two callers are told that they have made the group COMPLETED. -/
theorem finalized_again :
    ¬ ∀ (reg : Registry) (g : GroupId) (c : State), ((runs reg).restrict (NoAck reg g)).Reachable c →
      Once reg (NoAck reg g) g c := by
  intro h
  obtain ⟨c, hr, hP⟩ := Core.Program.exists_of_replay (S := pipeline {})
    (P := fun c : State => decide (granted "h" .completed c.log = 2))
    (show ((pipeline {}).replay (fun c l => decide (NoAck {} "h" c l)) initialState chargedEarly).any _ = true by
      decide +kernel)
  have hr' : ((runs {}).restrict (NoAck {} "h")).Reachable c :=
    Core.LTS.Reachable.weaken (fun _ _ h => of_decide_eq_true h) hr
  have := (h {} "h" c hr').completed
  rw [of_decide_eq_true hP] at this
  omega

end NestPlayground.L5.SingleFinalization
