import NestPlayground.L5Properties.EndToEnd

/-!
# What a report says

`aggregate` reads the counters first and the results after them, in batches,
while other workers go on recording. A stored result is therefore made of two
prefixes of the job-results list: `counted`, the results that were there when
the counters were read, and `read`, the results that were mapped. The second
never falls behind the first (`Honest`), whoever finalizes, however often, and
wherever a process stops. A group is COMPLETED only behind such a result.
-/
namespace NestPlayground.L5.Reports
open L1 L3 L4

/-- The context of a group with these results. -/
def contextAt (g : GroupId) (totalJobs : Nat) (counted : List JobProcessorResponse) : AggregationContext where
  groupId := g
  totalJobs
  successCount := counted.countP (·.success)
  failedCount := counted.countP (!·.success)

/-- `context` was read when `counted` were the results of the group. -/
structure ReadAt (g : GroupId) (w : Store) (counted : List JobProcessorResponse) (context : AggregationContext) :
    Prop where
  results : counted <+: w.groupJobResults g
  total : context.totalJobs ≤ (w.groupMeta g).totalJobs.getD 0
  context : context = contextAt g context.totalJobs counted

/-- The aggregator of a group without a processor type made `r` of a prefix of the
results, with the counts of a shorter one. -/
inductive Honest (reg : Registry) (g : GroupId) (w : Store) (r : AggregatedResult) : Prop where
  | intro {aggregator context counted read mapped} (resolved : reg.resolveAggregator none = some aggregator)
      (counts : ReadAt g w counted context) (behind : counted <+: read) (results : read <+: w.groupJobResults g)
      (maps : read.mapM aggregator.map = some mapped) (reduces : aggregator.reduce mapped context = some r)

/-- The hash under `group:{groupId}:result` is written. -/
structure Stored (g : GroupId) (w : Store) : Prop where
  result : (w.groupResult g).result.isSome = true
  aggregatedAt : (w.groupResult g).aggregatedAt.isSome = true

/-! ## What only grows -/

/-- What no call takes back from a group. -/
structure Grown (g : GroupId) (w w' : Store) : Prop where
  results : w.groupJobResults g <+: w'.groupJobResults g
  total : (w.groupMeta g).totalJobs.getD 0 ≤ (w'.groupMeta g).totalJobs.getD 0
  result : (w.groupResult g).result.isSome = true → (w'.groupResult g).result.isSome = true
  aggregatedAt : (w.groupResult g).aggregatedAt.isSome = true → (w'.groupResult g).aggregatedAt.isSome = true
  completedAt : (w.groupMeta g).completedAt.isSome = true → (w'.groupMeta g).completedAt.isSome = true

section
variable {reg : Registry} {g : GroupId} {w w' s : Store} {cmd : Cmd} {inp : Input} {r : AggregatedResult}

theorem grown_exec (reg : Registry) (cmd : Cmd) (inp : Input) (s : Store) (g : GroupId) :
    Grown g s (exec reg cmd inp s).1 := by
  have hresult : ((s.groupResult g).result.isSome = true →
        ((exec reg cmd inp s).1.groupResult g).result.isSome = true) ∧
      ((s.groupResult g).aggregatedAt.isSome = true →
        ((exec reg cmd inp s).1.groupResult g).aggregatedAt.isSome = true) := by
    by_cases hs : stores cmd = true
    · cases cmd with
      | resultSet g' r | resultSetAggregatedAt g' =>
        rcases eq_or_ne g g' with rfl | hne
        · simp [exec]
        · simp [exec, Function.update_of_ne hne]
      | _ => cases hs
    · rw [groupResult_frame (eq_false_of_ne_true hs)]
      exact ⟨id, id⟩
  refine ⟨?_, totalJobs_mono reg cmd inp s g, hresult.1, hresult.2, ?_⟩
  · rcases results_exec reg cmd inp s g with ⟨hr, -⟩ | ⟨r, -, -, hr⟩
    · exact hr.symm ▸ List.prefix_rfl
    · exact hr.symm ▸ List.prefix_append _ _
  · have hm := meta_step reg cmd inp s g
    generalize (exec reg cmd inp s).1.groupMeta g = m' at hm ⊢
    cases hm with
    | @moved t h => cases ht : t.target <;> simp [L2.setStatus]
    | _ => exact id

theorem ReadAt.mono {counted : List JobProcessorResponse} {context : AggregationContext} (hg : Grown g w w')
    (h : ReadAt g w counted context) : ReadAt g w' counted context :=
  ⟨h.results.trans hg.results, h.total.trans hg.total, h.context⟩

theorem Honest.mono (hg : Grown g w w') (h : Honest reg g w r) : Honest reg g w' r := by
  obtain ⟨resolved, counts, behind, results, maps, reduces⟩ := h
  exact ⟨resolved, counts.mono hg, behind, results.trans hg.results, maps, reduces⟩

theorem Stored.mono (hg : Grown g w w') (h : Stored g w) : Stored g w' :=
  ⟨hg.result h.result, hg.aggregatedAt h.aggregatedAt⟩

/-- The counters a group shows are those of its list. -/
theorem readAt_contextOf {log : Log} (h : Books s log) (g : GroupId) :
    ReadAt g s (s.groupJobResults g) (contextOf g (s.groupMeta g)) := by
  refine ⟨List.prefix_rfl, le_refl _, ?_⟩
  unfold contextOf contextAt
  rw [h.success g, h.failed g]

end

/-! ## The aggregation -/

section
variable (reg : Registry) (w : Store)

/-- What an aggregation has read of the results so far. -/
inductive Reading (g : GroupId) (context : AggregationContext) (mapped : List Mapped) (offset : Nat) : Prop where
  | intro {aggregator counted read} (resolved : reg.resolveAggregator none = some aggregator)
      (counts : ReadAt g w counted context) (results : read <+: w.groupJobResults g) (length : read.length = offset)
      (maps : read.mapM aggregator.map = some mapped)

def AtAggregate : AggregatePc → Prop
  | .metaGetAll _ type => type = none
  | .range g type context mapped offset => type = none ∧ Reading reg w g context mapped offset
  | .setResult g r => Honest reg g w r
  | .setAggregatedAt g _ => (w.groupResult g).result.isSome = true

def AfterAggregate (g : GroupId) : Core.Next AggregatePc AggregatedResult → Prop
  | .goto a => AtAggregate reg w a
  | .ret _ => Stored g w
  | .throw => True

/-- `finalizeGroup` completes a group whose result it has stored. -/
def AtFinalize : FinalizePc → Prop
  | .toAggregating _ _ type => type = none
  | .aggregate g _ a => aggregated a = g ∧ AtAggregate reg w a
  | .toCompleted g _ => Stored g w
  | _ => True

end

section
variable {reg : Registry} {g : GroupId} {w w' s : Store} {cmd : Cmd} {inp : Input} {log : Log}

theorem AtAggregate.mono {a : AggregatePc} (hg : ∀ g, Grown g w w') (h : AtAggregate reg w a) :
    AtAggregate reg w' a := by
  cases a with
  | metaGetAll g type => exact h
  | range g type context mapped offset =>
    obtain ⟨htype, resolved, counts, results, length, maps⟩ := h
    exact ⟨htype, resolved, counts.mono (hg g), results.trans (hg g).results, length, maps⟩
  | setResult g r => exact Honest.mono (hg g) h
  | setAggregatedAt g r => exact (hg g).result h

theorem AtFinalize.mono {q : FinalizePc} (hg : ∀ g, Grown g w w') (h : AtFinalize reg w q) : AtFinalize reg w' q := by
  cases q with
  | aggregate g token a => exact ⟨h.1, h.2.mono hg⟩
  | toAggregating g token type => exact h
  | toCompleted g token => exact Stored.mono (hg g) h
  | acquire | metaGetAll | release => trivial

/-- At the end of the loop everything was read, so nothing that was counted is missing. -/
theorem after_reduce {aggregator : Aggregator} {context : AggregationContext}
    {counted read : List JobProcessorResponse} {mapped : List Mapped}
    (resolved : reg.resolveAggregator none = some aggregator) (counts : ReadAt g w counted context)
    (results : read <+: w.groupJobResults g) (hlen : (w.groupJobResults g).length ≤ read.length)
    (maps : read.mapM aggregator.map = some mapped) :
    AfterAggregate reg w g (AggregatePc.reduce g aggregator context mapped) := by
  unfold AggregatePc.reduce
  split
  · trivial
  · rename_i r hr
    have behind : counted <+: read :=
      List.prefix_of_prefix_length_le counts.results results (counts.results.length_le.trans hlen)
    exact ⟨resolved, counts, behind, results, maps, hr⟩

/-- The triple of `aggregate`. -/
theorem aggregate_spec {a : AggregatePc} {batch : Nat} (hbatch : 0 < batch) (hb : Books s log)
    (h : AtAggregate reg s a) :
    (a.view reg batch).Spec (fun cmd => ∀ g r, cmd = .resultSet g r → Honest reg g s r)
      (fun cmd r x => ∀ inp, (exec reg cmd inp s).2 = r → AfterAggregate reg (exec reg cmd inp s).1 (aggregated a) x)
      fun _ x => AfterAggregate reg s (aggregated a) x := by
  cases a with
  | metaGetAll g type =>
    obtain rfl : type = none := h
    refine ⟨fun g r he => (by cases he), fun m inp hr => ?_, trivial⟩
    simp only
    split
    · trivial
    · rename_i resolved
      subst hr
      exact ⟨rfl, resolved, readAt_contextOf hb g, List.nil_prefix, rfl, rfl⟩
  | range g type context mapped offset =>
    obtain ⟨rfl, @⟨aggregator, counted, read, resolved, counts, results, length, maps⟩⟩ := h
    refine ⟨fun g r he => (by cases he), fun batched inp hr => ?_, trivial⟩
    have hbatched : batched = ((s.groupJobResults g).drop read.length).take batch := by
      rw [← hr, length]
      rfl
    have hlen := congrArg List.length hbatched
    rw [List.length_take, List.length_drop] at hlen
    simp only [resolved]
    split
    · rename_i hnil
      -- an empty batch: the list ends where the reading does
      rw [hnil, List.length_nil] at hlen
      exact after_reduce resolved counts results (by simp only [aggregated, exec]; omega) maps
    · split
      · trivial
      · rename_i mapped' hmapped
        have hread : read ++ batched <+: s.groupJobResults g := by
          rw [hbatched]
          exact L2.prefix_append_batch results batch
        have hmaps : (read ++ batched).mapM aggregator.map = some (mapped ++ mapped') := by
          rw [List.mapM_append, maps, hmapped]
          rfl
        split
        · rename_i hlt
          refine after_reduce resolved counts hread ?_ hmaps
          simp only [aggregated, exec, List.length_append]
          omega
        · refine ⟨rfl, resolved, counts, hread, ?_, hmaps⟩
          rw [List.length_append, length]
  | setResult g r =>
    refine ⟨fun g' r' he => ?_, fun _ inp _ => ?_, trivial⟩
    · cases he
      exact h
    · simp [AfterAggregate, AtAggregate, exec]
  | setAggregatedAt g r =>
    refine ⟨fun g r he => (by cases he), fun _ inp _ => ⟨?_, ?_⟩, trivial⟩
    · have h : (s.groupResult g).result.isSome = true := h
      simpa [aggregated, exec] using h
    · simp [aggregated, exec]

/-- The triple of `finalizeGroup`. -/
theorem finalize_spec (hb : Books s log) (hu : ∀ g, (s.groupMeta g).processorType = none) {q : FinalizePc}
    (h : AtFinalize reg s q) :
    FinalizeSpec reg (fun cmd => (∀ g r, cmd = .resultSet g r → Honest reg g s r) ∧
        ∀ g t, cmd = .transitionStatus g t → t.target = .completed → Stored g s)
      (fun cmd r q' => ∀ inp, (exec reg cmd inp s).2 = r → AtFinalize reg (exec reg cmd inp s).1 q')
      (fun _ q' => AtFinalize reg s q') q := by
  have hno : ∀ {cmd : Cmd}, decides cmd = false →
      (∀ g r, cmd = .resultSet g r → Honest reg g s r) ∧
      ∀ g t, cmd = .transitionStatus g t → t.target = .completed → Stored g s := by
    intro cmd h
    refine ⟨fun g r he => ?_, fun g t he => ?_⟩ <;> rw [he] at h <;> cases h
  cases q with
  | acquire g p => exact finalize_acquire (hno rfl) (fun _ _ => hno rfl) (fun _ _ _ _ _ => trivial) fun _ _ _ _ _ => trivial
  | metaGetAll g token =>
    refine ⟨hno rfl, fun m => ?_, trivial⟩
    have htype : ∀ {inp : Input}, (exec reg (.metaGetAll g) inp s).2 = m → m.processorType = none := by
      rintro inp rfl
      exact hu g
    simp only
    split
    · exact fun inp hr => ⟨rfl, htype hr⟩
    · exact fun inp hr => htype hr
    · exact fun inp _ => trivial
  | toAggregating g token type =>
    refine ⟨⟨fun g r he => (by cases he), fun g' t he ht => ?_⟩, fun b => ?_, trivial⟩
    · cases he
      cases ht
    · cases b with
      | false => exact fun inp _ => trivial
      | true => exact fun inp _ => ⟨rfl, h⟩
  | aggregate g token a =>
    obtain ⟨hga, ha⟩ := h
    rw [FinalizeSpec, FinalizePc.view]
    have hboth := (aggregate_spec (by decide : 0 < batchSize) hb ha).and (aggregated_spec reg batchSize a)
    refine (hboth.mono (fun cmd h => ?_) (fun _ _ _ hx => hx) fun _ _ hx => hx).map (fun cmd r x hx => ?_)
      fun _ x hx => ?_
    · exact ⟨h.1, fun g t he => absurd he (aggregates_transition h.2)⟩
    · cases x with
      | goto a' => exact fun inp hr => ⟨Eq.trans hx.2 hga, hx.1 inp hr⟩
      | ret r =>
        intro inp hr
        have := hx.1 inp hr
        rw [hga] at this
        exact this
      | throw => exact fun inp _ => trivial
    · cases x with
      | goto a' => exact ⟨Eq.trans hx.2 hga, hx.1⟩
      | ret r =>
        have := hx.1
        rw [hga] at this
        exact this
      | throw => trivial
  | toCompleted g token =>
    refine ⟨⟨fun g r he => (by cases he), fun g' t he _ => ?_⟩, fun b inp _ => trivial, trivial⟩
    cases he
    exact h
  | release g token result => exact finalize_release (hno rfl)

end

/-! ## Runs -/

section
variable {reg : Registry} {g : GroupId} {w s : Store} {cmd : Cmd} {inp : Input} {p : Proc}

/-- What holds of every group's result and status. -/
structure Reported (reg : Registry) (w : Store) : Prop where
  report : ∀ g r, (w.groupResult g).result = some r → Honest reg g w r
  completed : ∀ g, (w.groupMeta g).status = some .completed →
    Stored g w ∧ (w.groupMeta g).completedAt.isSome = true

/-- One call keeps what was reported, if its caller may make it. -/
theorem Reported.exec (h : Reported reg s) (hp : Permitted (fun _ => True) p cmd)
    (hf : (finalizing p).isSome → (∀ g r, cmd = .resultSet g r → Honest reg g s r) ∧
      ∀ g t, cmd = .transitionStatus g t → t.target = .completed → Stored g s) :
    Reported reg (L3.exec reg cmd inp s).1 := by
  have hgrown := grown_exec reg cmd inp s
  refine ⟨fun g r hr => ?_, fun g hs => ?_⟩
  · refine Honest.mono (hgrown g) ?_
    by_cases hset : ∃ r', cmd = .resultSet g r'
    · obtain ⟨r', rfl⟩ := hset
      simp only [L3.exec, Function.update_self] at hr
      cases hr
      exact (hf (hp.1 rfl)).1 g r rfl
    · rw [result_frame fun r' he => hset ⟨r', he⟩] at hr
      exact h.report g r hr
  · rcases status_cases reg cmd inp s g with h' | ⟨req, rfl, -, -, h'⟩ | ⟨j, rfl, -, h'⟩ | ⟨t, rfl, hfrom, h'⟩
    · obtain ⟨hstored, hat⟩ := h.completed g (h'.symm.trans hs)
      exact ⟨hstored.mono (hgrown g), (hgrown g).completedAt hat⟩
    · rw [h'] at hs
      cases hs
    · rw [h'] at hs
      cases hs
    · rw [h'] at hs
      have ht : t.target = .completed := Option.some.inj hs
      refine ⟨?_, ?_⟩
      · rcases hp.2 g t rfl with hin | ⟨hd, -⟩ | hd | hd
        · exact ((hf hin).2 g t rfl ht).mono (hgrown g)
        all_goals rw [ht] at hd; cases hd
      · simp [L3.exec, L2.transitionStatus, hfrom, Store.modMeta, L2.setStatus, ht]

/-- The watcher knows nothing in particular of what it has read. -/
abbrev Minding : Proc → Prop := Watching (fun _ _ => True) (fun _ => True) fun _ => True

theorem minding_heeds : Heeds (fun _ _ => True) (fun _ => True) fun _ => True :=
  ⟨fun _ _ _ _ _ _ => trivial, fun _ _ _ _ _ _ => trivial, fun _ _ _ _ => trivial⟩

theorem reported_outline :
    Core.Program.Outline (pipeline reg) (fun c _ => ∀ g, (c.world.groupMeta g).processorType = none)
      (fun w log => Books w log ∧ Reported reg w)
      fun w _ _ p => Minding p ∧ ∀ q ∈ finalizing p, AtFinalize reg w q where
  run := by
    intro c i inp p cmd ok err hI hA hp hv hu
    have hv : p.view reg = .call cmd ok err := hv
    have hw := @watching_spec reg _ _ _ minding_heeds p (hA i p hp).1
    have hf := @finalizing_spec reg _ _ _ p (fun q hq => finalize_spec hI.1 hu ((hA i p hp).2 q hq))
      fun cmd r g _ inp _ => trivial
    rw [hv] at hw hf
    refine ⟨⟨hI.1.exec reg i cmd inp, hI.2.exec hw.1 hf.1⟩, ⟨hw.2.1 _ fun _ _ => trivial, fun q hq => ?_⟩,
      fun k q _ hk => ⟨(hA k q hk).1, fun q' hq' => ((hA k q hk).2 q' hq').mono (grown_exec reg cmd inp c.world)⟩⟩
    exact hf.2.1 _ q hq inp rfl
  reject := by
    intro c i p cmd ok err hI hA hp hv hu
    have hw := @watching_spec reg _ _ _ minding_heeds p hA.1
    have hf := @finalizing_spec reg _ _ _ p (fun q hq => finalize_spec hI.1 hu (hA.2 q hq))
      fun cmd r g _ inp _ => trivial
    rw [show p.view reg = .call cmd ok err from hv] at hw hf
    exact ⟨hw.2.2, hf.2.2⟩
  dead := fun _ _ _ => ⟨trivial, fun q hq => (by cases hq)⟩
  spawn := by
    intro c t _ _
    exact ⟨watching_of_started _ _ _ (Task.started reg t), finalizing_of_started (fun g => trivial) (Task.started reg t)⟩
  env := by
    intro w log e hI
    have hsame : ∀ g, Grown g w (expire e w) ∧ Grown g (expire e w) w := by
      intro g
      cases e <;> exact ⟨⟨List.prefix_rfl, le_refl _, id, id, id⟩, ⟨List.prefix_rfl, le_refl _, id, id, id⟩⟩
    refine ⟨⟨(books reg).env e hI.1, ?_, ?_⟩, fun i p h => ⟨h.1, fun q hq => (h.2 q hq).mono fun g => (hsame g).1⟩⟩
    · intro g r hr
      refine Honest.mono (hsame g).1 (hI.2.report g r ?_)
      cases e <;> exact hr
    · intro g hs
      have h := hI.2.completed g (by cases e <;> exact hs)
      exact ⟨h.1.mono (hsame g).1, (hsame g).1.completedAt h.2⟩

theorem reported_reachable {c : State} (h : (runs reg).Reachable c) : Books c.world c.log ∧ Reported reg c.world := by
  have h₀ : Core.Program.Holds (fun w log => Books w log ∧ Reported reg w)
      (fun w _ _ p => Minding p ∧ ∀ q ∈ finalizing p, AtFinalize reg w q) initialState :=
    ⟨⟨books_empty, ⟨fun g r hr => (by cases hr), fun g hs => (by cases hs)⟩⟩,
      fun i p hp => by simp [initialState] at hp⟩
  have huntyped := Core.LTS.Reachable.enrich (fun c hc g => EndToEnd.untyped_reachable (g := g) hc)
    (h.of_forall (H := fun _ _ => True) fun _ _ => trivial)
  exact ((reported_outline.inductive h₀).reachable c (huntyped.weaken fun _ _ h => h.2)).1

/-- What a report of the default aggregator says beside what the group shows: it
never counts more, and no failure it counts is missing from its list. -/
structure Sound (w : Store) (g : GroupId) (d : DefaultReduceResult) : Prop where
  total : d.totalJobs ≤ (w.groupMeta g).totalJobs.getD 0
  success : d.successCount ≤ (w.groupMeta g).successCount.getD 0
  failed : d.failedCount ≤ d.failedJobIds.length
  listed : d.failedJobIds <+: ((w.groupJobResults g).filter (!·.success)).map (·.jobId)

/-- The failed jobs the default aggregator lists are the failures it has read. -/
theorem reduce_default {read : List JobProcessorResponse} {mapped : List Mapped} {context : AggregationContext}
    {r : AggregatedResult} (maps : read.mapM defaultAggregator.map = some mapped)
    (reduces : defaultAggregator.reduce mapped context = some r) :
    ∃ d, r = .default d ∧ d.totalJobs = context.totalJobs ∧ d.successCount = context.successCount ∧
      d.failedCount = context.failedCount ∧ d.failedJobIds = (read.filter (!·.success)).map (·.jobId) := by
  rw [EndToEnd.mapM_default] at maps
  cases maps
  cases reduces
  refine ⟨_, rfl, rfl, rfl, rfl, ?_⟩
  simp only [DefaultAggregator.reduce, EndToEnd.filterMap_toDefault, List.filter_map, List.map_map]
  rfl

theorem sound_of_honest {d : DefaultReduceResult} {log : Log} (hb : Books w log)
    (hd : EndToEnd.Default reg) (h : Honest reg g w (.default d)) : Sound w g d := by
  obtain @⟨aggregator, context, counted, read, mapped, resolved, counts, behind, results, maps, reduces⟩ := h
  obtain rfl : aggregator = defaultAggregator := Option.some.inj (resolved.symm.trans hd)
  obtain ⟨d', he, htotal, hsuccess, hfailed, hids⟩ := reduce_default maps reduces
  cases he
  have hcontext := counts.context
  refine ⟨htotal ▸ counts.total, ?_, ?_, ?_⟩
  · rw [hsuccess, hcontext, hb.success g]
    exact counts.results.sublist.countP_le
  · rw [hfailed, hcontext, hids, List.length_map, ← List.countP_eq_length_filter]
    exact behind.sublist.countP_le
  · rw [hids]
    exact (results.filter _).map _

/-- In every run, whatever fails or stops: a stored result is what the aggregator
registered as `__default__` makes of the results read, a prefix of the list, under
the counts of a prefix of what was read. If that is the default aggregator, the
report counts no success and no job the group does not show and lists every
failure it counts. -/
theorem report_honest (reg : Registry) (c : State) (h : (runs reg).Reachable c) (g : GroupId) (r : AggregatedResult)
    (hr : (c.world.groupResult g).result = some r) :
    Honest reg g c.world r ∧
      (EndToEnd.Default reg → ∃ d, r = .default d ∧ Sound c.world g d) := by
  obtain ⟨hb, hrep⟩ := reported_reachable h
  have hhonest := hrep.report g r hr
  refine ⟨hhonest, fun hd => ?_⟩
  obtain @⟨aggregator, context, counted, read, mapped, resolved, -, -, -, maps, reduces⟩ := hhonest
  obtain rfl : aggregator = defaultAggregator := Option.some.inj (resolved.symm.trans hd)
  obtain ⟨d, rfl, -⟩ := reduce_default maps reduces
  exact ⟨d, rfl, sound_of_honest hb hd (hrep.report g _ hr)⟩

/-- In every run a COMPLETED group has its result, the time it was stored and the
time of its completion. -/
theorem completed_reported (reg : Registry) (c : State) (h : (runs reg).Reachable c) (g : GroupId)
    (hs : (c.world.groupMeta g).status = some .completed) :
    Stored g c.world ∧ (c.world.groupMeta g).completedAt.isSome = true :=
  (reported_reachable h).2.completed g hs

end

/-- One job, processed with success, and a group completed by its worker. -/
theorem oneJob_completes : ∃ c : State, (runs {}).Reachable c ∧
    (c.world.groupMeta "g").status = some .completed ∧
    (c.world.groupResult "g").result = some (.default ⟨1, 0, 1, 0, []⟩) := by
  obtain ⟨c, hr, hP⟩ := Core.Program.exists_of_replay (S := pipeline {})
    (P := fun c : State => decide ((c.world.groupMeta "g").status = some .completed ∧
      (c.world.groupResult "g").result = some (.default ⟨1, 0, 1, 0, []⟩)))
    (show ((pipeline {}).replay (fun _ _ => true) initialState (oneJob ++ processed 2 3 ++ runsAt 2 3 12)).any _ =
      true by decide +kernel)
  exact ⟨c, hr.unrestrict, of_decide_eq_true hP⟩

theorem report_honest_oneJob : ∃ c : State, (runs {}).Reachable c ∧
    Honest {} "g" c.world (.default ⟨1, 0, 1, 0, []⟩) ∧ Sound c.world "g" ⟨1, 0, 1, 0, []⟩ := by
  obtain ⟨c, h, -, hr⟩ := oneJob_completes
  obtain ⟨hhonest, hsound⟩ := report_honest {} c h "g" _ hr
  obtain ⟨d, hd, hsound⟩ := hsound rfl
  cases hd
  exact ⟨c, h, hhonest, hsound⟩

theorem completed_reported_oneJob : ∃ c : State, (runs {}).Reachable c ∧
    (c.world.groupMeta "g").status = some .completed ∧ Stored "g" c.world ∧
    (c.world.groupMeta "g").completedAt.isSome = true := by
  obtain ⟨c, h, hs, -⟩ := oneJob_completes
  exact ⟨c, h, hs, completed_reported {} c h "g" hs⟩

end NestPlayground.L5.Reports
