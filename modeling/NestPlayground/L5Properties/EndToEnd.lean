import NestPlayground.L4Pipeline.Books
import NestPlayground.L4Pipeline.Deadlines
import NestPlayground.L4Pipeline.Finalizing

/-!
# End to end

A group is aggregated when `ack.lua` has counted its last job, when the watcher
finds as many results as jobs, or when `finalizeGroup` is called directly, and
`finalizeGroup` itself goes by the status alone. Once the results are as many
as the jobs (`Full`) nothing is recorded any more, and nothing is enqueued if
all jobs were enqueued before the first result: what the aggregation reads in
batches stands still. Every way to COMPLETED is shown to start from there.

A job that is enqueued after the watcher's test, and a direct call on a RUNNING
group, complete the group without the rest (`completed_too_early`).
-/
namespace NestPlayground.L5.EndToEnd
open L1 L3 L4

/-- What the aggregation of a group reads. -/
structure Tally where
  context : AggregationContext
  results : List JobProcessorResponse

def tally (w : Store) (g : GroupId) : Tally := ⟨contextOf g (w.groupMeta g), w.groupJobResults g⟩

/-- There are as many results as jobs. -/
def Full (context : AggregationContext) : Prop :=
  0 < context.totalJobs ∧ context.totalJobs ≤ context.successCount + context.failedCount

instance (context : AggregationContext) : Decidable (Full context) := inferInstanceAs (Decidable (_ ∧ _))

/-- The aggregator of a group without a processor type is the default one. -/
def Default (reg : Registry) : Prop := reg.aggregatorMap "__default__" = some defaultAggregator

/-- The default aggregator makes `r` of the tally. -/
def Sums (reg : Registry) (t : Tally) (r : AggregatedResult) : Prop :=
  Default reg → r = .default (DefaultAggregator.reduce (t.results.map DefaultAggregator.map) t.context)

def Stored (w : Store) (g : GroupId) : Prop := (w.groupResult g).result.isSome = true

/-! ## The aggregation -/

section
variable (reg : Registry) (g : GroupId) (t : Tally) (stored : Prop)

/-- What an aggregation of the group has read so far. -/
def AtAggregate : AggregatePc → Prop
  | .metaGetAll _ type => type = none
  | .range _ type context mapped offset => type = none ∧ context = t.context ∧
      (Default reg → mapped = (t.results.take offset).map fun r => .default (DefaultAggregator.map r))
  | .setResult _ r => Sums reg t r
  | .setAggregatedAt _ _ => stored

def AfterAggregate : Core.Next AggregatePc AggregatedResult → Prop
  | .goto a => AtAggregate reg t stored a
  | .ret _ => stored
  | .throw => True

/-- A call of `finalizeGroup` for the group: the tally is full, and the group is
completed after its result is stored. -/
def AtFinalize : FinalizePc → Prop
  | .acquire g' _ => g' = g → Full t.context
  | .metaGetAll g' _ => g' = g → Full t.context
  | .toAggregating g' _ type => g' = g → Full t.context ∧ type = none
  | .aggregate g' _ a => aggregated a = g' ∧ (g' = g → Full t.context ∧ AtAggregate reg t stored a)
  | .toCompleted g' _ => g' = g → Full t.context ∧ stored
  | .release _ _ _ => True

end

section
variable {reg : Registry} {g : GroupId} {t t' : Tally} {stored stored' : Prop} {s : Store} {cmd : Cmd} {inp : Input}

theorem AtAggregate.mono {a : AggregatePc} (h : AtAggregate reg t stored a) (hst : stored → stored') :
    AtAggregate reg t stored' a := by
  cases a with
  | setAggregatedAt => exact hst h
  | metaGetAll | range | setResult => exact h

/-- A full tally stands still, so what was read of it stays true. -/
theorem AtFinalize.mono {q : FinalizePc} (h : AtFinalize reg g t stored q) (ht : Full t.context → t' = t)
    (hst : stored → stored') : AtFinalize reg g t' stored' q := by
  have hfull : Full t.context → Full t'.context := by
    intro hF
    rw [ht hF]
    exact hF
  cases q with
  | acquire | metaGetAll => exact fun hg => hfull (h hg)
  | toAggregating => exact fun hg => ⟨hfull (h hg).1, (h hg).2⟩
  | aggregate g' token a =>
    refine ⟨h.1, fun hg => ?_⟩
    obtain ⟨hF, ha⟩ := h.2 hg
    rw [ht hF]
    exact ⟨hF, ha.mono hst⟩
  | toCompleted => exact fun hg => ⟨hfull (h hg).1, hst (h hg).2⟩
  | release => trivial

/-- A batch of the list after what was read before. -/
theorem take_append_batch {α : Type} (l : List α) (offset batch : Nat) :
    l.take offset ++ (l.drop offset).take batch = l.take (offset + ((l.drop offset).take batch).length) := by
  rw [List.take_add, List.length_take]
  congr 1
  rw [List.take_eq_take_iff]
  omega

theorem filterMap_toDefault (l : List JobProcessorResponse) :
    (l.map fun r => Mapped.default (DefaultAggregator.map r)).filterMap Mapped.toDefault =
      l.map DefaultAggregator.map := by
  induction l with
  | nil => rfl
  | cons r l ih => simpa [Mapped.toDefault] using ih

/-- The end of the loop: everything was read. -/
theorem after_reduce {aggregator : Aggregator} {mapped : List Mapped}
    (ha : reg.aggregatorMap "__default__" = some aggregator)
    (hm : Default reg → mapped = t.results.map fun r => .default (DefaultAggregator.map r)) :
    AfterAggregate reg t stored (AggregatePc.reduce g aggregator t.context mapped) := by
  unfold AggregatePc.reduce
  split
  · trivial
  · rename_i r hr
    intro hd
    obtain rfl : aggregator = defaultAggregator := by
      rw [hd] at ha
      cases ha
      rfl
    rw [hm hd] at hr
    simp only [defaultAggregator, filterMap_toDefault, Option.some.injEq] at hr
    exact hr.symm

theorem mapM_default (l : List JobProcessorResponse) :
    l.mapM defaultAggregator.map = some (l.map fun r => .default (DefaultAggregator.map r)) := by
  induction l with
  | nil => rfl
  | cons r l ih =>
    rw [List.mapM_cons, ih]
    rfl

/-- The triple of `aggregate` for a group without a processor type. -/
theorem aggregate_spec {a : AggregatePc} (hg : aggregated a = g)
    (ha : AtAggregate reg (tally s g) (Stored s g) a) :
    (a.view reg batchSize).Spec (fun cmd => ∀ r, cmd = .resultSet g r → Sums reg (tally s g) r)
      (fun cmd r x => ∀ inp, (exec reg cmd inp s).2 = r →
        AfterAggregate reg (tally s g) (Stored (exec reg cmd inp s).1 g) x)
      fun _ x => AfterAggregate reg (tally s g) (Stored s g) x := by
  cases a with
  | metaGetAll g' type =>
    obtain rfl : g' = g := hg
    refine ⟨by simp, fun m inp hr => ?_, trivial⟩
    simp only
    split
    · trivial
    · refine ⟨ha, ?_, fun _ => ?_⟩
      · rw [← hr]
        rfl
      · rw [List.take_zero, List.map_nil]
  | range g' type context mapped offset =>
    obtain rfl : g' = g := hg
    obtain ⟨rfl, rfl, hm⟩ := ha
    refine ⟨by simp, fun results inp hr => ?_, trivial⟩
    have hresults : results = ((tally s g').results.drop offset).take batchSize := hr.symm
    have hpos : 0 < batchSize := by decide
    simp only
    split
    · trivial
    · rename_i aggregator hagg
      split
      · rename_i hnil
        -- an empty batch: the offset is past the end of the list
        refine after_reduce hagg fun hd => ?_
        rw [hm hd, List.take_of_length_le]
        rw [hnil] at hresults
        have := congrArg List.length hresults
        rw [List.length_take, List.length_drop, List.length_nil] at this
        omega
      · split
        · trivial
        · rename_i mapped' hmapped
          have hnext : Default reg → mapped ++ mapped' =
              ((tally s g').results.take (offset + results.length)).map
                fun r => .default (DefaultAggregator.map r) := by
            intro hd
            obtain rfl : aggregator = defaultAggregator := Option.some.inj (hagg.symm.trans hd)
            rw [mapM_default] at hmapped
            cases hmapped
            rw [hm hd, ← List.map_append, hresults, take_append_batch]
          split
          · rename_i hlt
            refine after_reduce hagg fun hd => ?_
            rw [hnext hd, List.take_of_length_le]
            have := congrArg List.length hresults
            rw [List.length_take, List.length_drop] at this
            omega
          · exact ⟨rfl, rfl, hnext⟩
  | setResult g' r =>
    obtain rfl : g' = g := hg
    refine ⟨fun r' he => ?_, fun _ inp _ => ?_, trivial⟩
    · cases he
      exact ha
    · simp [AfterAggregate, AtAggregate, Stored, exec]
  | setAggregatedAt g' r =>
    obtain rfl : g' = g := hg
    refine ⟨by simp, fun _ inp _ => ?_, trivial⟩
    unfold AtAggregate Stored at ha
    simpa [AfterAggregate, Stored, exec] using ha

/-- The triple of `finalizeGroup`. -/
theorem finalize_spec (hu : (s.groupMeta g).processorType = none) {q : FinalizePc}
    (hq : AtFinalize reg g (tally s g) (Stored s g) q) :
    FinalizeSpec reg (fun cmd => (∀ r, cmd = .resultSet g r → Full (tally s g).context ∧ Sums reg (tally s g) r) ∧
        ∀ tr, cmd = .transitionStatus g tr → Full (tally s g).context ∧ (tr.target = .completed → Stored s g))
      (fun cmd r q' => ∀ inp, (exec reg cmd inp s).2 = r →
        AtFinalize reg g (tally s g) (Stored (exec reg cmd inp s).1 g) q')
      (fun _ q' => AtFinalize reg g (tally s g) (Stored s g) q') q := by
  have hno : ∀ {cmd : Cmd}, decides cmd = false →
      (∀ r, cmd = .resultSet g r → Full (tally s g).context ∧ Sums reg (tally s g) r) ∧
      ∀ tr, cmd = .transitionStatus g tr → Full (tally s g).context ∧ (tr.target = .completed → Stored s g) := by
    intro cmd h
    refine ⟨fun r he => ?_, fun tr he => ?_⟩ <;> rw [he] at h <;> cases h
  cases q with
  | acquire g' p =>
    exact finalize_acquire (hno rfl) (fun _ _ => hno rfl) (fun _ _ _ _ _ => hq) fun _ _ _ _ _ => hq
  | metaGetAll g' token =>
    refine ⟨hno rfl, fun m => ?_, trivial⟩
    have htype : ∀ {inp : Input}, (exec reg (.metaGetAll g') inp s).2 = m → g' = g → m.processorType = none := by
      rintro inp rfl rfl
      exact hu
    simp only
    split
    · exact fun inp hr => ⟨rfl, fun hg => ⟨hq hg, htype hr hg⟩⟩
    · exact fun inp hr hg => ⟨hq hg, htype hr hg⟩
    · exact fun inp _ => trivial
  | toAggregating g' token type =>
    refine ⟨⟨by simp, fun tr he => ?_⟩, fun b => ?_, trivial⟩
    · cases he
      exact ⟨(hq rfl).1, by simp [Transition.aggregate]⟩
    · cases b with
      | false => exact fun inp _ => trivial
      | true => exact fun inp _ => ⟨rfl, hq⟩
  | aggregate g' token a =>
    obtain ⟨hga, ha⟩ := hq
    rw [FinalizeSpec, FinalizePc.view]
    have hkeep := aggregated_spec reg batchSize a
    by_cases hg : g' = g
    · obtain ⟨hF, ha⟩ := ha hg
      have hboth := (aggregate_spec (hga.trans hg) ha).and hkeep
      refine (hboth.mono (fun cmd h => ?_) (fun _ _ _ hx => hx) fun _ _ hx => hx).map (fun cmd r x hx => ?_)
        fun _ x hx => ?_
      · exact ⟨fun r he => ⟨hF, h.1 r he⟩, fun tr he => absurd he (aggregates_transition h.2)⟩
      · cases x with
        | goto a' => exact fun inp hr => ⟨Eq.trans hx.2 hga, fun _ => ⟨hF, hx.1 inp hr⟩⟩
        | ret r => exact fun inp hr _ => ⟨hF, hx.1 inp hr⟩
        | throw => exact fun inp _ => trivial
      · cases x with
        | goto a' => exact ⟨Eq.trans hx.2 hga, fun _ => ⟨hF, hx.1⟩⟩
        | ret r => exact fun _ => ⟨hF, hx.1⟩
        | throw => trivial
    · -- the aggregation of another group
      refine (hkeep.mono (fun cmd h => ?_) (fun _ _ _ hx => hx) fun _ _ hx => hx).map (fun cmd r x hx => ?_)
        fun _ x hx => ?_
      · exact ⟨fun r he => absurd (hga.symm.trans (aggregates_result h he).symm) hg,
          fun tr he => absurd he (aggregates_transition h)⟩
      · cases x with
        | goto a' => exact fun inp _ => ⟨Eq.trans hx hga, fun h => absurd h hg⟩
        | ret r => exact fun inp _ h => absurd h hg
        | throw => exact fun inp _ => trivial
      · cases x with
        | goto a' => exact ⟨Eq.trans hx hga, fun h => absurd h hg⟩
        | ret r => exact fun h => absurd h hg
        | throw => trivial
  | toCompleted g' token =>
    refine ⟨⟨by simp, fun tr he => ?_⟩, fun b inp _ => trivial, trivial⟩
    cases he
    exact ⟨(hq rfl).1, fun _ => (hq rfl).2⟩
  | release g' token result => exact finalize_release (hno rfl)

end

/-! ## Runs -/

/-- Distinct ids, processors that answer with their job's ids, no dead-letter
retry, and no deadline that passes before the ack or nack. -/
def Assumed (reg : Registry) (c : State) (l : Label) : Prop :=
  Fresh reg c l ∧ Answers Own reg c l ∧ NoRetry reg c l ∧ Unexpired reg c l

/-- The jobs of the group are enqueued before its first result is recorded. -/
def Early (reg : Registry) (g : GroupId) : State → Label → Prop :=
  onCalls reg fun c _ cmd _ => ∀ x ∈ enqueues cmd, x.2 = g → ∀ y ∈ recorded c.log, y.2 ≠ g

/-- The group of a direct call of `finalizeGroup`. -/
def called : Label → Option GroupId
  | .spawn (.finalizeGroup g) => some g
  | _ => none

/-- `finalizeGroup` is called directly only when there are as many results as jobs. -/
def Due (g : GroupId) (c : State) (l : Label) : Prop :=
  ∀ g' ∈ called l, g' = g → Full (tally c.world g).context

/-- The runs of the theorem. -/
def Admissible (reg : Registry) (g : GroupId) (c : State) (l : Label) : Prop :=
  Assumed reg c l ∧ Early reg g c l ∧ Due g c l

/-- The jobs of the group are enqueued before its first `ack.lua`. -/
def BeforeAck (reg : Registry) (g : GroupId) : State → Label → Prop :=
  onCalls reg fun c _ cmd _ => ∀ x ∈ enqueues cmd, x.2 = g → ∀ y ∈ acked c.log, y.2 ≠ g

/-- `finalizeGroup` is called by the services only. -/
def Indirect (l : Label) : Prop := called l = none

instance (reg : Registry) (c : State) (l : Label) : Decidable (Assumed reg c l) :=
  inferInstanceAs (Decidable (_ ∧ _ ∧ _ ∧ _))

instance (reg : Registry) (g : GroupId) (c : State) (l : Label) : Decidable (Early reg g c l) :=
  instDecidableOnCalls reg (fun c _ cmd _ => ∀ x ∈ enqueues cmd, x.2 = g → ∀ y ∈ recorded c.log, y.2 ≠ g) c l

instance (reg : Registry) (g : GroupId) (c : State) (l : Label) : Decidable (BeforeAck reg g c l) :=
  instDecidableOnCalls reg (fun c _ cmd _ => ∀ x ∈ enqueues cmd, x.2 = g → ∀ y ∈ acked c.log, y.2 ≠ g) c l

instance (l : Label) : Decidable (Indirect l) := inferInstanceAs (Decidable (_ = none))

instance (g : GroupId) (c : State) (l : Label) : Decidable (Due g c l) :=
  inferInstanceAs (Decidable (∀ g' ∈ called l, g' = g → _))

instance (reg : Registry) (g : GroupId) (c : State) (l : Label) : Decidable (Admissible reg g c l) :=
  inferInstanceAs (Decidable (_ ∧ _ ∧ _))

/-- The books of the group balance: results are recorded of distinct jobs, and
who is about to count a job has a record that is not counted yet. -/
structure Balanced (reg : Registry) (g : GroupId) (c : State) : Prop where
  books : Books c.world c.log
  distinct : (enqueued c.log).Nodup
  sub : (recorded c.log).Subperm (enqueued c.log)
  counting : ∀ (i : Nat) p, c.procs[i]? = some p → ∀ j ok err, p.view reg = .call (.ack j g) ok err →
    (acked c.log).countP (·.2 = g) < (recorded c.log).countP (·.2 = g)
  untyped : (c.world.groupMeta g).processorType = none

section
variable {reg : Registry} {g : GroupId} {c : State}

/-- Nobody writes the processor type of a group. -/
theorem untyped_reachable {H : State → Label → Prop} (h : ((runs reg).restrict H).Reachable c) :
    (c.world.groupMeta g).processorType = none := by
  have L : Core.Program.Ledgered (pipeline reg) H fun w _ => (w.groupMeta g).processorType = none := by
    refine ⟨?_, fun e h => by cases e <;> exact h⟩
    intro c i inp p cmd ok err hI _ _ _
    have hm := meta_step reg cmd inp c.world g
    simp only [pipeline]
    generalize (exec reg cmd inp c.world).1.groupMeta g = m' at hm ⊢
    cases hm with
    | moved => rw [(L2.setStatus_counters _ _ _).2.2.2.2.2, hI]
    | _ => exact hI
  exact (L.inductive rfl).reachable c h

theorem balanced (h : ((runs reg).restrict (Admissible reg g)).Reachable c) : Balanced reg g c := by
  have hown : ∀ c l, Admissible reg g c l → Answers Own reg c l := fun _ _ h => h.1.2.1
  have hp := punctual_of_unexpired hown (fun _ _ h => h.1.1) (fun _ _ h => h.1.2.2.1) (fun _ _ h => h.1.2.2.2) h
  have hone : ∀ j, (recorded c.log).countP (·.1 = j) ≤ 1 := fun j =>
    spent_le_one (fun _ _ h => hown _ _ h.1) (fun _ _ h => h.1.1.1) (fun _ _ h => h.1.1.2.2.1) (fun _ _ h => h.2) hp
      false j
  have hcharged := (charged_reachable hown (fun _ _ h => ownGroup_of_unexpired h.1.2.2.2) h).1
  exact
    { books := books_reachable h
      distinct := (fresh_nodup (fun _ _ h => h.1.1) h).of_map _
      sub := subperm_of_spent hone hcharged
      counting := fun i p hi j ok err hv => acked_lt_recorded hown h hi hv
      untyped := untyped_reachable h }

/-- A full tally counts as many results as jobs. -/
theorem Balanced.full_iff (h : Balanced reg g c) : Full (tally c.world g).context ↔
    0 < (enqueued c.log).countP (·.2 = g) ∧
      (recorded c.log).countP (·.2 = g) = (enqueued c.log).countP (·.2 = g) := by
  have hle := h.sub.countP_le (·.2 = g)
  unfold Full tally contextOf
  simp only
  rw [h.books.total g, h.books.results_length g]
  omega

/-- When `ack.lua` finds a group complete, its results are. -/
theorem Balanced.full_of_ack (h : Balanced reg g c) {i : Nat} {p : Proc} (hp : c.procs[i]? = some p) {j : JobId}
    {ok : Reply (.ack j g) → Proc} {err : Proc} (hv : p.view reg = .call (.ack j g) ok err)
    (hc : (c.world.groupMeta g).totalJobs.getD 0 ≤ (c.world.groupMeta g).doneJobs.getD 0 + 1) :
    Full (tally c.world g).context := by
  have hle := h.sub.countP_le (·.2 = g)
  have hdone := h.books.done g
  have hcount := h.counting i p hp j ok err hv
  rw [h.books.total g] at hc
  rw [h.full_iff]
  omega

/-- A full tally stands still. -/
theorem tally_exec {i : Nat} {cmd : Cmd} {inp : Input} {r : Reply cmd} (h : Balanced reg g c)
    (hF : Full (tally c.world g).context)
    (hsub : (recorded (⟨i, cmd, r⟩ :: c.log)).Subperm (enqueued (⟨i, cmd, r⟩ :: c.log)))
    (hearly : ∀ x ∈ enqueues cmd, x.2 = g → ∀ y ∈ recorded c.log, y.2 ≠ g) :
    tally (exec reg cmd inp c.world).1 g = tally c.world g := by
  obtain ⟨hpos, heq⟩ := h.full_iff.mp hF
  have hle := hsub.countP_le (·.2 = g)
  have hno : ∀ x ∈ enqueues cmd, x.2 ≠ g := by
    intro x hx hg
    have : (recorded c.log).countP (·.2 = g) = 0 :=
      List.countP_eq_zero.mpr fun y hy => by simpa using hearly x hx hg y hy
    omega
  have hnorec : ∀ x ∈ records cmd, x.2 ≠ g := by
    intro x hx hg
    cases cmd with
    | recordJobResult res =>
      cases hx
      have hg : res.groupId = g := hg
      simp only [recorded_cons, enqueued_cons, records, enqueues, Option.toList_some, Option.toList_none,
        List.countP_append, List.countP_singleton, List.countP_nil, hg, decide_true, if_true] at hle
      omega
    | _ => cases hx
  have hm := meta_step reg cmd inp c.world g
  unfold tally
  rcases results_exec reg cmd inp c.world g with ⟨hr, -⟩ | ⟨res, rfl, hg, -⟩
  · rw [hr]
    congr 1
    generalize (exec reg cmd inp c.world).1.groupMeta g = m' at hm ⊢
    cases hm with
    | created hg | enqueued hg => exact absurd hg (hno _ rfl)
    | recorded hg => exact absurd hg (hnorec _ rfl)
    | moved =>
      obtain ⟨h1, -, h2, h3, -⟩ := L2.setStatus_counters _ inp.now (c.world.groupMeta g)
      unfold contextOf
      rw [h1, h2, h3]
    | _ => rfl
  · exact absurd hg (hnorec _ rfl)

/-- What holds of the group's status and result. -/
structure Sealed (reg : Registry) (g : GroupId) (w : Store) : Prop where
  aggregating : (w.groupMeta g).status = some .aggregating → Full (tally w g).context
  completed : (w.groupMeta g).status = some .completed → Stored w g
  result : ∀ r, (w.groupResult g).result = some r → Full (tally w g).context ∧ Sums reg (tally w g) r

variable {s : Store} {cmd : Cmd} {inp : Input} {p : Proc} {t t' : Tally} {stored stored' : Prop}

theorem stored_exec (h : Stored s g) : Stored (exec reg cmd inp s).1 g := by
  unfold Stored at h ⊢
  by_cases hr : ∃ r, cmd = .resultSet g r
  · obtain ⟨r, rfl⟩ := hr
    simp [exec]
  · rw [result_frame fun r he => hr ⟨r, he⟩]
    exact h

/-- One call keeps the group sealed, if its caller may make it. -/
theorem Sealed.exec (h : Sealed reg g s)
    (hstill : Full (tally s g).context → tally (exec reg cmd inp s).1 g = tally s g)
    (hack : ∀ j, cmd = .ack j g → (s.groupMeta g).totalJobs.getD 0 ≤ (s.groupMeta g).doneJobs.getD 0 + 1 →
      Full (tally s g).context)
    (hp : Permitted (fun _ => True) p cmd)
    (hf : (finalizing p).isSome → (∀ r, cmd = .resultSet g r → Full (tally s g).context ∧ Sums reg (tally s g) r) ∧
      ∀ t, cmd = .transitionStatus g t → Full (tally s g).context ∧ (t.target = .completed → Stored s g)) :
    Sealed reg g (exec reg cmd inp s).1 := by
  have hfull : Full (tally s g).context → Full (tally (L3.exec reg cmd inp s).1 g).context := by
    intro hF
    rw [hstill hF]
    exact hF
  refine ⟨fun hs => ?_, fun hs => ?_, fun r hr => ?_⟩
  · rcases status_cases reg cmd inp s g with h' | ⟨req, rfl, -, -, h'⟩ | ⟨j, rfl, hc, -⟩ | ⟨t, rfl, -, h'⟩
    · exact hfull (h.aggregating (h'.symm.trans hs))
    · rw [h'] at hs
      cases hs
    · exact hfull (hack j rfl hc)
    · rw [h'] at hs
      have ht : t.target = .aggregating := Option.some.inj hs
      rcases hp.2 g t rfl with hin | ⟨hd, -⟩ | hd | hd
      · exact hfull ((hf hin).2 t rfl).1
      all_goals rw [ht] at hd; cases hd
  · rcases status_cases reg cmd inp s g with h' | ⟨req, rfl, -, -, h'⟩ | ⟨j, rfl, -, h'⟩ | ⟨t, rfl, -, h'⟩
    · exact stored_exec (h.completed (h'.symm.trans hs))
    · rw [h'] at hs
      cases hs
    · rw [h'] at hs
      cases hs
    · rw [h'] at hs
      have ht : t.target = .completed := Option.some.inj hs
      rcases hp.2 g t rfl with hin | ⟨hd, -⟩ | hd | hd
      · exact stored_exec (((hf hin).2 t rfl).2 ht)
      all_goals rw [ht] at hd; cases hd
  · have hsum : Full (tally s g).context ∧ Sums reg (tally s g) r := by
      by_cases hset : ∃ r', cmd = .resultSet g r'
      · obtain ⟨r', rfl⟩ := hset
        obtain ⟨hF, hS⟩ := (hf (hp.1 rfl)).1 r' rfl
        simp only [L3.exec, Function.update_self] at hr
        cases hr
        exact ⟨hF, hS⟩
      · rw [result_frame fun r' he => hset ⟨r', he⟩] at hr
        exact h.result r hr
    rw [hstill hsum.1]
    exact hsum

/-- What the watcher knows of the metadata it has read. -/
abbrev Minding (g : GroupId) (t : Tally) : Proc → Prop :=
  Watching (fun g' m => g' = g → (m.status = some .aggregating ∨ Full (contextOf g' m)) → Full t.context)
    (fun _ => True) fun g' => g' = g → Full t.context

theorem minding_heeds : Heeds
    (fun g' m => g' = g → (m.status = some .aggregating ∨ Full (contextOf g' m)) → Full t.context)
    (fun _ => True) fun g' => g' = g → Full t.context where
  created := fun _ _ _ _ _ _ => trivial
  running := fun _ _ hk _ hle hpos hg => hk hg (.inr ⟨hpos, hle⟩)
  aggregating := fun _ _ hk hs hg => hk hg (.inl hs)

/-- What is asserted of an activity. -/
structure Heedful (reg : Registry) (g : GroupId) (t : Tally) (stored : Prop) (p : Proc) : Prop where
  minding : Minding g t p
  finalizes : ∀ q ∈ finalizing p, AtFinalize reg g t stored q
  owes : ∀ g' ∈ owes p, g' = g → Full t.context

/-- An activity that has nothing to do with finalization. -/
theorem Heedful.outside (hw : p.service ≠ .watch) (hf : finalizing p = none) (ho : L4.owes p = none) :
    Heedful reg g t stored p := by
  refine ⟨?_, fun q hq => ?_, fun g' hg => ?_⟩
  · cases p with
    | watch p => exact absurd rfl hw
    | _ => trivial
  · rw [hf] at hq
    cases hq
  · rw [ho] at hg
    cases hg

theorem Heedful.mono (h : Heedful reg g t stored p) (ht : Full t.context → t' = t) (hst : stored → stored') :
    Heedful reg g t' stored' p := by
  have hfull : Full t.context → Full t'.context := by
    intro hF
    rw [ht hF]
    exact hF
  refine ⟨?_, fun q hq => (h.finalizes q hq).mono ht hst, fun g' hg' hg => hfull (h.owes g' hg' hg)⟩
  exact Watching.mono _ _ _ h.minding (fun _ _ hk hg hm => hfull (hk hg hm)) (fun _ _ => trivial)
    fun _ hm hg => hfull (hm hg)

/-- Whoever starts `finalizeGroup` for the group has seen its tally full. -/
theorem opens_full (h : Heedful reg g (tally s g) stored p) {r : Reply cmd} {g' : GroupId}
    (hack : ∀ j ok err, p.view reg = .call (.ack j g) ok err →
      (s.groupMeta g).totalJobs.getD 0 ≤ (s.groupMeta g).doneJobs.getD 0 + 1 → Full (tally s g).context)
    (ho : Opens p cmd r g') (hr : (exec reg cmd inp s).2 = r) (hg : g' = g) : Full (tally s g).context := by
  cases ho with
  | completed => exact h.owes g' rfl hg
  | @recovered j _ pairs =>
    subst hg
    exact hack j _ _ rfl (of_decide_eq_true hr)
  | noticed => exact h.minding.1 hg (.inl h.minding.2)
  | stale | counted => exact h.minding hg

/-- The triple of every await: what its activity has seen of the group. -/
theorem heedful_spec (hS : Sealed reg g s) (hu : (s.groupMeta g).processorType = none)
    (h : Heedful reg g (tally s g) (Stored s g) p)
    (hack : ∀ j ok err, p.view reg = .call (.ack j g) ok err →
      (s.groupMeta g).totalJobs.getD 0 ≤ (s.groupMeta g).doneJobs.getD 0 + 1 → Full (tally s g).context) :
    (p.view reg).Spec
      (fun cmd => Permitted (fun _ => True) p cmd ∧ ((finalizing p).isSome →
        (∀ r, cmd = .resultSet g r → Full (tally s g).context ∧ Sums reg (tally s g) r) ∧
        ∀ t, cmd = .transitionStatus g t → Full (tally s g).context ∧ (t.target = .completed → Stored s g)))
      (fun cmd r p' => ∀ inp, (exec reg cmd inp s).2 = r →
        Heedful reg g (tally s g) (Stored (exec reg cmd inp s).1 g) p')
      fun _ p' => Heedful reg g (tally s g) (Stored s g) p' := by
  have hw := @watching_spec reg _ _ _ minding_heeds p h.minding
  have hf := @finalizing_spec reg _ _ _ p (fun q hq => finalize_spec hu (h.finalizes q hq))
    fun cmd r g' ho inp hr hg => opens_full h hack ho hr hg
  have ho := owes_spec reg p
  cases hv : p.view reg with
  | call cmd ok err =>
    rw [hv] at hw hf ho
    refine ⟨⟨hw.1, hf.1⟩, fun r inp hr => ⟨hw.2.1 r fun y hy hg hm => ?_, fun q hq => hf.2.1 r q hq inp hr,
      fun g' hg' hg => ?_⟩, hw.2.2, hf.2.2, fun g' hg' => ?_⟩
    · -- the metadata just read is the group's
      cases cmd with
      | metaGetAll g' =>
        cases hy
        cases hr
        obtain rfl : g' = g := hg
        exact hm.elim hS.aggregating id
      | _ => cases hy
    · have hcomplete := ho.2.1 r g' hg'
      cases cmd with
      | ack j g'' =>
        cases r with
        | true =>
          cases hcomplete
          subst hg
          exact hack j ok err hv (of_decide_eq_true hr)
        | false => cases hcomplete
      | _ => cases hcomplete
    · rw [show owes err = none from ho.2.2] at hg'
      cases hg'
  | halt => trivial

theorem sealed_outline : Core.Program.Outline (pipeline reg)
    (fun c l => Admissible reg g c l ∧ Balanced reg g c ∧ ∀ c', (pipeline reg).Step c l c' → Balanced reg g c')
    (fun w _ => Sealed reg g w) fun w _ _ p => Heedful reg g (tally w g) (Stored w g) p where
  run := by
    intro c i inp p cmd ok err hI hA hp hv hstep
    obtain ⟨hH, hb, hb'⟩ := hstep
    have hack : ∀ j ok err, p.view reg = .call (.ack j g) ok err →
        (c.world.groupMeta g).totalJobs.getD 0 ≤ (c.world.groupMeta g).doneJobs.getD 0 + 1 →
        Full (tally c.world g).context := fun j ok err hv hc => hb.full_of_ack hp hv hc
    have hv : p.view reg = .call cmd ok err := hv
    have hs := heedful_spec hI hb.untyped (hA i p hp) hack
    rw [hv] at hs hack
    have hstill : Full (tally c.world g).context → tally (exec reg cmd inp c.world).1 g = tally c.world g := fun hF =>
      tally_exec (r := (exec reg cmd inp c.world).2) hb hF (hb' _ (.run hp hv)).sub (onCalls_run hH.2.1 hp hv)
    refine ⟨?_, (hs.2.1 _ inp rfl).mono hstill id, fun k q _ hk => (hA k q hk).mono hstill stored_exec⟩
    refine hI.exec hstill (fun j he hc => ?_) hs.1.1 hs.1.2
    subst he
    exact hack j ok err rfl hc
  reject := by
    intro c i p cmd ok err hI hA hp hv hstep
    obtain ⟨_, hb, _⟩ := hstep
    have hs := heedful_spec hI hb.untyped hA fun j ok err hv hc => hb.full_of_ack hp hv hc
    rw [show p.view reg = .call cmd ok err from hv] at hs
    exact hs.2.2
  dead := fun _ _ _ => .outside Service.noConfusion rfl rfl
  spawn := by
    intro c t _ hstep
    obtain ⟨hH, _⟩ := hstep
    cases t with
    | submitBulkJobs r =>
      simp only [pipeline, Task.start]
      cases r.jobs <;> exact .outside Service.noConfusion rfl rfl
    | fetchCycle =>
      simp only [pipeline, Task.start, FetchPc.loop]
      split <;> exact .outside Service.noConfusion rfl rfl
    | finalizeGroup g' =>
      refine ⟨trivial, fun q hq => ?_, fun _ h => (by cases h)⟩
      cases hq
      exact hH.2.2 g' rfl
    | watchCycle => exact ⟨trivial, fun _ h => (by cases h), fun _ h => (by cases h)⟩
    | _ => exact .outside Service.noConfusion rfl rfl
  env := by
    intro w log e hI
    cases e <;> exact ⟨⟨hI.aggregating, hI.completed, hI.result⟩, fun _ _ h => h⟩

/-- What a completed group shows. -/
structure Correct (reg : Registry) (g : GroupId) (c : State) : Prop where
  stored : (c.world.groupResult g).result.isSome = true
  once : ∀ j, (c.world.groupJobResults g).countP (·.jobId = j) = if (j, g) ∈ enqueued c.log then 1 else 0
  counters : (c.world.groupMeta g).successCount.getD 0 + (c.world.groupMeta g).failedCount.getD 0 =
    (c.world.groupMeta g).totalJobs.getD 0
  success : (c.world.groupMeta g).successCount.getD 0 = (c.world.groupJobResults g).countP (·.success)
  summary : Default reg → ∃ r, (c.world.groupResult g).result = some (.default r) ∧
    r.successCount = (c.world.groupMeta g).successCount.getD 0 ∧
    r.failedCount = (c.world.groupMeta g).failedCount.getD 0 ∧ r.totalJobs = (c.world.groupMeta g).totalJobs.getD 0 ∧
    r.failedJobIds = ((c.world.groupJobResults g).filter (!·.success)).map (·.jobId)

/-- In every run of the assumed kind in which the jobs of the group are enqueued
before its first result is recorded, and `finalizeGroup` is called directly only
when there are as many results as jobs: what a completed group shows is correct.
Calls may fail and processes may stop; then the group may not get that far. -/
theorem end_to_end (reg : Registry) (g : GroupId) (c : State)
    (h : ((runs reg).restrict (Admissible reg g)).Reachable c)
    (hs : (c.world.groupMeta g).status = some .completed) : Correct reg g c := by
  have hb := balanced h
  have h₀ : Core.Program.Holds (fun w _ => Sealed reg g w)
      (fun w _ _ p => Heedful reg g (tally w g) (Stored w g) p) initialState :=
    ⟨⟨fun hs => (by cases hs), fun hs => (by cases hs), fun _ hr => (by cases hr)⟩,
      fun i p hp => by simp [initialState] at hp⟩
  have hseal := ((sealed_outline.inductive h₀).reachable c (h.enrich_next fun _ h => balanced h)).1
  obtain ⟨r, hr⟩ := Option.isSome_iff_exists.mp (hseal.completed hs)
  obtain ⟨hF, hsum⟩ := hseal.result r hr
  obtain ⟨-, heq⟩ := hb.full_iff.mp hF
  have hcounters : (c.world.groupMeta g).successCount.getD 0 + (c.world.groupMeta g).failedCount.getD 0 =
      (c.world.groupMeta g).totalJobs.getD 0 := by
    rw [hb.books.results_length g, hb.books.total g, heq]
  refine ⟨hseal.completed hs, fun j => ?_, hcounters, hb.books.success g, fun hd => ?_⟩
  · -- as many results as jobs, each of a job of its own: the same list up to order
    have hperm : ((recorded c.log).filter (·.2 = g)).Perm ((enqueued c.log).filter (·.2 = g)) := by
      refine (hb.sub.filter _).perm_of_length_le (Nat.le_of_eq ?_)
      rw [← List.countP_eq_length_filter, ← List.countP_eq_length_filter, heq]
    have hcount : ∀ l : List (JobId × GroupId), (l.filter (·.2 = g)).countP (·.1 = j) = l.count (j, g) := by
      intro l
      rw [List.countP_filter, List.count]
      refine List.countP_congr fun x _ => ?_
      obtain ⟨k, g'⟩ := x
      simp
    calc (c.world.groupJobResults g).countP (·.jobId = j)
        = ((c.world.groupJobResults g).map fun r => (r.jobId, r.groupId)).countP (·.1 = j) := by
          rw [List.countP_map]
          rfl
      _ = ((recorded c.log).filter (·.2 = g)).countP (·.1 = j) := by rw [hb.books.results g, List.countP_reverse]
      _ = (enqueued c.log).count (j, g) := by rw [hperm.countP_eq, hcount]
      _ = if (j, g) ∈ enqueued c.log then 1 else 0 := hb.distinct.count
  · refine ⟨_, hr.trans (congrArg some (hsum hd)), rfl, rfl, rfl, ?_⟩
    simp only [DefaultAggregator.reduce, tally, List.filter_map, List.map_map]
    rfl

end

/-- One job from its submission to the COMPLETED group. -/
theorem end_to_end_one_job : ∃ c : State,
    (c.world.groupJobResults "g").map (·.jobId) = ["j"] ∧ Correct {} "g" c := by
  obtain ⟨c, hr, hP⟩ := Core.Program.exists_of_replay (S := pipeline {})
    (P := fun c : State => decide ((c.world.groupJobResults "g").map (·.jobId) = ["j"] ∧
      (c.world.groupMeta "g").status = some .completed))
    (show ((pipeline {}).replay (fun c l => decide (Admissible {} "g" c l)) initialState
      (oneJob ++ processed 2 3 ++ runsAt 2 3 12)).any _ = true by decide +kernel)
  have hr' : ((runs {}).restrict (Admissible {} "g")).Reachable c :=
    Core.LTS.Reachable.weaken (fun _ _ h => of_decide_eq_true h) hr
  obtain ⟨hj, hs⟩ := of_decide_eq_true hP
  exact ⟨c, hj, end_to_end {} "g" c hr' hs⟩

/-- Two watch cycles: the group is dispatched and running. -/
def watchedTwice (i : Nat) : List Label :=
  [.spawn .watchCycle] ++ runsAt i 4 4 ++ [.spawn .watchCycle] ++ runsAt (i + 1) 4 4

/-- A job `k` is submitted to the group after a watch cycle has found as many
results as jobs. -/
def afterTheTest : List Label :=
  oneJob ++ processed 2 3 ++ runsAt 2 3 2 ++ watchedTwice 3 ++ [.spawn .watchCycle] ++ runsAt 5 5 3 ++
    [.spawn (.submitBulkJobs ⟨"g", "SEND_EMAIL", [⟨"k", "null"⟩], 0, .normal⟩)] ++ runsAt 6 5 1 ++ runsAt 5 5 12

/-- Of two jobs the first is processed when `finalizeGroup` is called. -/
def calledEarly : List Label :=
  [.spawn (.submitBulkJobs ⟨"g", "SEND_EMAIL", [⟨"j", "null"⟩, ⟨"k", "null"⟩], 0, .normal⟩)] ++ runsAt 0 1 5 ++
    [.spawn .fetchCycle] ++ runsAt 1 2 5 ++ processed 2 3 ++ runsAt 2 3 2 ++ watchedTwice 3 ++
    [.spawn (.finalizeGroup "g")] ++ runsAt 5 5 9

/-- Either way the group is COMPLETED without a result of `k`. -/
theorem completed_too_early :
    (¬ ∀ (reg : Registry) (g : GroupId) (c : State),
      ((runs reg).restrict fun c l => Assumed reg c l ∧ Faultless l ∧ BeforeAck reg g c l ∧ Indirect l).Reachable c →
      (c.world.groupMeta g).status = some .completed → Correct reg g c) ∧
    ¬ ∀ (reg : Registry) (g : GroupId) (c : State),
      ((runs reg).restrict fun c l =>
        Assumed reg c l ∧ Faultless l ∧ BeforeAck reg g c l ∧ Early reg g c l).Reachable c →
      (c.world.groupMeta g).status = some .completed → Correct reg g c := by
  have incorrect : ∀ {c : State}, ("k", "g") ∈ enqueued c.log ∧
      (c.world.groupJobResults "g").countP (·.jobId = "k") = 0 → ¬ Correct {} "g" c := by
    rintro c ⟨hk, h0⟩ hc
    have := hc.once "k"
    rw [h0, if_pos hk] at this
    cases this
  constructor
  · intro h
    obtain ⟨c, hr, hP⟩ := Core.Program.exists_of_replay (S := pipeline {})
      (P := fun c : State => decide ((c.world.groupMeta "g").status = some .completed ∧
        ("k", "g") ∈ enqueued c.log ∧ (c.world.groupJobResults "g").countP (·.jobId = "k") = 0))
      (show ((pipeline {}).replay (fun c l => decide (Assumed {} c l ∧ Faultless l ∧ BeforeAck {} "g" c l ∧ Indirect l))
        initialState afterTheTest).any _ = true by decide +kernel)
    obtain ⟨hs, hk⟩ := of_decide_eq_true hP
    exact incorrect hk (h {} "g" c (Core.LTS.Reachable.weaken (fun _ _ h => of_decide_eq_true h) hr) hs)
  · intro h
    obtain ⟨c, hr, hP⟩ := Core.Program.exists_of_replay (S := pipeline {})
      (P := fun c : State => decide ((c.world.groupMeta "g").status = some .completed ∧
        ("k", "g") ∈ enqueued c.log ∧ (c.world.groupJobResults "g").countP (·.jobId = "k") = 0))
      (show ((pipeline {}).replay
        (fun c l => decide (Assumed {} c l ∧ Faultless l ∧ BeforeAck {} "g" c l ∧ Early {} "g" c l))
        initialState calledEarly).any _ = true by decide +kernel)
    obtain ⟨hs, hk⟩ := of_decide_eq_true hP
    exact incorrect hk (h {} "g" c (Core.LTS.Reachable.weaken (fun _ _ h => of_decide_eq_true h) hr) hs)

end NestPlayground.L5.EndToEnd
