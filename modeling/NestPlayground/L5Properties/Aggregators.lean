import NestPlayground.L5Properties.SingleFinalization

/-!
# Which aggregator makes the result

`finalizeGroup` takes the processor type of the group from its metadata, and no
call writes it there: `enqueue.lua` writes it into the job's hash only. So the
aggregation always falls back to `__default__`. `stored` is what the
aggregation that stored the group's result has read of it: in every run that
result is the default aggregator's of `stored`, and the registered aggregator is
used exactly when it makes the same of it.
-/
namespace NestPlayground.L5.Aggregators
open L1 L3 L4

/-- What an aggregation has read of its group. -/
structure Reading where
  context : AggregationContext
  results : List JobProcessorResponse

/-- `reduce` of `map` over the results. -/
def aggregate (a : Aggregator) (x : Reading) : Option AggregatedResult :=
  (x.results.mapM a.map).bind (a.reduce · x.context)

/-- What activity `i` has read of a group since its latest read of the metadata. -/
def reading (i : Nat) : Log → GroupId → Reading
  | [], g => ⟨contextOf g {}, []⟩
  | ⟨k, .metaGetAll g', m⟩ :: log, g => if k = i ∧ g' = g then ⟨contextOf g m, []⟩ else reading i log g
  | ⟨k, .resultsRange g' _ _, batch⟩ :: log, g =>
    if k = i ∧ g' = g then ⟨(reading i log g).context, (reading i log g).results ++ batch⟩ else reading i log g
  | _ :: log, g => reading i log g

/-- What was read by the activity that stored the group's result last. -/
def stored (g : GroupId) : Log → Option Reading
  | [] => none
  | ⟨i, .resultSet g' _, _⟩ :: log => if g' = g then some (reading i log g) else stored g log
  | _ :: log => stored g log

/-- The group and the processor type of an enqueued job. -/
def submits : Cmd → Option (GroupId × String)
  | .enqueue req => some (req.jobGroupId, req.jobProcessorType)
  | _ => none

/-- Every job of the group was submitted with the processor type. -/
def Submitted (p : String) (g : GroupId) (log : Log) : Prop :=
  ∀ e ∈ log, ∀ x ∈ submits e.cmd, x.1 = g → x.2 = p

instance (p : String) (g : GroupId) (log : Log) : Decidable (Submitted p g log) :=
  inferInstanceAs (Decidable (∀ e ∈ log, ∀ x ∈ submits e.cmd, x.1 = g → x.2 = p))

/-- Where `reg` has an aggregator for the type of a completed group's jobs. -/
def Concerns (reg : Registry) (c : State) (A : Aggregator) (g : GroupId) : Prop :=
  ∃ p, reg.aggregatorMap p = some A ∧ Submitted p g c.log ∧ (c.world.groupMeta g).status = some .completed

/-- The stored result of every such group is its aggregator's over the job results. -/
def Used (reg : Registry) (c : State) : Prop :=
  ∀ A g, Concerns reg c A g → ∃ r x, (c.world.groupResult g).result = some r ∧ stored g c.log = some x ∧
    x.results <+: c.world.groupJobResults g ∧ aggregate A x = some r

/-- What the aggregator registered as `__default__` makes of a reading. -/
def fallback (reg : Registry) (x : Reading) : Option AggregatedResult :=
  (reg.aggregatorMap "__default__").bind (aggregate · x)

/-- On the job results of every such group its aggregator agrees with the default one. -/
def Agrees (reg : Registry) (c : State) : Prop :=
  ∀ A g, Concerns reg c A g → ∀ x, stored g c.log = some x → aggregate A x = fallback reg x

/-! ## The aggregation -/

section
variable (reg : Registry) (read : GroupId → Reading) (results : GroupId → List JobProcessorResponse)

/-- An aggregation without a processor type has read the first results and
mapped them with the default aggregator. -/
def AtAggregate : AggregatePc → Prop
  | .metaGetAll _ type => type = none
  | .range g type context mapped offset => type = none ∧ context = (read g).context ∧
      (read g).results <+: results g ∧ offset = (read g).results.length ∧
      ∀ A, reg.aggregatorMap "__default__" = some A → (read g).results.mapM A.map = some mapped
  | .setResult g r => (read g).results <+: results g ∧ fallback reg (read g) = some r
  | .setAggregatedAt _ _ => True

def AtFinalize : FinalizePc → Prop
  | .toAggregating _ _ type => type = none
  | .aggregate _ _ a => AtAggregate reg read results a
  | _ => True

/-- The stored results are the default aggregator's. -/
def Deposits (w : Store) (log : Log) : Prop :=
  ∀ g r, (w.groupResult g).result = some r →
    ∃ x, stored g log = some x ∧ x.results <+: w.groupJobResults g ∧ fallback reg x = some r

end

section
variable {reg : Registry} {read : GroupId → Reading} {results results' : GroupId → List JobProcessorResponse}
  {g : GroupId} {i : Nat} {s : Store} {log : Log} {cmd : Cmd} {inp : Input}

theorem AtAggregate.mono {a : AggregatePc} (h : AtAggregate reg read results a)
    (hgrow : ∀ g, results g <+: results' g) : AtAggregate reg read results' a := by
  cases a with
  | range g type context mapped offset => exact ⟨h.1, h.2.1, h.2.2.1.trans (hgrow g), h.2.2.2⟩
  | setResult g r => exact ⟨h.1.trans (hgrow g), h.2⟩
  | metaGetAll | setAggregatedAt => exact h

theorem AtFinalize.mono {q : FinalizePc} (h : AtFinalize reg read results q)
    (hgrow : ∀ g, results g <+: results' g) : AtFinalize reg read results' q := by
  cases q with
  | aggregate => exact AtAggregate.mono h hgrow
  | toAggregating => exact h
  | _ => trivial

/-- An activity reads for itself. -/
theorem reading_other {k : Nat} (h : k ≠ i) (r : Reply cmd) : reading i (⟨k, cmd, r⟩ :: log) g = reading i log g := by
  cases cmd with
  | metaGetAll | resultsRange => exact if_neg fun hk => h hk.1
  | _ => rfl

/-- The job results only grow. -/
theorem results_grow (reg : Registry) (cmd : Cmd) (inp : Input) (s : Store) (g : GroupId) :
    s.groupJobResults g <+: (exec reg cmd inp s).1.groupJobResults g := by
  rcases results_exec reg cmd inp s g with ⟨h, -⟩ | ⟨r, rfl, rfl, h⟩
  · exact h.symm ▸ List.prefix_refl _
  · rw [h]
    exact List.prefix_append _ _

/-- The end of the loop: what was read is reduced by the default aggregator. -/
theorem at_reduce {aggregator : Aggregator} {context : AggregationContext} {mapped : List Mapped}
    (ha : reg.aggregatorMap "__default__" = some aggregator) (hc : context = (read g).context)
    (hp : (read g).results <+: results g) (hm : (read g).results.mapM aggregator.map = some mapped) :
    (AggregatePc.reduce g aggregator context mapped).All (AtAggregate reg read results) := by
  subst hc
  unfold AggregatePc.reduce
  split
  · trivial
  · rename_i r hr
    refine ⟨hp, ?_⟩
    rw [fallback, ha, Option.bind_some, aggregate, hm, Option.bind_some, hr]

/-- The triple of `aggregate` for a group without a processor type. -/
theorem aggregate_spec {a : AggregatePc} (h : AtAggregate reg (reading i log) s.groupJobResults a) :
    (a.view reg batchSize).Spec
      (fun cmd => ∀ g r, cmd = .resultSet g r →
        (reading i log g).results <+: s.groupJobResults g ∧ fallback reg (reading i log g) = some r)
      (fun cmd r x => ∀ inp, (exec reg cmd inp s).2 = r →
        x.All (AtAggregate reg (reading i (⟨i, cmd, r⟩ :: log)) s.groupJobResults))
      fun _ x => x.All (AtAggregate reg (reading i log) s.groupJobResults) := by
  cases a with
  | metaGetAll g type =>
    refine ⟨by simp, fun m inp _ => ?_, trivial⟩
    simp only
    split
    · trivial
    · refine ⟨h, ?_⟩
      simp only [reading, and_self, if_true]
      exact ⟨trivial, List.nil_prefix, rfl, fun A _ => rfl⟩
  | range g type context mapped offset =>
    obtain ⟨rfl, rfl, hp, rfl, hm⟩ := h
    refine ⟨by simp, fun batch inp hr => ?_, trivial⟩
    have hread : reading i (⟨i, .resultsRange g (reading i log g).results.length batchSize, batch⟩ :: log) g =
        ⟨(reading i log g).context, (reading i log g).results ++ batch⟩ := by
      simp only [reading, and_self, if_true]
    have hp' : (reading i (⟨i, .resultsRange g (reading i log g).results.length batchSize, batch⟩ :: log) g).results
        <+: s.groupJobResults g := by
      rw [hread, ← hr]
      exact L2.prefix_append_batch hp batchSize
    simp only
    split
    · trivial
    · rename_i aggregator hagg
      have hagg : reg.aggregatorMap "__default__" = some aggregator := hagg
      split
      · rename_i hnil
        refine at_reduce hagg (by rw [hread]) hp' ?_
        rw [hread, hnil, List.append_nil]
        exact hm aggregator hagg
      · split
        · trivial
        · rename_i mapped' hmapped
          have hm' : (reading i (⟨i, .resultsRange g (reading i log g).results.length batchSize, batch⟩ ::
              log) g).results.mapM aggregator.map = some (mapped ++ mapped') := by
            rw [hread, List.mapM_append, hm aggregator hagg, hmapped]
            rfl
          split
          · exact at_reduce hagg (by rw [hread]) hp' hm'
          · refine ⟨rfl, by rw [hread], hp', by rw [hread, List.length_append], fun A hA => ?_⟩
            cases hagg.symm.trans hA
            exact hm'
  | setResult g r =>
    refine ⟨fun g' r' he => ?_, fun _ inp _ => trivial, trivial⟩
    cases he
    exact h
  | setAggregatedAt g r => exact ⟨by simp, fun _ inp _ => trivial, trivial⟩

/-- The triple of `finalizeGroup`. -/
theorem finalize_spec (hu : ∀ g, (s.groupMeta g).processorType = none) {q : FinalizePc}
    (h : AtFinalize reg (reading i log) s.groupJobResults q) :
    FinalizeSpec reg
      (fun cmd => ∀ g r, cmd = .resultSet g r →
        (reading i log g).results <+: s.groupJobResults g ∧ fallback reg (reading i log g) = some r)
      (fun cmd r q' => ∀ inp, (exec reg cmd inp s).2 = r →
        AtFinalize reg (reading i (⟨i, cmd, r⟩ :: log)) s.groupJobResults q')
      (fun _ q' => AtFinalize reg (reading i log) s.groupJobResults q') q := by
  have hno : ∀ {cmd : Cmd}, decides cmd = false → ∀ g r, cmd = .resultSet g r →
      (reading i log g).results <+: s.groupJobResults g ∧ fallback reg (reading i log g) = some r := by
    intro cmd h g r he
    rw [he] at h
    cases h
  cases q with
  | acquire g p =>
    exact finalize_acquire (hno rfl) (fun _ _ => hno rfl) (fun _ _ _ _ _ => trivial) fun _ _ _ _ _ => trivial
  | metaGetAll g token =>
    refine ⟨hno rfl, fun m => ?_, trivial⟩
    have htype : ∀ {inp : Input}, (exec reg (.metaGetAll g) inp s).2 = m → m.processorType = none := by
      rintro inp rfl
      exact hu g
    simp only
    split
    · exact fun inp hr => htype hr
    · exact fun inp hr => htype hr
    · exact fun inp _ => trivial
  | toAggregating g token type =>
    refine ⟨by simp, fun b => ?_, trivial⟩
    cases b with
    | false => exact fun inp _ => trivial
    | true => exact fun inp _ => h
  | aggregate g token a =>
    rw [FinalizeSpec, FinalizePc.view]
    refine (aggregate_spec h).map (fun cmd r x hx => ?_) fun _ x hx => ?_
    · cases x with
      | goto a' => exact fun inp hr => hx inp hr
      | ret | throw => exact fun inp _ => trivial
    · cases x with
      | goto a' => exact hx
      | ret | throw => trivial
  | toCompleted g token => exact ⟨by simp, fun b inp _ => trivial, trivial⟩
  | release g token result => exact finalize_release (hno rfl)

/-- One call keeps the deposits, if its caller may make it. -/
theorem Deposits.exec (h : Deposits reg s log) (hset : ∀ g r, cmd = .resultSet g r →
      (reading i log g).results <+: s.groupJobResults g ∧ fallback reg (reading i log g) = some r) :
    Deposits reg (exec reg cmd inp s).1 (⟨i, cmd, (L3.exec reg cmd inp s).2⟩ :: log) := by
  intro g r hr
  by_cases hc : ∃ r', cmd = .resultSet g r'
  · obtain ⟨r', rfl⟩ := hc
    simp only [L3.exec, Function.update_self, Option.some.injEq] at hr
    subst hr
    refine ⟨reading i log g, ?_, hset g r' rfl⟩
    simp only [stored, if_true]
  · rw [result_frame fun r' he => hc ⟨r', he⟩] at hr
    obtain ⟨x, hx, hp, hf⟩ := h g r hr
    refine ⟨x, ?_, hp.trans (results_grow reg cmd inp s g), hf⟩
    cases cmd with
    | resultSet g' r' => exact (if_neg fun he => hc ⟨r', by rw [he]⟩).trans hx
    | _ => exact hx

end

section
variable {reg : Registry} {g : GroupId} {i : Nat} {s : Store} {log : Log} {c : State}

/-- What is asserted of an activity. -/
def Reads (reg : Registry) (read : GroupId → Reading) (results : GroupId → List JobProcessorResponse) (p : Proc) :
    Prop :=
  SingleFinalization.Minding p ∧ ∀ q ∈ finalizing p, AtFinalize reg read results q

/-- The triple of every await. -/
theorem reads_spec (hu : ∀ g, (s.groupMeta g).processorType = none) {p : Proc}
    (h : Reads reg (reading i log) s.groupJobResults p) :
    (p.view reg).Spec
      (fun cmd => ∀ g r, cmd = .resultSet g r →
        (reading i log g).results <+: s.groupJobResults g ∧ fallback reg (reading i log g) = some r)
      (fun cmd r p' => ∀ inp, (exec reg cmd inp s).2 = r →
        Reads reg (reading i (⟨i, cmd, r⟩ :: log)) s.groupJobResults p')
      fun _ p' => Reads reg (reading i log) s.groupJobResults p' := by
  have hw := @watching_spec reg _ _ _ SingleFinalization.minding_heeds p h.1
  have hf := @finalizing_spec reg _ _ _ p (fun q hq => finalize_spec hu (h.2 q hq)) fun cmd r g _ inp _ => trivial
  refine (hw.and hf).mono (fun cmd hc g r he => ?_) (fun cmd r p' hp inp hr => ?_) fun _ p' hp => hp
  · refine hc.2 (hc.1.1 ?_) g r he
    rw [he]
    rfl
  · exact ⟨hp.1 fun _ _ => trivial, fun q hq => hp.2 q hq inp hr⟩

theorem deposits_outline (reg : Registry) : Core.Program.Outline (pipeline reg)
    (fun c _ => ∀ g, (c.world.groupMeta g).processorType = none) (fun w log => Deposits reg w log)
    fun w log i p => Reads reg (reading i log) w.groupJobResults p where
  run := by
    intro c i inp p cmd ok err hI hA hp hv hu
    have hs := reads_spec hu (hA i p hp)
    rw [show p.view reg = .call cmd ok err from hv] at hs
    have hgrow := results_grow reg cmd inp c.world
    refine ⟨hI.exec hs.1, ?_, fun k q hk hq => ?_⟩
    · obtain ⟨hw, hf⟩ := hs.2.1 _ inp rfl
      exact ⟨hw, fun q hq => (hf q hq).mono hgrow⟩
    · obtain ⟨hw, hf⟩ := hA k q hq
      have hread : reading k (⟨i, cmd, (exec reg cmd inp c.world).2⟩ :: c.log) = reading k c.log :=
        funext fun g => reading_other hk.symm _
      exact ⟨hw, fun q' hq' => hread ▸ (hf q' hq').mono hgrow⟩
  reject := by
    intro c i p cmd ok err hI hA hp hv hu
    have hs := reads_spec hu hA
    rw [show p.view reg = .call cmd ok err from hv] at hs
    exact hs.2.2
  dead := fun _ _ _ => ⟨trivial, forall_finalizing rfl⟩
  spawn := by
    intro c t _ _
    exact ⟨watching_of_started _ _ _ (t.started reg), finalizing_of_started (fun _ => trivial) (t.started reg)⟩
  env := by
    intro w log e hI
    cases e <;> exact ⟨hI, fun _ _ h => h⟩

/-- In every run what is stored is the default aggregator's of what was read. -/
theorem deposits_reachable (h : (runs reg).Reachable c) : Deposits reg c.world c.log := by
  have h₀ : Core.Program.Holds (fun w log => Deposits reg w log)
      (fun w log i p => Reads reg (reading i log) w.groupJobResults p) initialState :=
    ⟨fun g r hr => (by cases hr), fun i p hp => by simp [initialState] at hp⟩
  have huntyped := Core.LTS.Reachable.enrich (fun c hc g => EndToEnd.untyped_reachable (g := g) hc)
    (h.of_forall fun _ _ => trivial)
  exact (((deposits_outline reg).inductive h₀).reachable c (huntyped.weaken fun _ _ h => h.2)).1

theorem stored_step {c' : State} {l : Label} (hs : (pipeline reg).Step c l c') (h : EndToEnd.Stored c.world g) :
    EndToEnd.Stored c'.world g := by
  cases hs with
  | run => exact EndToEnd.stored_exec h
  | @env e => cases e <;> exact h
  | reject | stop | spawn => exact h

/-- A completed group has a result. -/
theorem completed_stored (h : (runs reg).Reachable c) (hs : (c.world.groupMeta g).status = some .completed) :
    EndToEnd.Stored c.world g := by
  induction h with
  | init hc =>
    cases hc
    cases hs
  | @step c l c' hr hst ih =>
    by_cases hc : (c.world.groupMeta g).status = some .completed
    · exact stored_step hst (ih hc)
    · exact stored_step hst
        (SingleFinalization.stored_step (hr.of_forall (H := fun _ _ => True) fun _ _ => trivial) hst hc hs)

/-- In every reachable state: the results of the completed groups are those of
the aggregators registered for their jobs' type exactly when these agree with
the default aggregator on the job results. -/
theorem registered_aggregators_used (reg : Registry) (c : State) (h : (runs reg).Reachable c) :
    Used reg c ↔ Agrees reg c := by
  have hd := deposits_reachable h
  constructor
  · intro hu A g hA x hx
    obtain ⟨r, x', hr, hx', -, ha⟩ := hu A g hA
    obtain ⟨x'', hx'', -, hf⟩ := hd g r hr
    cases hx.symm.trans hx'
    cases hx.symm.trans hx''
    rw [ha, hf]
  · intro hagree A g hA
    obtain ⟨p, -, -, hs⟩ := id hA
    obtain ⟨r, hr⟩ := Option.isSome_iff_exists.mp (completed_stored h hs)
    obtain ⟨x, hx, hp, hf⟩ := hd g r hr
    exact ⟨r, x, hr, hx, hp, (hagree A g hA x hx).trans hf⟩

end

/-- The registry with one more aggregator, for SEND_EMAIL. -/
def withEmails (map : JobProcessorResponse → Option Mapped)
    (reduce : List Mapped → AggregationContext → Option AggregatedResult) : Registry :=
  { aggregators := [defaultAggregator, ⟨"SEND_EMAIL", map, reduce⟩] }

/-- An aggregator that does what the default one does. -/
theorem registered_aggregators_used_default : ∃ c : State,
    (∃ A, A.type = "SEND_EMAIL" ∧ Concerns (withEmails defaultAggregator.map defaultAggregator.reduce) c A "g") ∧
      Used (withEmails defaultAggregator.map defaultAggregator.reduce) c := by
  obtain ⟨c, hr, hP⟩ := Core.Program.exists_of_replay
    (S := pipeline (withEmails defaultAggregator.map defaultAggregator.reduce))
    (P := fun c : State => decide ((c.world.groupMeta "g").status = some .completed ∧
      Submitted "SEND_EMAIL" "g" c.log))
    (show ((pipeline (withEmails defaultAggregator.map defaultAggregator.reduce)).replay (fun _ _ => true)
      initialState (oneJob ++ processed 2 3 ++ runsAt 2 3 13)).any _ = true by decide +kernel)
  obtain ⟨hs, hsub⟩ := of_decide_eq_true hP
  refine ⟨c, ⟨_, rfl, "SEND_EMAIL", rfl, hsub, hs⟩,
    (registered_aggregators_used _ c hr.unrestrict).mpr fun A g hA x _ => ?_⟩
  obtain ⟨p, hp, -, -⟩ := hA
  have hsame : A.map = defaultAggregator.map ∧ A.reduce = defaultAggregator.reduce := by
    have hmem := List.mem_reverse.mp (List.mem_of_find?_eq_some hp)
    simp only [withEmails, List.mem_cons, List.not_mem_nil, or_false] at hmem
    rcases hmem with rfl | rfl <;> exact ⟨rfl, rfl⟩
  have hdefault : (withEmails defaultAggregator.map defaultAggregator.reduce).aggregatorMap "__default__" =
      some defaultAggregator := rfl
  rw [fallback, hdefault, Option.bind_some, aggregate, aggregate, hsame.1, hsame.2]

/-- The aggregator of emails is passed over. -/
theorem registered_aggregator_ignored :
    ¬ ∀ (reg : Registry) (c : State), (runs reg).Reachable c → Used reg c := by
  intro h
  obtain ⟨c, hr, hP⟩ := Core.Program.exists_of_replay
    (S := pipeline (withEmails (fun _ => some (.custom "mail")) fun _ _ => some (.custom "mails")))
    (P := fun c : State => decide ((c.world.groupMeta "g").status = some .completed ∧
      (c.world.groupResult "g").result ≠ some (.custom "mails") ∧ Submitted "SEND_EMAIL" "g" c.log))
    (show ((pipeline (withEmails (fun _ => some (.custom "mail")) fun _ _ => some (.custom "mails"))).replay
      (fun _ _ => true) initialState (oneJob ++ processed 2 3 ++ runsAt 2 3 13)).any _ = true by decide +kernel)
  obtain ⟨hs, hne, hsub⟩ := of_decide_eq_true hP
  obtain ⟨r, x, hresult, -, -, ha⟩ := h _ c hr.unrestrict
    ⟨"SEND_EMAIL", fun _ => some (.custom "mail"), fun _ _ => some (.custom "mails")⟩ "g"
    ⟨"SEND_EMAIL", rfl, hsub, hs⟩
  obtain ⟨mapped, -, hreduce⟩ := Option.bind_eq_some_iff.mp ha
  cases hreduce
  exact hne hresult

end NestPlayground.L5.Aggregators
