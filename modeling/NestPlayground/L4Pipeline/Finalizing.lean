import NestPlayground.L4Pipeline.Frames

/-!
# Who finalizes a group

`finalizeGroup` is awaited by a worker whose ack found the group complete, by
orphan recovery in the same way, and by the watcher in three places; anybody
may also call it directly. `finalizing p` is the call the activity `p` is in,
`Opens` are the steps that start one, and `finalizing_spec` makes a triple of
`finalizeGroup` one of the whole activity.

The watcher acts on metadata it has read before. `Watching` says what that read
allowed: `knows` of the metadata it still holds, `mayDispatch` and `mayFinalize`
of the groups it is about to move on (`watching_spec`).
-/
namespace NestPlayground.L4
open L1 L3

/-- The call of `finalizeGroup` an activity is in. -/
def finalizing : Proc → Option FinalizePc
  | .tick (.complete (.finalize q)) => some q
  | .recovery (.finalize q _) => some q
  | .watch (.finalize q _) => some q
  | .watch (.lockedFinalize _ _ q _) => some q
  | .finalize q => some q
  | _ => none

theorem forall_finalizing {p : Proc} (h : finalizing p = none) {P : FinalizePc → Prop} : ∀ q ∈ finalizing p, P q := by
  intro q hq
  rw [h] at hq
  cases hq

theorem finalizing_of_started {p : Proc} {P : FinalizePc → Prop} (hP : ∀ g, P (.start g)) (h : Started p) :
    ∀ q ∈ finalizing p, P q := by
  cases h with
  | finalize g =>
    intro q hq
    cases hq
    exact hP g
  | _ => exact forall_finalizing rfl

/-- The steps after which `finalizeGroup` is called. -/
inductive Opens : Proc → (cmd : Cmd) → Reply cmd → GroupId → Prop where
  | completed {g r} : Opens (.tick (.complete (.resetGroupStats g))) (.congestionDelete g) r g
  | recovered {j g pairs} : Opens (.recovery (.ack j g pairs)) (.ack j g) true g
  | noticed {g m rest now} : Opens (.watch (.checkTimeout g m .aggregating rest)) .dateNow now g
  | stale {g startAt rest now} : Opens (.watch (.staleClock g startAt rest)) .dateNow now g
  | counted {g token rest m} : Opens (.watch (.lockedMeta g token rest)) (.metaGetAll g) m g

section
variable {reg : Registry} {pre : Cmd → Prop} {post : (cmd : Cmd) → Reply cmd → FinalizePc → Prop}
  {exc : Cmd → FinalizePc → Prop}

/-- The triple of `finalizeGroup`. -/
abbrev FinalizeSpec (reg : Registry) (pre : Cmd → Prop) (post : (cmd : Cmd) → Reply cmd → FinalizePc → Prop)
    (exc : Cmd → FinalizePc → Prop) (q : FinalizePc) : Prop :=
  (q.view reg).Spec pre (fun cmd r x => x.All (post cmd r)) fun cmd x => x.All (exc cmd)

/-- The activity is outside `finalizeGroup` and stays there. -/
def Quiet (a : Core.Action Reply Proc) : Prop :=
  a.Spec (fun _ => True) (fun _ _ p' => finalizing p' = none) fun _ p' => finalizing p' = none

theorem Quiet.spec {p : Proc} (hp : finalizing p = none) {a : Core.Action Reply Proc} (h : Quiet a) :
    a.Spec (fun cmd => (finalizing p).isSome → pre cmd) (fun cmd r p' => ∀ q' ∈ finalizing p', post cmd r q')
      fun cmd p' => ∀ q' ∈ finalizing p', exc cmd q' := by
  cases a with
  | call c ok err =>
    refine ⟨fun h => ?_, fun r => forall_finalizing (h.2.1 r), forall_finalizing h.2.2⟩
    rw [hp] at h
    cases h
  | halt => trivial

/-- Nothing an await of this function leads to is inside `finalizeGroup`. -/
theorem quiet_map {A : Type} (a : Core.Action Reply A) {f : A → Proc} (hf : ∀ x, finalizing (f x) = none) :
    Quiet (a.map f) := Core.Action.map_all a hf

/-- Inside `finalizeGroup`. -/
theorem finalizing_inside {p : Proc} {q : FinalizePc} (hq : FinalizeSpec reg pre post exc q)
    {f : Core.Next FinalizePc Bool → Proc} (hgoto : ∀ q', finalizing (f (.goto q')) = some q')
    (hret : ∀ b, finalizing (f (.ret b)) = none) (hthrow : finalizing (f .throw) = none) :
    ((q.view reg).map f).Spec (fun cmd => (finalizing p).isSome → pre cmd)
      (fun cmd r p' => ∀ q' ∈ finalizing p', post cmd r q') fun cmd p' => ∀ q' ∈ finalizing p', exc cmd q' := by
  have hall : ∀ {P : FinalizePc → Prop} (x : Core.Next FinalizePc Bool), x.All P → ∀ q' ∈ finalizing (f x), P q' := by
    intro P x hx q' hq'
    cases x with
    | goto q =>
      rw [hgoto q] at hq'
      cases hq'
      exact hx
    | ret b =>
      rw [hret b] at hq'
      cases hq'
    | throw =>
      rw [hthrow] at hq'
      cases hq'
  cases hv : q.view reg with
  | call c ok err =>
    unfold FinalizeSpec at hq
    rw [hv] at hq
    exact ⟨fun _ => hq.1, fun r => hall _ (hq.2.1 r), hall _ hq.2.2⟩
  | halt => trivial

/-- A tick that has not recorded a result, or is over. -/
def unrecorded : Proc → Bool
  | .tick (.complete (.record _)) => true
  | .tick (.complete _) => false
  | .tick _ => true
  | .done => true
  | _ => false

theorem finalizing_of_unrecorded {p : Proc} (h : unrecorded p = true) : finalizing p = none := by
  cases p with
  | tick p =>
    cases p with
    | complete q => cases q <;> first | rfl | cases h
    | _ => rfl
  | done => rfl
  | _ => cases h

theorem unrecorded_tick {p : TickPc} (hp : ∀ q, p ≠ .complete q) :
    ((Proc.tick p).view reg).Spec (fun _ => True) (fun _ _ p' => unrecorded p' = true)
      fun _ p' => unrecorded p' = true := by
  cases p with
  | dequeue p =>
    cases p with
    | length w i =>
      refine ⟨trivial, fun n => ?_, rfl⟩
      by_cases hn : n = 0
      · simp only [if_pos hn]
        rfl
      · simp only [if_neg hn]
        rfl
    | peek w i =>
      refine ⟨trivial, fun r => ?_, rfl⟩
      cases r <;> rfl
    | peekRetryCount | peekGroupId => exact ⟨trivial, fun _ => rfl, rfl⟩
    | script w i n g =>
      refine ⟨trivial, fun r => ?_, rfl⟩
      cases r <;> rfl
  | loadJob j =>
    refine ⟨trivial, fun hash => ?_, rfl⟩
    simp only [TickPc.loaded]
    split
    · rfl
    · split <;> rfl
  | startTime j job =>
    refine ⟨trivial, fun r => ?_, rfl⟩
    simp only
    split <;> rfl
  | process j job t =>
    refine ⟨trivial, fun r => ?_, rfl⟩
    cases r with
    | none => rfl
    | some outcome => cases outcome <;> rfl
  | endTime j job t r =>
    refine ⟨trivial, fun r => ?_, rfl⟩
    simp only [TickPc.settle]
    split
    · rfl
    · split
      · split <;> rfl
      · rfl
  | complete q => exact absurd rfl (hp q)
  | failed p =>
    rw [Proc.view, TickPc.view, Core.Action.map_map]
    refine Core.Action.map_all _ fun x => ?_
    cases x <;> rfl
  | cleanUp | heartbeat | ack | nack | nackCaught => exact ⟨trivial, fun _ => rfl, rfl⟩

theorem finalizing_tick {p : TickPc} (hq : ∀ q ∈ finalizing (.tick p), FinalizeSpec reg pre post exc q)
    (hopen : ∀ cmd r g, Opens (.tick p) cmd r g → post cmd r (.start g)) :
    ((Proc.tick p).view reg).Spec (fun cmd => (finalizing (.tick p)).isSome → pre cmd)
      (fun cmd r p' => ∀ q' ∈ finalizing p', post cmd r q') fun cmd p' => ∀ q' ∈ finalizing p', exc cmd q' := by
  by_cases hp : ∀ q, p ≠ .complete q
  · have hnone : finalizing (.tick p) = none := by
      cases p with
      | complete q => exact absurd rfl (hp q)
      | _ => rfl
    refine Quiet.spec hnone ((unrecorded_tick hp).mono (fun _ _ => trivial) (fun _ _ _ h => ?_) fun _ _ h => ?_)
    · exact finalizing_of_unrecorded h
    · exact finalizing_of_unrecorded h
  · push Not at hp
    obtain ⟨c, rfl⟩ := hp
    cases c with
    | record r => exact Quiet.spec rfl ⟨trivial, fun _ => rfl, rfl⟩
    | ack j g =>
      refine Quiet.spec rfl ⟨trivial, fun b => ?_, rfl⟩
      cases b <;> rfl
    | resetGroupStats g =>
      refine ⟨fun h => (by cases h), fun r q' hq' => ?_, fun q' hq' => (by cases hq')⟩
      cases hq'
      exact hopen _ r g .completed
    | finalize q =>
      rw [Proc.view, TickPc.view, CompletePc.view, Core.Action.map_map, Core.Action.map_map]
      exact finalizing_inside (hq q rfl) (fun _ => rfl) (fun _ => rfl) rfl

theorem finalizing_recovery {p : RecoveryPc} (hq : ∀ q ∈ finalizing (.recovery p), FinalizeSpec reg pre post exc q)
    (hopen : ∀ cmd r g, Opens (.recovery p) cmd r g → post cmd r (.start g)) :
    ((Proc.recovery p).view reg).Spec (fun cmd => (finalizing (.recovery p)).isSome → pre cmd)
      (fun cmd r p' => ∀ q' ∈ finalizing p', post cmd r q') fun cmd p' => ∀ q' ∈ finalizing p', exc cmd q' := by
  have hloop : ∀ pairs, finalizing (resume .recovery (RecoveryPc.loop pairs)) = none := by
    intro pairs
    cases pairs <;> rfl
  cases p with
  | script => exact Quiet.spec rfl ⟨trivial, fun r => hloop _, rfl⟩
  | record j g pairs => exact Quiet.spec rfl ⟨trivial, fun r => rfl, rfl⟩
  | ack j g pairs =>
    refine ⟨fun h => (by cases h), fun b q' hq' => ?_, fun q' hq' => (by cases hq')⟩
    cases b with
    | true =>
      cases hq'
      exact hopen (.ack j g) true g .recovered
    | false =>
      simp only [Bool.false_eq_true, if_false] at hq'
      rw [hloop] at hq'
      cases hq'
  | finalize q pairs =>
    rw [Proc.view, RecoveryPc.view, Core.Action.map_map]
    exact finalizing_inside (hq q rfl) (fun _ => rfl) (fun _ => hloop _) rfl

theorem quiet_next (rest : List GroupId) : finalizing (resume .watch (WatchPc.next rest)) = none := by
  cases rest <;> rfl

theorem quiet_force (g : GroupId) (status target : GroupStatus) (rest : List GroupId) :
    finalizing (resume .watch (WatchPc.forceTransition g status target rest)) = none := by
  unfold WatchPc.forceTransition
  split
  · exact quiet_next rest
  · split
    · split <;> rfl
    · exact quiet_next rest

theorem quiet_tryTransition (g : GroupId) (source target : GroupStatus) (rest : List GroupId) :
    finalizing (resume .watch (WatchPc.tryTransition g source target rest)) = none := by
  unfold WatchPc.tryTransition
  split
  · rfl
  · exact quiet_next rest

/-- The branch on the status calls `finalizeGroup` for AGGREGATING only. -/
theorem finalizing_check {g : GroupId} {m : GroupMeta} {status : GroupStatus} {rest : List GroupId} {q' : FinalizePc}
    (h : q' ∈ finalizing (resume .watch (WatchPc.check g m status rest))) :
    status = .aggregating ∧ q' = .start g := by
  have hno : ∀ {p : Proc}, finalizing p = none → q' ∉ finalizing p := by
    intro p hp hq
    rw [hp] at hq
    cases hq
  cases status with
  | aggregating =>
    simp only [WatchPc.check] at h
    split at h
    · cases h
      exact ⟨rfl, rfl⟩
    · exact absurd h (hno rfl)
  | created | dispatched =>
    simp only [WatchPc.check] at h
    split at h
    · exact absurd h (hno (quiet_tryTransition _ _ _ _))
    · exact absurd h (hno (quiet_next _))
  | running =>
    simp only [WatchPc.check] at h
    split at h
    · exact absurd h (hno rfl)
    · exact absurd h (hno (quiet_next _))
  | completed | failed => exact absurd h (hno (quiet_next _))

theorem finalizing_watch {p : WatchPc} (hq : ∀ q ∈ finalizing (.watch p), FinalizeSpec reg pre post exc q)
    (hopen : ∀ cmd r g, Opens (.watch p) cmd r g → post cmd r (.start g)) :
    ((Proc.watch p).view reg).Spec (fun cmd => (finalizing (.watch p)).isSome → pre cmd)
      (fun cmd r p' => ∀ q' ∈ finalizing p', post cmd r q') fun cmd p' => ∀ q' ∈ finalizing p', exc cmd q' := by
  cases p with
  | members => exact Quiet.spec rfl ⟨trivial, quiet_next, rfl⟩
  | checkGroup g rest =>
    refine Quiet.spec rfl ⟨trivial, fun m => ?_, rfl⟩
    simp only
    split
    · exact quiet_next rest
    · split <;> rfl
  | removeTerminal g rest => exact Quiet.spec rfl ⟨trivial, fun _ => quiet_next rest, rfl⟩
  | checkTimeout g m status rest =>
    refine ⟨fun h => (by cases h), fun now q' hq' => ?_, fun q' hq' => (by cases hq')⟩
    simp only at hq'
    split at hq'
    · rw [quiet_force] at hq'
      cases hq'
    · obtain ⟨rfl, rfl⟩ := finalizing_check hq'
      exact hopen .dateNow now g .noticed
  | transition g t rest => exact Quiet.spec rfl ⟨trivial, fun _ => quiet_next rest, rfl⟩
  | staleClock g startAt rest =>
    refine ⟨fun h => (by cases h), fun now q' hq' => ?_, fun q' hq' => (by cases hq')⟩
    simp only at hq'
    split at hq'
    · cases hq'
      exact hopen .dateNow now g .stale
    · rw [quiet_next] at hq'
      cases hq'
  | finalize q rest =>
    rw [Proc.view, WatchPc.view, Core.Action.map_map]
    exact finalizing_inside (hq q rfl) (fun _ => rfl) (fun _ => quiet_next rest) rfl
  | lockTransition g p rest =>
    rw [Proc.view, WatchPc.view, Core.Action.map_map]
    refine (quiet_map _ fun x => ?_).spec rfl
    cases x with
    | goto p => rfl
    | ret token =>
      cases token with
      | none => exact quiet_next rest
      | some token => rfl
    | throw => rfl
  | lockedMeta g token rest =>
    refine ⟨fun h => (by cases h), fun m q' hq' => ?_, fun q' hq' => (by cases hq')⟩
    simp only at hq'
    split at hq'
    · cases hq'
      exact hopen (.metaGetAll g) m g .counted
    · cases hq'
  | lockedFinalize g token q rest =>
    rw [Proc.view, WatchPc.view, Core.Action.map_map]
    exact finalizing_inside (hq q rfl) (fun _ => rfl) (fun _ => rfl) rfl
  | unlockTransition g token threw rest =>
    refine Quiet.spec rfl ⟨trivial, fun _ => ?_, rfl⟩
    cases threw
    · exact quiet_next rest
    · rfl
  | force g t rest => exact Quiet.spec rfl ⟨trivial, fun _ => quiet_next rest, rfl⟩
  | lockForce g target p rest =>
    rw [Proc.view, WatchPc.view, Core.Action.map_map]
    refine (quiet_map _ fun x => ?_).spec rfl
    cases x with
    | goto p => rfl
    | ret token =>
      cases token with
      | none => exact quiet_next rest
      | some token => rfl
    | throw => rfl
  | forceMeta g target token rest =>
    refine Quiet.spec rfl ⟨trivial, fun m => ?_, rfl⟩
    simp only
    split
    · rfl
    · split
      · rfl
      · split <;> rfl
  | lockedForce g t token rest => exact Quiet.spec rfl ⟨trivial, fun _ => rfl, rfl⟩
  | unlockForce g token threw rest =>
    refine Quiet.spec rfl ⟨trivial, fun _ => ?_, rfl⟩
    cases threw
    · exact quiet_next rest
    · rfl

/-- A triple of `finalizeGroup` that holds where it is called is one of the
activity that calls it. -/
theorem finalizing_spec {p : Proc} (hq : ∀ q ∈ finalizing p, FinalizeSpec reg pre post exc q)
    (hopen : ∀ cmd r g, Opens p cmd r g → post cmd r (.start g)) :
    (p.view reg).Spec (fun cmd => (finalizing p).isSome → pre cmd)
      (fun cmd r p' => ∀ q' ∈ finalizing p', post cmd r q') fun cmd p' => ∀ q' ∈ finalizing p', exc cmd q' := by
  have hres : ∀ {Pc α : Type} {f : Pc → Proc}, (∀ p, finalizing (f p) = none) → ∀ x : Core.Next Pc α,
      finalizing (resume f x) = none := by
    intro Pc α f hf x
    cases x with
    | goto p => exact hf p
    | ret b => rfl
    | throw => rfl
  cases p with
  | submit p => exact (quiet_map _ (hres fun _ => rfl)).spec rfl
  | fetch p => exact (quiet_map _ (hres fun _ => rfl)).spec rfl
  | dispatch p => exact (quiet_map _ (hres fun _ => rfl)).spec rfl
  | deadLetter p => exact (quiet_map _ (hres fun _ => rfl)).spec rfl
  | call p => exact (quiet_map _ (hres fun _ => rfl)).spec rfl
  | finalize q => exact finalizing_inside (hq q rfl) (fun _ => rfl) (fun _ => rfl) rfl
  | done => trivial
  | tick p => exact finalizing_tick hq hopen
  | recovery p => exact finalizing_recovery hq hopen
  | watch p => exact finalizing_watch hq hopen

end

/-- The group of an aggregation. -/
def aggregated : AggregatePc → GroupId
  | .metaGetAll g _ => g
  | .range g _ _ _ _ => g
  | .setResult g _ => g
  | .setAggregatedAt g _ => g

/-- The calls of an aggregation of the group. -/
def aggregates (g : GroupId) : Cmd → Prop
  | .metaGetAll g' => g' = g
  | .resultsRange g' _ _ => g' = g
  | .resultSet g' _ => g' = g
  | .resultSetAggregatedAt g' => g' = g
  | _ => False

theorem aggregates_result {g g' : GroupId} {cmd : Cmd} {r : AggregatedResult} (h : aggregates g cmd)
    (he : cmd = .resultSet g' r) : g' = g := by
  rw [he] at h
  exact h

theorem aggregates_transition {g g' : GroupId} {cmd : Cmd} {t : Transition} (h : aggregates g cmd) :
    cmd ≠ .transitionStatus g' t := by
  intro he
  rw [he] at h
  exact h

theorem reduce_all {g : GroupId} {agg : Aggregator} {ctx : AggregationContext} {ms : List Mapped}
    {P : AggregatePc → Prop} (h : ∀ r, P (.setResult g r)) : (AggregatePc.reduce g agg ctx ms).All P := by
  unfold AggregatePc.reduce
  split
  · trivial
  · exact h _

/-- An aggregation keeps to its group. -/
theorem aggregated_spec (reg : Registry) (batch : Nat) (a : AggregatePc) :
    (a.view reg batch).Spec (aggregates (aggregated a)) (fun _ _ x => x.All fun a' => aggregated a' = aggregated a)
      fun _ x => x.All fun a' => aggregated a' = aggregated a := by
  cases a with
  | metaGetAll g t =>
    refine ⟨rfl, fun m => ?_, trivial⟩
    simp only
    split
    · trivial
    · rfl
  | range g t ctx ms offset =>
    refine ⟨rfl, fun results => ?_, trivial⟩
    simp only
    split
    · trivial
    · split
      · exact reduce_all fun _ => rfl
      · split
        · trivial
        · split
          · exact reduce_all fun _ => rfl
          · rfl
  | setResult g r => exact ⟨rfl, fun _ => rfl, trivial⟩
  | setAggregatedAt g r => exact ⟨rfl, fun _ => trivial, trivial⟩

section
variable {reg : Registry} {pre : Cmd → Prop} {post : (cmd : Cmd) → Reply cmd → FinalizePc → Prop}
  {exc : Cmd → FinalizePc → Prop} {g : GroupId} {token : String}

/-- `finalizeGroup` waiting for its lock. -/
theorem finalize_acquire {p : AcquirePc} (huuid : pre .randomUUID) (hlock : ∀ key token, pre (.acquireLock key token))
    (hnext : ∀ cmd r p', post cmd r (.acquire g p')) (hheld : ∀ cmd r token, post cmd r (.metaGetAll g token)) :
    FinalizeSpec reg pre post exc (.acquire g p) := by
  cases p with
  | uuid key => exact ⟨huuid, fun token => hnext _ _ _, trivial⟩
  | attempt key token n =>
    refine ⟨hlock key token, fun acquired => ?_, trivial⟩
    cases acquired with
    | true => exact hheld _ _ token
    | false =>
      by_cases hn : n < reg.config.watcher.lockRetryCount
      · simp only [Bool.false_eq_true, if_false, if_pos hn]
        exact hnext _ _ _
      · simp only [Bool.false_eq_true, if_false, if_neg hn]
        trivial

/-- `finalizeGroup` giving its lock back. -/
theorem finalize_release {result : Option Bool} (hlock : pre (.releaseLock (.aggregation g) token)) :
    FinalizeSpec reg pre post exc (.release g token result) := by
  refine ⟨hlock, fun b => ?_, trivial⟩
  cases result <;> trivial

end

/-! ## After the ack of the last job -/

/-- The group a tick is about to finalize. -/
def owes : Proc → Option GroupId
  | .tick (.complete (.resetGroupStats g)) => some g
  | _ => none

/-- The group an `ack.lua` has found complete. -/
def completes : (cmd : Cmd) → Reply cmd → Option GroupId
  | .ack _ g, true => some g
  | _, _ => none

/-- A tick finalizes the group its `ack.lua` has found complete. -/
theorem owes_spec (reg : Registry) (p : Proc) :
    (p.view reg).Spec (fun _ => True) (fun cmd r p' => ∀ g ∈ owes p', completes cmd r = some g)
      fun _ p' => owes p' = none := by
  have hnone : ∀ {p' : Proc} {cmd : Cmd} {r : Reply cmd}, owes p' = none → ∀ g ∈ owes p', completes cmd r = some g := by
    intro p' cmd r h g hg
    rw [h] at hg
    cases hg
  have hquiet : ∀ {a : Core.Action Reply Proc} {P : Proc → Prop}, (∀ p', P p' → owes p' = none) →
      a.Spec (fun _ => True) (fun _ _ p' => P p') (fun _ p' => P p') →
      a.Spec (fun _ => True) (fun cmd r p' => ∀ g ∈ owes p', completes cmd r = some g) fun _ p' => owes p' = none :=
    fun hP h => h.mono (fun _ _ => trivial) (fun _ _ p' hp' => hnone (hP p' hp')) fun _ p' hp' => hP p' hp'
  cases p with
  | tick p =>
    by_cases hp : ∀ q, p ≠ .complete q
    · refine hquiet (fun p' hp' => ?_) (unrecorded_tick hp)
      cases p' with
      | tick p =>
        cases p with
        | complete q => cases q <;> first | rfl | cases hp'
        | _ => rfl
      | _ => rfl
    · push Not at hp
      obtain ⟨c, rfl⟩ := hp
      cases c with
      | record r => exact ⟨trivial, fun _ => hnone rfl, rfl⟩
      | ack j g =>
        refine ⟨trivial, fun b => ?_, rfl⟩
        cases b with
        | true =>
          rintro g' ⟨⟩
          rfl
        | false => exact hnone rfl
      | resetGroupStats g => exact ⟨trivial, fun _ => hnone rfl, rfl⟩
      | finalize q =>
        rw [Proc.view, TickPc.view, CompletePc.view, Core.Action.map_map, Core.Action.map_map]
        refine hquiet (fun _ h => h) (Core.Action.map_all _ fun x => ?_)
        cases x <;> rfl
  | _ =>
    refine hquiet (fun p' hp' => ?_) (same_service reg _)
    cases p' with
    | tick p => rcases hp' with h | h <;> cases h
    | _ => rfl

/-! ## The watcher -/

/-- A read of a group's metadata. -/
def readsMeta : (cmd : Cmd) → Reply cmd → Option (GroupId × GroupMeta)
  | .metaGetAll g, m => some (g, m)
  | _, _ => none

section
variable (knows : GroupId → GroupMeta → Prop) (mayDispatch mayFinalize : GroupId → Prop)

def WatchAt : WatchPc → Prop
  | .checkTimeout g m status _ => knows g m ∧ m.status = some status
  | .transition g t _ => t.target = .dispatched ∧ mayDispatch g ∨ t.target = .running
  | .staleClock g _ _ => mayFinalize g
  | .lockTransition g _ _ => mayFinalize g
  | .lockedMeta g _ _ => mayFinalize g
  | .force _ t _ => t.target = .failed
  | .lockForce _ target _ _ => target = .failed
  | .forceMeta _ target _ _ => target = .failed
  | .lockedForce _ t _ _ => t.target = .failed
  | _ => True

def Watching : Proc → Prop
  | .watch p => WatchAt knows mayDispatch mayFinalize p
  | _ => True

theorem watching_of_started {p : Proc} (h : Started p) : Watching knows mayDispatch mayFinalize p := by
  cases h <;> trivial

theorem Watching.mono {knows' : GroupId → GroupMeta → Prop} {mayDispatch' mayFinalize' : GroupId → Prop} {p : Proc}
    (h : Watching knows mayDispatch mayFinalize p) (hk : ∀ g m, knows g m → knows' g m)
    (hd : ∀ g, mayDispatch g → mayDispatch' g) (hf : ∀ g, mayFinalize g → mayFinalize' g) :
    Watching knows' mayDispatch' mayFinalize' p := by
  cases p with
  | watch p =>
    cases p with
    | checkTimeout g m status rest => exact ⟨hk g m h.1, h.2⟩
    | transition g t rest => exact h.imp_left fun h => ⟨h.1, hd g h.2⟩
    | staleClock g _ _ | lockTransition g _ _ | lockedMeta g _ _ => exact hf g h
    | force | lockForce | forceMeta | lockedForce => exact h
    | _ => trivial
  | _ => trivial

/-- What the metadata has to say for the watcher to move a group on. -/
structure Heeds : Prop where
  created : ∀ g m, knows g m → m.status = some .created → m.totalJobs.getD 0 ≤ m.registeredJobs.getD 0 →
    0 < m.totalJobs.getD 0 → mayDispatch g
  running : ∀ g m, knows g m → m.status = some .running →
    m.totalJobs.getD 0 ≤ m.successCount.getD 0 + m.failedCount.getD 0 → 0 < m.totalJobs.getD 0 → mayFinalize g
  aggregating : ∀ g m, knows g m → m.status = some .aggregating → mayFinalize g

end

section
variable {reg : Registry} {knows : GroupId → GroupMeta → Prop} {mayDispatch mayFinalize : GroupId → Prop}

/-- The calls that store a result or change a status. -/
def decides : Cmd → Bool
  | .resultSet _ _ | .resultSetAggregatedAt _ | .transitionStatus _ _ => true
  | _ => false

/-- Results are stored and groups aggregated and completed in `finalizeGroup` only. -/
def Permitted (mayDispatch : GroupId → Prop) (p : Proc) (cmd : Cmd) : Prop :=
  (stores cmd = true → (finalizing p).isSome) ∧
  ∀ g t, cmd = .transitionStatus g t → (finalizing p).isSome ∨ t.target = .dispatched ∧ mayDispatch g ∨
    t.target = .running ∨ t.target = .failed

theorem Permitted.inside {p : Proc} {cmd : Cmd} (h : (finalizing p).isSome) : Permitted mayDispatch p cmd :=
  ⟨fun _ => h, fun _ _ _ => .inl h⟩

theorem Permitted.other {p : Proc} {cmd : Cmd} (h : decides cmd = false) : Permitted mayDispatch p cmd := by
  refine ⟨fun hs => ?_, fun g t he => ?_⟩
  · cases cmd <;> first | (cases hs; done) | cases h
  · rw [he] at h
    cases h

theorem watchAt_next (rest : List GroupId) : (WatchPc.next rest).All (WatchAt knows mayDispatch mayFinalize) := by
  cases rest <;> trivial

theorem watchAt_force (g : GroupId) (status : GroupStatus) (rest : List GroupId) :
    (WatchPc.forceTransition g status .failed rest).All (WatchAt knows mayDispatch mayFinalize) := by
  unfold WatchPc.forceTransition
  split
  · exact watchAt_next rest
  · split
    · split <;> rfl
    · exact watchAt_next rest

theorem watchAt_check (hh : Heeds knows mayDispatch mayFinalize) {g : GroupId} {m : GroupMeta} {status : GroupStatus}
    (hk : knows g m) (hs : m.status = some status) (rest : List GroupId) :
    (WatchPc.check g m status rest).All (WatchAt knows mayDispatch mayFinalize) := by
  cases status with
  | created =>
    simp only [WatchPc.check, WatchPc.tryTransition]
    split
    · rename_i h
      split
      · exact .inl ⟨rfl, hh.created g m hk hs h.1 h.2⟩
      · exact watchAt_next rest
    · exact watchAt_next rest
  | dispatched =>
    simp only [WatchPc.check, WatchPc.tryTransition]
    split
    · split
      · exact .inr rfl
      · exact watchAt_next rest
    · exact watchAt_next rest
  | running =>
    simp only [WatchPc.check]
    split
    · rename_i h
      exact hh.running g m hk hs h.1 h.2
    · exact watchAt_next rest
  | aggregating =>
    simp only [WatchPc.check]
    split
    · trivial
    · exact hh.aggregating g m hk hs
  | completed | failed => exact watchAt_next rest

/-- A lock given back, with or without an error inside it. -/
theorem watchAt_unlocked (threw : Bool) (rest : List GroupId) :
    Core.Next.All (WatchAt knows mayDispatch mayFinalize) (if threw then .throw else WatchPc.next rest) := by
  cases threw
  · exact watchAt_next rest
  · trivial

/-- An awaited function that reads no metadata for the watcher. -/
theorem watchAt_awaited {Pc α : Type} {a : Await Pc α} {f : Core.Next Pc α → Core.Next WatchPc Unit} {ok : Cmd → Prop}
    (hc : Calls ok a) (hf : ∀ x, (f x).All (WatchAt knows mayDispatch mayFinalize)) :
    (a.map f).Spec ok
      (fun cmd r x => (∀ y ∈ readsMeta cmd r, knows y.1 y.2) → x.All (WatchAt knows mayDispatch mayFinalize))
      fun _ x => x.All (WatchAt knows mayDispatch mayFinalize) := by
  cases a with
  | call c ok err => exact ⟨hc.1, fun r _ => hf _, hf _⟩
  | halt => trivial

theorem permitted_acquire (p : Proc) (q : AcquirePc) : Calls (Permitted mayDispatch p) (q.view reg) := by
  cases q <;> exact ⟨.other rfl, fun _ => trivial, trivial⟩

theorem permitted_finalize {p : Proc} (h : (finalizing p).isSome) (q : FinalizePc) :
    Calls (Permitted mayDispatch p) (q.view reg) :=
  Calls.mono (finalize_calls reg q) fun _ _ => .inside h

theorem watchAt_spec (hh : Heeds knows mayDispatch mayFinalize) {p : WatchPc}
    (h : WatchAt knows mayDispatch mayFinalize p) :
    (p.view reg).Spec (Permitted mayDispatch (.watch p))
      (fun cmd r x => (∀ y ∈ readsMeta cmd r, knows y.1 y.2) → x.All (WatchAt knows mayDispatch mayFinalize))
      fun _ x => x.All (WatchAt knows mayDispatch mayFinalize) := by
  have hno : ∀ {cmd : Cmd}, decides cmd = false → Permitted mayDispatch (.watch p) cmd := fun h => .other h
  cases p with
  | members => exact ⟨hno rfl, fun r _ => watchAt_next r, trivial⟩
  | checkGroup g rest =>
    refine ⟨hno rfl, fun m hk => ?_, trivial⟩
    simp only
    split
    · exact watchAt_next rest
    · rename_i status hs
      split
      · trivial
      · exact ⟨hk (g, m) rfl, hs⟩
  | removeTerminal g rest => exact ⟨hno rfl, fun _ _ => watchAt_next rest, trivial⟩
  | checkTimeout g m status rest =>
    refine ⟨hno rfl, fun now _ => ?_, trivial⟩
    simp only
    split
    · exact watchAt_force g status rest
    · exact watchAt_check hh h.1 h.2 rest
  | transition g t rest =>
    refine ⟨⟨by simp [stores], fun g' t' he => ?_⟩, fun _ _ => watchAt_next rest, trivial⟩
    cases he
    exact .inr (h.imp_right .inl)
  | staleClock g startAt rest =>
    refine ⟨hno rfl, fun now _ => ?_, trivial⟩
    simp only
    split
    · trivial
    · exact watchAt_next rest
  | finalize q rest =>
    rw [WatchPc.view]
    refine watchAt_awaited (permitted_finalize rfl q) fun x => ?_
    cases x with
    | goto q => trivial
    | ret b => exact watchAt_next rest
    | throw => trivial
  | lockTransition g p' rest =>
    rw [WatchPc.view]
    refine watchAt_awaited (permitted_acquire _ p') fun x => ?_
    cases x with
    | goto p => exact h
    | ret token =>
      cases token with
      | none => exact watchAt_next rest
      | some token => exact h
    | throw => trivial
  | lockedMeta g token rest =>
    refine ⟨hno rfl, fun m _ => ?_, trivial⟩
    simp only
    split <;> trivial
  | lockedFinalize g token q rest =>
    rw [WatchPc.view]
    refine watchAt_awaited (permitted_finalize rfl q) fun x => ?_
    cases x <;> trivial
  | unlockTransition g token threw rest => exact ⟨hno rfl, fun _ _ => watchAt_unlocked threw rest, trivial⟩
  | force g t rest =>
    refine ⟨⟨by simp [stores], fun g' t' he => ?_⟩, fun _ _ => watchAt_next rest, trivial⟩
    cases he
    exact .inr (.inr (.inr h))
  | lockForce g target p' rest =>
    rw [WatchPc.view]
    refine watchAt_awaited (permitted_acquire _ p') fun x => ?_
    cases x with
    | goto p => exact h
    | ret token =>
      cases token with
      | none => exact watchAt_next rest
      | some token => exact h
    | throw => trivial
  | forceMeta g target token rest =>
    refine ⟨hno rfl, fun m _ => ?_, trivial⟩
    simp only
    split
    · trivial
    · split
      · trivial
      · split
        · exact h
        · trivial
  | lockedForce g t token rest =>
    refine ⟨⟨by simp [stores], fun g' t' he => ?_⟩, fun _ _ => trivial, trivial⟩
    cases he
    exact .inr (.inr (.inr h))
  | unlockForce g token threw rest => exact ⟨hno rfl, fun _ _ => watchAt_unlocked threw rest, trivial⟩

theorem permitted_tick (p : TickPc) : Calls (Permitted mayDispatch (.tick p)) ((Proc.tick p).view reg) := by
  have hno : ∀ {cmd : Cmd}, decides cmd = false → Permitted mayDispatch (.tick p) cmd := fun h => .other h
  refine Calls.map ?_
  cases p with
  | dequeue p => cases p <;> exact ⟨hno rfl, fun _ => trivial, trivial⟩
  | complete p =>
    rw [TickPc.view]
    refine Calls.map ?_
    cases p with
    | finalize q =>
      rw [CompletePc.view]
      exact Calls.map (permitted_finalize rfl q)
    | record | ack | resetGroupStats => exact ⟨hno rfl, fun _ => trivial, trivial⟩
  | failed p =>
    rw [TickPc.view]
    refine Calls.map ?_
    cases p with
    | requeue p => cases p <;> exact ⟨hno rfl, fun _ => trivial, trivial⟩
    | _ => exact ⟨hno rfl, fun _ => trivial, trivial⟩
  | _ => exact ⟨hno rfl, fun _ => trivial, trivial⟩

theorem permitted_recovery (p : RecoveryPc) :
    Calls (Permitted mayDispatch (.recovery p)) ((Proc.recovery p).view reg) := by
  refine Calls.map ?_
  cases p with
  | finalize q pairs =>
    rw [RecoveryPc.view]
    exact Calls.map (permitted_finalize rfl q)
  | script | record | ack => exact ⟨.other rfl, fun _ => trivial, trivial⟩

/-- Outside `finalizeGroup` only the watcher changes the status. -/
theorem watching_spec (hh : Heeds knows mayDispatch mayFinalize) {p : Proc}
    (h : Watching knows mayDispatch mayFinalize p) :
    (p.view reg).Spec (Permitted mayDispatch p)
      (fun cmd r p' => (∀ y ∈ readsMeta cmd r, knows y.1 y.2) → Watching knows mayDispatch mayFinalize p')
      fun _ p' => Watching knows mayDispatch mayFinalize p' := by
  have hres : ∀ {Pc α : Type} {f : Pc → Proc}, (∀ p, Watching knows mayDispatch mayFinalize (f p)) →
      ∀ x : Core.Next Pc α, Watching knows mayDispatch mayFinalize (resume f x) := by
    intro Pc α f hf x
    cases x with
    | goto p => exact hf p
    | ret b => trivial
    | throw => trivial
  have lift : ∀ {Pc α : Type} {p : Proc} (a : Await Pc α) {f : Pc → Proc},
      (∀ p, Watching knows mayDispatch mayFinalize (f p)) → Calls (Permitted mayDispatch p) (a.map (resume f)) →
      (a.map (resume f)).Spec (Permitted mayDispatch p)
        (fun cmd r p' => (∀ y ∈ readsMeta cmd r, knows y.1 y.2) → Watching knows mayDispatch mayFinalize p')
        fun _ p' => Watching knows mayDispatch mayFinalize p' := by
    intro Pc α p a f hf hc
    cases a with
    | call c ok err => exact ⟨hc.1, fun r _ => hres hf _, hres hf _⟩
    | halt => trivial
  have hmay : ∀ p : Proc, (∀ cmd, p.mayCall cmd = true → decides cmd = false) →
      Calls (Permitted mayDispatch p) (p.view reg) := fun p hp => (may_call reg p).mono fun cmd hc => .other (hp cmd hc)
  cases p with
  | watch p =>
    have hall : ∀ x : Core.Next WatchPc Unit, x.All (WatchAt knows mayDispatch mayFinalize) →
        Watching knows mayDispatch mayFinalize (resume .watch x) := by
      intro x hx
      cases x with
      | goto p => exact hx
      | ret b => trivial
      | throw => trivial
    exact (watchAt_spec hh h).map (fun _ _ x hx hk => hall x (hx hk)) fun _ x hx => hall x hx
  | tick p => exact lift _ (fun _ => trivial) (permitted_tick p)
  | recovery p => exact lift _ (fun _ => trivial) (permitted_recovery p)
  | finalize q =>
    exact lift _ (fun _ => trivial) (Calls.map (permitted_finalize rfl q))
  | done => trivial
  | submit p | fetch p | dispatch p | deadLetter p | call p =>
    refine lift _ (fun _ => trivial) (hmay _ fun cmd hc => ?_)
    cases cmd <;> first | rfl | cases hc

end
end NestPlayground.L4
