import NestPlayground.L4Pipeline.Books
import NestPlayground.L4Pipeline.Deeds
import NestPlayground.L4Pipeline.Finalizing

/-!
# Why a group fails

Nothing in a group's metadata says why it FAILED, so the result is about the
past of the run: `failed_timed_out` finds, behind every FAILED status, the
`transition-status.lua` that wrote it, behind that a reading of the clock, and
behind that the `submitBulkJobs` whose deadline the reading had passed. No job
outcome, lost worker or failed finalization fails a group.

A watch cycle acts on metadata that may be old by the time it acts, and reads
the clock between the two. `Forcing` carries what a suspended cycle knows: the
deadline in the metadata it holds was armed, and a group it is about to force
is overdue.
-/
namespace NestPlayground.L5.Timeouts
open L1 L3 L4

/-- `submitBulkJobs` has set the deadline of `g` to `n`.
mirrors libs/bulk-action/src/BulkActionService.ts:68-72 -/
def Armed (reg : Registry) (g : GroupId) (n : Nat) (ds : Deeds) : Prop :=
  ∃ d ∈ ds, d.cmd = .metaSetTimeoutAt g ∧ n = d.inp.now + reg.config.watcher.groupTimeoutMs

/-- The clock was read after a deadline of `g` had been set and had passed. -/
def Overdue (reg : Registry) (g : GroupId) (ds : Deeds) : Prop :=
  ∃ newer read older n, ds = newer ++ read :: older ∧ read.cmd = .dateNow ∧ Armed reg g n older ∧ n < read.inp.now

/-- `g` was forced to FAILED when it was overdue. -/
def Forced (reg : Registry) (g : GroupId) (ds : Deeds) : Prop :=
  ∃ newer force older t, ds = newer ++ force :: older ∧ force.cmd = .transitionStatus g t ∧ t.target = .failed ∧
    Overdue reg g older

section
variable {reg : Registry} {g : GroupId} {n : Nat} {ds : Deeds}

theorem Armed.cons (h : Armed reg g n ds) (d : Deed) : Armed reg g n (d :: ds) := by
  obtain ⟨d', hd', h⟩ := h
  exact ⟨d', List.mem_cons_of_mem _ hd', h⟩

theorem Overdue.cons (h : Overdue reg g ds) (d : Deed) : Overdue reg g (d :: ds) := by
  obtain ⟨newer, read, older, n, rfl, h⟩ := h
  exact ⟨d :: newer, read, older, n, rfl, h⟩

theorem Forced.cons (h : Forced reg g ds) (d : Deed) : Forced reg g (d :: ds) := by
  obtain ⟨newer, force, older, t, rfl, h⟩ := h
  exact ⟨d :: newer, force, older, t, rfl, h⟩

end

/-! ## Who forces a group -/

/-- The call does not fail a group. -/
def Unforced (cmd : Cmd) : Prop := ∀ g t, cmd = .transitionStatus g t → t.target ≠ .failed

theorem unforced_of_ne {cmd : Cmd} (h : decides cmd = false) : Unforced cmd := by
  intro g t he
  rw [he] at h
  cases h

section
variable {reg : Registry}

theorem unforced_acquire (p : AcquirePc) : Calls Unforced (p.view reg) := by
  cases p <;> exact ⟨unforced_of_ne rfl, fun _ => trivial, trivial⟩

theorem unforced_aggregate (batch : Nat) (p : AggregatePc) : Calls Unforced (p.view reg batch) := by
  cases p <;> exact ⟨fun g t he => (by cases he), fun _ => trivial, trivial⟩

/-- `finalizeGroup` moves a group to AGGREGATING and COMPLETED only. -/
theorem unforced_finalize (p : FinalizePc) : Calls Unforced (p.view reg) := by
  cases p with
  | acquire g p =>
    rw [FinalizePc.view]
    exact Calls.map (unforced_acquire p)
  | aggregate g token p =>
    rw [FinalizePc.view]
    exact Calls.map (unforced_aggregate batchSize p)
  | toAggregating g token t | toCompleted g token =>
    refine ⟨fun g' t' he => ?_, fun _ => trivial, trivial⟩
    cases he
    decide
  | metaGetAll | release => exact ⟨unforced_of_ne rfl, fun _ => trivial, trivial⟩

theorem unforced_tick (p : TickPc) : Calls Unforced (p.view reg) := by
  cases p with
  | dequeue p => cases p <;> exact ⟨unforced_of_ne rfl, fun _ => trivial, trivial⟩
  | complete p =>
    rw [TickPc.view]
    refine Calls.map ?_
    cases p with
    | finalize q =>
      rw [CompletePc.view]
      exact Calls.map (unforced_finalize q)
    | record | ack | resetGroupStats => exact ⟨unforced_of_ne rfl, fun _ => trivial, trivial⟩
  | failed p =>
    rw [TickPc.view]
    refine Calls.map ?_
    cases p with
    | requeue p => cases p <;> exact ⟨unforced_of_ne rfl, fun _ => trivial, trivial⟩
    | _ => exact ⟨unforced_of_ne rfl, fun _ => trivial, trivial⟩
  | _ => exact ⟨unforced_of_ne rfl, fun _ => trivial, trivial⟩

theorem unforced_recovery (p : RecoveryPc) : Calls Unforced (p.view reg) := by
  cases p with
  | finalize q pairs =>
    rw [RecoveryPc.view]
    exact Calls.map (unforced_finalize q)
  | script | record | ack => exact ⟨unforced_of_ne rfl, fun _ => trivial, trivial⟩

/-- Only the watcher fails a group. -/
theorem unforced_spec {p : Proc} (hp : p.service ≠ .watch) : Calls Unforced (p.view reg) := by
  have hmay : ∀ p : Proc, (∀ cmd, p.mayCall cmd = true → decides cmd = false) → Calls Unforced (p.view reg) :=
    fun p h => (may_call reg p).mono fun cmd hc => unforced_of_ne (h cmd hc)
  cases p with
  | watch p => exact absurd rfl hp
  | finalize q => exact Calls.map (unforced_finalize q)
  | tick p => exact Calls.map (unforced_tick p)
  | recovery p => exact Calls.map (unforced_recovery p)
  | done => trivial
  | submit p | fetch p | dispatch p | deadLetter p | call p =>
    refine hmay _ fun cmd hc => ?_
    cases cmd <;> first | rfl | cases hc

end

/-! ## What a watch cycle knows -/

/-- A reading of the clock. -/
def readsClock : (cmd : Cmd) → Reply cmd → Option Nat
  | .dateNow, now => some now
  | _, _ => none

section
variable (knows : GroupId → GroupMeta → Prop) (overdue : GroupId → Prop)

def ForcingAt : WatchPc → Prop
  | .checkTimeout g m _ _ => knows g m
  | .transition _ t _ => t.target ≠ .failed
  | .force g _ _ | .lockForce g _ _ _ | .forceMeta g _ _ _ | .lockedForce g _ _ _ => overdue g
  | _ => True

def Forcing : Proc → Prop
  | .watch p => ForcingAt knows overdue p
  | _ => True

/-- What a call may tell: the metadata it read, and that a deadline known of has passed. -/
structure Tells (cmd : Cmd) (r : Reply cmd) (knows' : GroupId → GroupMeta → Prop) (overdue' : GroupId → Prop) :
    Prop where
  reads : ∀ y ∈ readsMeta cmd r, knows' y.1 y.2
  passed : ∀ now ∈ readsClock cmd r, ∀ g m, knows g m → 0 < m.timeoutAt.getD 0 → m.timeoutAt.getD 0 < now →
    overdue' g
  still : ∀ g, overdue g → overdue' g

end

section
variable {reg : Registry} {knows knows' : GroupId → GroupMeta → Prop} {overdue overdue' : GroupId → Prop}

theorem forcing_of_started {p : Proc} (h : Started p) : Forcing knows overdue p := by
  cases h <;> trivial

theorem Forcing.mono {p : Proc} (h : Forcing knows overdue p) (hk : ∀ g m, knows g m → knows' g m)
    (ho : ∀ g, overdue g → overdue' g) : Forcing knows' overdue' p := by
  cases p with
  | watch p =>
    cases p with
    | checkTimeout g m status rest => exact hk g m h
    | force g _ _ | lockForce g _ _ _ | forceMeta g _ _ _ | lockedForce g _ _ _ => exact ho g h
    | transition => exact h
    | _ => trivial
  | _ => trivial

theorem forcing_next (rest : List GroupId) : (WatchPc.next rest).All (ForcingAt knows overdue) := by
  cases rest <;> trivial

theorem forcing_tryTransition {g : GroupId} {source target : GroupStatus} (h : target ≠ .failed)
    (rest : List GroupId) : (WatchPc.tryTransition g source target rest).All (ForcingAt knows overdue) := by
  unfold WatchPc.tryTransition
  split
  · exact h
  · exact forcing_next rest

/-- `forceTransition` is called for overdue groups only. -/
theorem forcing_force {g : GroupId} (h : overdue g) (status target : GroupStatus) (rest : List GroupId) :
    (WatchPc.forceTransition g status target rest).All (ForcingAt knows overdue) := by
  unfold WatchPc.forceTransition
  split
  · exact forcing_next rest
  · split
    · split <;> exact h
    · exact forcing_next rest

/-- The checks of a group that has not timed out force nothing. -/
theorem forcing_check (g : GroupId) (m : GroupMeta) (status : GroupStatus) (rest : List GroupId) :
    (WatchPc.check g m status rest).All (ForcingAt knows overdue) := by
  cases status with
  | created | dispatched =>
    simp only [WatchPc.check]
    split
    · exact forcing_tryTransition (by decide) rest
    · exact forcing_next rest
  | running =>
    simp only [WatchPc.check]
    split
    · trivial
    · exact forcing_next rest
  | aggregating =>
    simp only [WatchPc.check]
    split <;> trivial
  | completed | failed => exact forcing_next rest

theorem forcing_unlocked (threw : Bool) (rest : List GroupId) :
    Core.Next.All (ForcingAt knows overdue) (if threw then .throw else WatchPc.next rest) := by
  cases threw
  · exact forcing_next rest
  · trivial

/-- A call of the watcher fails overdue groups only. -/
def ForcesOnly (overdue : GroupId → Prop) (cmd : Cmd) : Prop :=
  ∀ g t, cmd = .transitionStatus g t → t.target = .failed → overdue g

theorem Unforced.only {cmd : Cmd} (h : Unforced cmd) : ForcesOnly overdue cmd :=
  fun g t he ht => absurd ht (h g t he)

/-- An awaited function that tells the watcher nothing and forces nothing. Where the watcher goes on
depends on the groups `gs` being overdue. -/
theorem forcing_awaited {Pc α : Type} {a : Await Pc α} {f : Core.Next Pc α → Core.Next WatchPc Unit} (gs : List GroupId)
    (hc : Calls Unforced a) (hgs : ∀ g ∈ gs, overdue g)
    (hf : ∀ (knows : GroupId → GroupMeta → Prop) (overdue : GroupId → Prop), (∀ g ∈ gs, overdue g) →
      ∀ x, (f x).All (ForcingAt knows overdue)) :
    (a.map f).Spec (ForcesOnly overdue)
      (fun cmd r x => Tells knows overdue cmd r knows' overdue' → x.All (ForcingAt knows' overdue'))
      fun _ x => x.All (ForcingAt knows overdue) := by
  cases a with
  | call c ok err => exact ⟨hc.1.only, fun r ht => hf _ _ (fun g hg => ht.still g (hgs g hg)) _, hf _ _ hgs _⟩
  | halt => trivial

theorem forcingAt_spec {p : WatchPc} (h : ForcingAt knows overdue p) :
    (p.view reg).Spec (ForcesOnly overdue)
      (fun cmd r x => Tells knows overdue cmd r knows' overdue' → x.All (ForcingAt knows' overdue'))
      fun _ x => x.All (ForcingAt knows overdue) := by
  have hno : ∀ {cmd : Cmd}, decides cmd = false → ForcesOnly overdue cmd := fun h => (unforced_of_ne h).only
  cases p with
  | members => exact ⟨hno rfl, fun r _ => forcing_next r, trivial⟩
  | checkGroup g rest =>
    refine ⟨hno rfl, fun m ht => ?_, trivial⟩
    simp only
    split
    · exact forcing_next rest
    · split
      · trivial
      · exact ht.reads (g, m) rfl
  | removeTerminal g rest => exact ⟨hno rfl, fun _ _ => forcing_next rest, trivial⟩
  | checkTimeout g m status rest =>
    refine ⟨hno rfl, fun now ht => ?_, trivial⟩
    simp only
    split
    · rename_i hpassed
      exact forcing_force (ht.passed now rfl g m h hpassed.1 hpassed.2) status .failed rest
    · exact forcing_check g m status rest
  | transition g t rest =>
    refine ⟨fun g' t' he ht => ?_, fun _ _ => forcing_next rest, trivial⟩
    cases he
    exact absurd ht h
  | staleClock g startAt rest =>
    refine ⟨hno rfl, fun now _ => ?_, trivial⟩
    simp only
    split
    · trivial
    · exact forcing_next rest
  | finalize q rest =>
    rw [WatchPc.view]
    refine forcing_awaited [] (unforced_finalize q) (by simp) fun _ _ _ x => ?_
    cases x with
    | goto q => trivial
    | ret b => exact forcing_next rest
    | throw => trivial
  | lockTransition g p' rest =>
    rw [WatchPc.view]
    refine forcing_awaited [] (unforced_acquire p') (by simp) fun _ _ _ x => ?_
    cases x with
    | goto p => trivial
    | ret token =>
      cases token with
      | none => exact forcing_next rest
      | some token => trivial
    | throw => trivial
  | lockedMeta g token rest =>
    refine ⟨hno rfl, fun m _ => ?_, trivial⟩
    simp only
    split <;> trivial
  | lockedFinalize g token q rest =>
    rw [WatchPc.view]
    exact forcing_awaited [] (unforced_finalize q) (by simp) fun _ _ _ x => by cases x <;> trivial
  | unlockTransition g token threw rest => exact ⟨hno rfl, fun _ _ => forcing_unlocked threw rest, trivial⟩
  | force g t rest =>
    refine ⟨fun g' t' he _ => ?_, fun _ _ => forcing_next rest, trivial⟩
    cases he
    exact h
  | lockForce g target p' rest =>
    rw [WatchPc.view]
    refine forcing_awaited [g] (unforced_acquire p') (List.forall_mem_singleton.mpr h) fun _ _ hg x => ?_
    have ho := hg g List.mem_cons_self
    cases x with
    | goto p => exact ho
    | ret token =>
      cases token with
      | none => exact forcing_next rest
      | some token => exact ho
    | throw => trivial
  | forceMeta g target token rest =>
    refine ⟨hno rfl, fun m ht => ?_, trivial⟩
    simp only
    split
    · trivial
    · split
      · trivial
      · split
        · exact ht.still g h
        · trivial
  | lockedForce g t token rest =>
    refine ⟨fun g' t' he _ => ?_, fun _ _ => trivial, trivial⟩
    cases he
    exact h
  | unlockForce g token threw rest => exact ⟨hno rfl, fun _ _ => forcing_unlocked threw rest, trivial⟩

/-- Whoever fails a group is a watch cycle that knows it overdue. -/
theorem forcing_spec {p : Proc} (h : Forcing knows overdue p) :
    (p.view reg).Spec (ForcesOnly overdue)
      (fun cmd r p' => Tells knows overdue cmd r knows' overdue' → Forcing knows' overdue' p')
      fun _ p' => Forcing knows overdue p' := by
  by_cases hp : p.service = .watch
  · cases p with
    | watch p =>
      have hall : ∀ {knows : GroupId → GroupMeta → Prop} {overdue : GroupId → Prop} (x : Core.Next WatchPc Unit),
          x.All (ForcingAt knows overdue) → Forcing knows overdue (resume .watch x) := by
        intro knows overdue x hx
        cases x with
        | goto p => exact hx
        | ret b => trivial
        | throw => trivial
      exact (forcingAt_spec h).map (fun _ _ x hx ht => hall x (hx ht)) fun _ x hx => hall x hx
    | _ => cases hp
  · have hother : ∀ {knows : GroupId → GroupMeta → Prop} {overdue : GroupId → Prop} {p' : Proc},
        p'.service = p.service ∨ p'.service = .done → Forcing knows overdue p' := by
      intro knows overdue p' hs
      cases p' with
      | watch p' =>
        rcases hs with hs | hs
        · exact absurd hs.symm hp
        · cases hs
      | _ => trivial
    refine ((unforced_spec hp).and (same_service reg p)).mono (fun _ hc => hc.1.only) (fun _ _ _ hs _ => hother hs.2)
      fun _ _ hs => hother hs.2

end

/-! ## The past of a failed group -/

section
variable {reg : Registry}

/-- The deadlines in the metadata were armed. -/
def KnowsOf (reg : Registry) (ds : Deeds) (g : GroupId) (m : GroupMeta) : Prop :=
  ∀ n, m.timeoutAt = some n → Armed reg g n ds

/-- What the books say of the past. -/
structure Accounted (reg : Registry) (w : Store × Deeds) : Prop where
  armed : ∀ g, KnowsOf reg w.2 g (w.1.groupMeta g)
  forced : ∀ g, (w.1.groupMeta g).status = some .failed → Forced reg g w.2

/-- Only `submitBulkJobs` sets a deadline. -/
theorem timeoutAt_exec (reg : Registry) (cmd : Cmd) (inp : Input) (s : Store) (g : GroupId) :
    ((exec reg cmd inp s).1.groupMeta g).timeoutAt = (s.groupMeta g).timeoutAt ∨ cmd = .metaSetTimeoutAt g ∧
      ((exec reg cmd inp s).1.groupMeta g).timeoutAt = some (inp.now + reg.config.watcher.groupTimeoutMs) := by
  have hm := meta_step reg cmd inp s g
  generalize (exec reg cmd inp s).1.groupMeta g = m' at hm ⊢
  cases hm with
  | @moved t h => exact .inl (by cases t.target <;> rfl)
  | timed => exact .inr ⟨rfl, rfl⟩
  | _ => exact .inl rfl

theorem accounted_exec {cmd : Cmd} {inp : Input} {s : Store} {ds : Deeds} (h : Accounted reg (s, ds))
    (hf : ForcesOnly (Overdue reg · ds) cmd) :
    Accounted reg ((exec reg cmd inp s).1, ⟨cmd, inp, s⟩ :: ds) := by
  refine ⟨fun g n hn => ?_, fun g hg => ?_⟩
  · rcases timeoutAt_exec reg cmd inp s g with ht | ⟨hc, ht⟩
    · exact (h.armed g n (ht.symm.trans hn)).cons _
    · rw [ht] at hn
      cases hn
      exact ⟨_, List.mem_cons_self, hc, rfl⟩
  · rcases status_cases reg cmd inp s g with hs | ⟨_, _, _, _, hs⟩ | ⟨_, _, _, hs⟩ | ⟨t, hc, _, hs⟩
    · exact (h.forced g (hs.symm.trans hg)).cons _
    · rw [hs] at hg
      cases hg
    · rw [hs] at hg
      cases hg
    · rw [hs] at hg
      cases hg' : t.target
      all_goals rw [hg'] at hg
      case failed => exact ⟨[], ⟨cmd, inp, s⟩, ds, t, rfl, hc, hg', hf g t hc hg'⟩
      all_goals cases hg

/-- What a call tells a watch cycle, of the deeds before and after it. -/
theorem tells_exec {cmd : Cmd} {inp : Input} {s : Store} {ds : Deeds} (h : Accounted reg (s, ds)) :
    Tells (KnowsOf reg ds) (Overdue reg · ds) cmd (exec reg cmd inp s).2 (KnowsOf reg (⟨cmd, inp, s⟩ :: ds))
      (Overdue reg · (⟨cmd, inp, s⟩ :: ds)) where
  reads := by
    intro y hy n hn
    cases cmd with
    | metaGetAll g =>
      cases hy
      exact (h.armed g n hn).cons _
    | _ => cases hy
  passed := by
    intro now hnow g m hk hpos hlt
    cases cmd with
    | dateNow =>
      cases hnow
      cases ht : m.timeoutAt with
      | none =>
        rw [ht] at hpos
        exact absurd hpos (Nat.lt_irrefl 0)
      | some n =>
        rw [ht] at hlt
        exact ⟨[], _, ds, n, rfl, rfl, hk n ht, hlt⟩
    | _ => cases hnow
  still g ho := ho.cons _

theorem outline (reg : Registry) :
    Core.Program.Outline (pipeline reg).chronicled (fun _ _ => True) (fun w _ => Accounted reg w)
      fun w _ _ p => Forcing (KnowsOf reg w.2) (Overdue reg · w.2) p where
  run := by
    intro c i inp p cmd ok err hI hA hp hv _
    have hspec := @forcing_spec reg _ (KnowsOf reg (⟨cmd, inp, c.world.1⟩ :: c.world.2)) _
      (Overdue reg · (⟨cmd, inp, c.world.1⟩ :: c.world.2)) p (hA i p hp)
    change p.view reg = _ at hv
    rw [hv] at hspec
    exact ⟨accounted_exec hI hspec.1, hspec.2.1 _ (tells_exec hI),
      fun k q _ hq => (hA k q hq).mono (fun g m hk n hn => (hk n hn).cons _) fun g ho => ho.cons _⟩
  reject := by
    intro c i p cmd ok err _ hA _ hv _
    have hspec := @forcing_spec reg _ (KnowsOf reg c.world.2) _ (Overdue reg · c.world.2) p hA
    change p.view reg = _ at hv
    rw [hv] at hspec
    exact hspec.2.2
  dead _ _ _ := trivial
  spawn {_ t} _ _ := forcing_of_started (t.started reg)
  env := by
    intro w log e hI
    refine ⟨?_, fun _ _ h => h⟩
    cases e <;> exact ⟨hI.armed, hI.forced⟩

/-- A group FAILED because the watcher forced it, having read the clock after
the deadline that `submitBulkJobs` had set. -/
theorem failed_timed_out (reg : Registry) (t : Core.Traced State Label) (h : (runs reg).traced.Reachable t)
    (g : GroupId) (hf : (t.state.world.groupMeta g).status = some .failed) :
    Forced reg g ((pipeline reg).deeds t.past) := by
  have hr : ((runs reg).traced.restrict fun _ _ => True).Reachable t := h.of_forall fun _ _ => trivial
  refine ((outline reg).chronicle ?_ (fun _ _ _ => trivial) hr).1.forced g hf
  refine ⟨⟨fun g n hn => ?_, fun g hg => ?_⟩, fun i p hp => ?_⟩
  · cases hn
  · cases hg
  · cases hp

/-- A watch cycle that comes a day later. -/
theorem failed_timed_out_late : ∃ t : Core.Traced State Label,
    (t.state.world.groupMeta "g").status = some .failed ∧ Forced {} "g" ((pipeline {}).deeds t.past) := by
  obtain ⟨t, hr, hP⟩ := Core.Program.exists_of_retrace (S := pipeline {})
    (P := fun t : Core.Traced State Label => decide ((t.state.world.groupMeta "g").status = some .failed))
    (show ((pipeline {}).retrace (fun _ _ => true) ⟨initialState, []⟩
      (oneJob ++ [.spawn .watchCycle] ++ runsAt 2 86400000 4)).any _ = true by decide +kernel)
  have hf := of_decide_eq_true hP
  exact ⟨t, hf, failed_timed_out {} t hr.unrestrict "g" hf⟩

end
end NestPlayground.L5.Timeouts
