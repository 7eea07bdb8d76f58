import NestPlayground.Core.LTS
import NestPlayground.L2Scripts.FairQueue

/-!
# The fair queue hands out every job once, in order

Runs of `FairQueueService.enqueue` and `dequeue` with any requests, clock
readings, weights and levels; job ids are distinct. The history of a run is
kept beside the store. `Inv` is what a run preserves: every group with pending
jobs is in one of the three sets, the hash of a pending job names the job and
its group, and each group's submissions are what was returned followed by what
is pending.
-/
namespace NestPlayground.L5.FairQueue
open L1

structure Run where
  store : Store
  /-- the requests enqueued, oldest first -/
  submitted : List BulkActionRequest
  /-- the hashes `dequeue` answered with, oldest first -/
  returned : List JobHash

inductive Op where
  | enqueue (req : BulkActionRequest) (nowMs : Nat)
  | dequeue (nowMs : Nat)

def Run.step (rnd : Core.Rounding) (alpha : ℚ) (c : Run) : Op → Run
  | .enqueue req nowMs =>
    { c with
      store := (L2.enqueue rnd alpha req nowMs c.store).1
      submitted := c.submitted ++ [req] }
  | .dequeue nowMs =>
    { c with
      store := (L2.dequeue rnd alpha nowMs c.store).1
      returned := c.returned ++ (L2.dequeue rnd alpha nowMs c.store).2.toList }

/-- A request carries an id that was not used before. -/
def Run.fresh (c : Run) : Op → Prop
  | .enqueue req _ => req.jobId ∉ c.submitted.map (·.jobId)
  | .dequeue _ => True

instance (c : Run) (op : Op) : Decidable (c.fresh op) :=
  match op with
  | .enqueue _ _ => inferInstanceAs (Decidable (_ ∉ _))
  | .dequeue _ => inferInstanceAs (Decidable True)

def fairQueueRuns (rnd : Core.Rounding) (alpha : ℚ) : Core.LTS Run Op where
  init c := c = ⟨.empty, [], []⟩
  step c op c' := c.fresh op ∧ c' = c.step rnd alpha op

/-- The ids submitted to a group, in submission order. -/
def Run.submittedTo (c : Run) (g : GroupId) : List JobId :=
  (c.submitted.filter (·.jobGroupId = g)).map (·.jobId)

/-- The ids returned for a group, in order. -/
def Run.returnedFrom (c : Run) (g : GroupId) : List JobId :=
  (c.returned.filter (·.groupId = some g)).map (·.id.getD "")

/-- The requests whose job is still in its group's list. -/
def Run.pending (c : Run) : List BulkActionRequest :=
  c.submitted.filter fun r => r.jobId ∈ c.store.groupJobs r.jobGroupId

/-- Dequeue once per clock reading, until the answer is null. -/
def drain (rnd : Core.Rounding) (alpha : ℚ) : List Nat → Store → List JobHash × Store
  | [], s => ([], s)
  | nowMs :: nows, s =>
    match L2.dequeue rnd alpha nowMs s with
    | (s', none) => ([], s')
    | (s', some hash) => (hash :: (drain rnd alpha nows s').1, (drain rnd alpha nows s').2)

/-! ## Coverage -/

/-- A group with pending jobs is in some level's set. -/
def Covered (s : Store) : Prop := ∀ g, s.groupJobs g ≠ [] → ∃ level, g ∈ s.fairQueue level

theorem covered_enqueue {rnd : Core.Rounding} {alpha : ℚ} {req : BulkActionRequest} {nowMs : Nat} {s : Store}
    (h : Covered s) : Covered (L2.enqueue rnd alpha req nowMs s).1 := by
  intro g hg
  by_cases hgr : g = req.jobGroupId
  · exact ⟨req.priorityLevel, L2.mem_fairQueue_enqueue.mpr (.inl ⟨hgr, rfl⟩)⟩
  · rw [L2.groupJobs_enqueue_of_ne hgr] at hg
    obtain ⟨level, hl⟩ := h g hg
    exact ⟨level, L2.mem_fairQueue_enqueue.mpr (.inr hl)⟩

/-- Dropping a group with an empty list, popping a job and dropping or
rescoring its group all keep the coverage. -/
theorem covered_pass {rnd : Core.Rounding} {alpha : ℚ} {nowMs : Nat} {level : PriorityLevel} {s s' : Store}
    {r : Option JobHash} (h : Covered s) (hp : L2.dequeuePass rnd alpha nowMs level s = some (s', r)) :
    Covered s' := by
  obtain ⟨sc, g, ht, ⟨hj, -, rfl⟩ | ⟨j, rest, hj, -, rfl⟩⟩ := L2.dequeuePass_cases hp
  · intro x hx
    obtain ⟨l, hl⟩ := h x hx
    have hxg : x ≠ g := by
      rintro rfl
      exact hx hj
    refine ⟨l, ?_⟩
    by_cases hll : l = level
    · subst hll
      simp only [Function.update_self, Core.ZSet.mem_zrem]
      exact ⟨hl, hxg⟩
    · simpa only [Function.update_of_ne hll] using hl
  · intro x hx
    simp only at hx
    by_cases hxg : x = g
    · subst hxg
      rw [Function.update_self] at hx
      refine ⟨level, ?_⟩
      simp only [Function.update_self]
      rw [if_neg (by simpa using hx), Core.ZSet.mem_zadd]
      exact .inl rfl
    · rw [Function.update_of_ne hxg] at hx
      obtain ⟨l, hl⟩ := h x hx
      refine ⟨l, ?_⟩
      by_cases hll : l = level
      · subst hll
        simp only [Function.update_self]
        split
        · exact Core.ZSet.mem_zrem.mpr ⟨hl, hxg⟩
        · exact Core.ZSet.mem_zadd.mpr (.inr hl)
      · simpa only [Function.update_of_ne hll] using hl

theorem covered_dequeue {rnd : Core.Rounding} {alpha : ℚ} {nowMs : Nat} {s : Store} (h : Covered s) :
    Covered (L2.dequeue rnd alpha nowMs s).1 :=
  @L2.dequeue_ind rnd alpha nowMs Covered (fun s' _ => Covered s')
    (fun _ _ _ hc hp => covered_pass hc hp) (fun _ _ _ _ hc hp => covered_pass hc hp)
    (fun _ hc => hc) s h

/-- The two answers of `dequeue.lua`, as far as lists and hashes go. -/
theorem dequeue_answer (rnd : Core.Rounding) (alpha : ℚ) (nowMs : Nat) (s : Store) :
    (∃ s', L2.dequeue rnd alpha nowMs s = (s', none) ∧ s'.groupJobs = s.groupJobs ∧ s'.jobs = s.jobs) ∨
    ∃ g j rest s' hash, s.groupJobs g = j :: rest ∧ L2.dequeue rnd alpha nowMs s = (s', some hash) ∧
      hash = { s.jobs j with status := some .processing } ∧
      s'.groupJobs = Function.update s.groupJobs g rest ∧ s'.jobs = Function.update s.jobs j hash := by
  rcases L2.dequeue_cases rnd alpha nowMs s with ⟨queues, he⟩ | ⟨g, j, rest, queues, hj, he⟩
  · exact .inl ⟨_, he, rfl, rfl⟩
  · exact .inr ⟨g, j, rest, _, _, hj, he, rfl, rfl, rfl⟩

/-- Null is the answer exactly when nothing is pending. -/
theorem dequeue_eq_none_iff {rnd : Core.Rounding} {alpha : ℚ} {nowMs : Nat} {s : Store} (h : Covered s) :
    (L2.dequeue rnd alpha nowMs s).2 = none ↔ ∀ g, s.groupJobs g = [] := by
  constructor
  · intro hn g
    by_contra hg
    have hg' : (L2.dequeue rnd alpha nowMs s).1.groupJobs g ≠ [] := by
      rcases dequeue_answer rnd alpha nowMs s with ⟨s', he, hl, -⟩ | ⟨g', j, rest, s', hash, -, he, -⟩
      · rw [he, hl]
        exact hg
      · rw [he] at hn
        cases hn
    obtain ⟨level, hl⟩ := covered_dequeue h g hg'
    rw [Core.ZSet.mem_def, Core.ZSet.members, L2.dequeue_none hn level] at hl
    cases hl
  · intro hg
    rcases dequeue_answer rnd alpha nowMs s with ⟨s', he, -⟩ | ⟨g', j, rest, s', hash, hj, -⟩
    · rw [he]
    · rw [hg g'] at hj
      cases hj

/-! ## The invariant -/

structure Inv (c : Run) : Prop where
  covered : Covered c.store
  hashed : ∀ g, ∀ j ∈ c.store.groupJobs g,
    (c.store.jobs j).id = some j ∧ (c.store.jobs j).groupId = some g
  fifo : ∀ g, c.submittedTo g = c.returnedFrom g ++ c.store.groupJobs g
  distinct : (c.submitted.map (·.jobId)).Nodup

theorem Inv.mem_submitted {c : Run} (h : Inv c) {g : GroupId} {j : JobId}
    (hj : j ∈ c.store.groupJobs g) : ∃ r ∈ c.submitted, r.jobId = j ∧ r.jobGroupId = g := by
  have : j ∈ c.submittedTo g := h.fifo g ▸ List.mem_append_right _ hj
  obtain ⟨r, hr, rfl⟩ := List.mem_map.mp this
  obtain ⟨hr, hg⟩ := List.mem_filter.mp hr
  exact ⟨r, hr, rfl, by simpa using hg⟩

theorem Inv.nodup {c : Run} (h : Inv c) (g : GroupId) : (c.store.groupJobs g).Nodup := by
  have hs : (c.submittedTo g).Nodup := h.distinct.sublist (List.filter_sublist.map _)
  rw [h.fifo g] at hs
  exact hs.of_append_right

theorem inv_init : Inv ⟨.empty, [], []⟩ where
  covered _ hg := absurd rfl hg
  hashed _ _ hj := absurd hj List.not_mem_nil
  fifo _ := rfl
  distinct := List.nodup_nil

theorem inv_enqueue {rnd : Core.Rounding} {alpha : ℚ} {c : Run} {req : BulkActionRequest} {nowMs : Nat} (h : Inv c)
    (hf : req.jobId ∉ c.submitted.map (·.jobId)) : Inv (c.step rnd alpha (.enqueue req nowMs)) where
  covered := covered_enqueue h.covered
  hashed := by
    intro g j hj
    simp only [Run.step, L2.enqueue] at hj ⊢
    have hold : ∀ v : JobHash, j ∈ c.store.groupJobs g →
        (Function.update c.store.jobs req.jobId v j).id = some j ∧
        (Function.update c.store.jobs req.jobId v j).groupId = some g := by
      intro v hj
      obtain ⟨r, hr, rfl, -⟩ := h.mem_submitted hj
      have hne : r.jobId ≠ req.jobId := fun he => hf (he ▸ List.mem_map_of_mem hr)
      rw [Function.update_of_ne hne]
      exact h.hashed g _ hj
    by_cases hg : g = req.jobGroupId
    · subst hg
      rw [Function.update_self, List.mem_append, List.mem_singleton] at hj
      rcases hj with hj | rfl
      · exact hold _ hj
      · simp
    · rw [Function.update_of_ne hg] at hj
      exact hold _ hj
  fifo := by
    intro g
    have := h.fifo g
    simp only [Run.submittedTo, Run.returnedFrom, Run.step, L2.enqueue] at this ⊢
    by_cases hg : g = req.jobGroupId
    · subst hg
      simp [this]
    · rw [Function.update_of_ne hg, ← this]
      simp [Ne.symm hg]
  distinct := by
    simp only [Run.step, List.map_append, List.map_cons, List.map_nil]
    exact List.nodup_append.mpr ⟨h.distinct, by simp, by
      rintro a ha b hb rfl
      exact hf (List.mem_singleton.mp hb ▸ ha)⟩

theorem inv_dequeue {rnd : Core.Rounding} {alpha : ℚ} {c : Run} {nowMs : Nat} (h : Inv c) :
    Inv (c.step rnd alpha (.dequeue nowMs)) := by
  have hcov : Covered (L2.dequeue rnd alpha nowMs c.store).1 := covered_dequeue h.covered
  rcases dequeue_answer rnd alpha nowMs c.store with
    ⟨s', he, hl, hh⟩ | ⟨g, j, rest, s', hash, hj, he, hhash, hl, hh⟩
  · refine ⟨hcov, ?_, ?_, h.distinct⟩
    · simpa only [Run.step, he, hl, hh] using h.hashed
    · simpa [Run.step, he, hl, Run.submittedTo, Run.returnedFrom] using h.fifo
  · have hmem : j ∈ c.store.groupJobs g := hj ▸ List.mem_cons_self
    obtain ⟨hid, hgid⟩ := h.hashed g j hmem
    refine ⟨hcov, ?_, ?_, h.distinct⟩
    · intro g' j' hj'
      simp only [Run.step, he, hl, hh] at hj' ⊢
      have hold : j' ∈ c.store.groupJobs g' := by
        by_cases hg : g' = g
        · subst hg
          rw [Function.update_self] at hj'
          exact hj ▸ List.mem_cons_of_mem _ hj'
        · rwa [Function.update_of_ne hg] at hj'
      by_cases hjj : j' = j
      · subst hjj
        rw [Function.update_self, hhash]
        exact h.hashed g' j' hold
      · rw [Function.update_of_ne hjj]
        exact h.hashed g' j' hold
    · intro g'
      have := h.fifo g'
      simp only [Run.submittedTo, Run.returnedFrom, Run.step, he, hl] at this ⊢
      rw [this]
      by_cases hg : g' = g
      · subst hg
        simp [hhash, hgid, hid, hj]
      · simp [hhash, hgid, Ne.symm hg, Function.update_of_ne hg]

theorem inv_step {rnd : Core.Rounding} {alpha : ℚ} {c c' : Run} {op : Op} (h : Inv c)
    (hs : (fairQueueRuns rnd alpha).step c op c') : Inv c' := by
  obtain ⟨hf, rfl⟩ := hs
  cases op with
  | enqueue req nowMs => exact inv_enqueue h hf
  | dequeue nowMs => exact inv_dequeue h

theorem inv_reachable {rnd : Core.Rounding} {alpha : ℚ} {c : Run} (h : (fairQueueRuns rnd alpha).Reachable c) : Inv c :=
  Core.LTS.Inductive.reachable ⟨fun _ hc => hc ▸ inv_init, fun _ _ _ hc hs => inv_step hc hs⟩ c h

theorem reachable_step {rnd : Core.Rounding} {alpha : ℚ} {c : Run} (h : (fairQueueRuns rnd alpha).Reachable c) (op : Op)
    (hf : c.fresh op) : (fairQueueRuns rnd alpha).Reachable (c.step rnd alpha op) :=
  .step h ⟨hf, rfl⟩

/-! ## Draining -/

/-- A pop takes one job off the pending ones. -/
theorem pending_pop {rnd : Core.Rounding} {alpha : ℚ} {c : Run} {nowMs : Nat} (h : Inv c) {g : GroupId} {j : JobId}
    {rest : List JobId} (hj : c.store.groupJobs g = j :: rest)
    (he : (L2.dequeue rnd alpha nowMs c.store).1.groupJobs = Function.update c.store.groupJobs g rest) :
    (c.step rnd alpha (.dequeue nowMs)).pending.length < c.pending.length := by
  have hnd : j ∉ rest := (List.nodup_cons.mp (hj ▸ h.nodup g)).1
  have hsub : ∀ r : BulkActionRequest, r.jobId ∈ Function.update c.store.groupJobs g rest r.jobGroupId →
      r.jobId ∈ c.store.groupJobs r.jobGroupId := by
    intro r hr
    by_cases hg : r.jobGroupId = g
    · rw [hg, Function.update_self] at hr
      rw [hg, hj]
      exact List.mem_cons_of_mem _ hr
    · rwa [Function.update_of_ne hg] at hr
  have heq : (c.step rnd alpha (.dequeue nowMs)).pending = c.pending.filter
      fun r => r.jobId ∈ Function.update c.store.groupJobs g rest r.jobGroupId := by
    simp only [Run.pending, Run.step, he, List.filter_filter]
    refine List.filter_congr fun r _ => ?_
    rw [Bool.eq_iff_iff]
    simp only [Bool.and_eq_true, decide_eq_true_eq]
    exact ⟨fun hr => ⟨hr, hsub r hr⟩, fun hr => hr.1⟩
  rw [heq]
  refine List.length_filter_lt_length_iff_exists.mpr ?_
  obtain ⟨r, hr, hrj, hrg⟩ := h.mem_submitted (hj ▸ List.mem_cons_self : j ∈ c.store.groupJobs g)
  refine ⟨r, List.mem_filter.mpr ⟨hr, ?_⟩, ?_⟩
  · simp [hrj, hrg, hj]
  · simpa [hrj, hrg] using hnd

/-- With enough calls the answers are the pending jobs, each once, and nothing
is left. -/
theorem drain_spec {rnd : Core.Rounding} {alpha : ℚ} :
    ∀ (nows : List Nat) {c : Run}, Inv c → c.pending.length < nows.length →
      ((drain rnd alpha nows c.store).1.map (·.id.getD "")).Nodup ∧
      (∀ j, j ∈ (drain rnd alpha nows c.store).1.map (·.id.getD "") ↔ ∃ g, j ∈ c.store.groupJobs g) ∧
      ∀ g, (drain rnd alpha nows c.store).2.groupJobs g = [] := by
  intro nows
  induction nows with
  | nil => intro c _ hn; cases hn
  | cons nowMs nows ih =>
    intro c h hn
    have h' : Inv (c.step rnd alpha (.dequeue nowMs)) := inv_dequeue h
    rcases dequeue_answer rnd alpha nowMs c.store with
      ⟨s', he, hl, -⟩ | ⟨g, j, rest, s', hash, hj, he, hhash, hl, -⟩
    · -- null: nothing was pending
      have hempty := (dequeue_eq_none_iff h.covered).mp (congrArg Prod.snd he)
      simp only [drain, he, List.map_nil, List.not_mem_nil, false_iff, not_exists]
      exact ⟨List.nodup_nil, fun j g hj => List.not_mem_nil (hempty g ▸ hj), fun g => hl ▸ hempty g⟩
    · have hlt : (c.step rnd alpha (.dequeue nowMs)).pending.length < c.pending.length :=
        pending_pop h hj (by rw [he, hl])
      have hn' : (c.step rnd alpha (.dequeue nowMs)).pending.length < nows.length :=
        Nat.lt_of_lt_of_le hlt (Nat.le_of_lt_succ hn)
      obtain ⟨ih1, ih2, ih3⟩ := ih h' hn'
      simp only [Run.step, he, hl] at ih1 ih2 ih3
      have hid : hash.id = some j := hhash ▸ (h.hashed g j (hj ▸ List.mem_cons_self)).1
      have hjr : j ∉ rest := (List.nodup_cons.mp (hj ▸ h.nodup g)).1
      -- the popped job is pending nowhere else
      have hgone : ¬ ∃ g', j ∈ Function.update c.store.groupJobs g rest g' := by
        rintro ⟨g', hg'⟩
        by_cases hgg : g' = g
        · rw [hgg, Function.update_self] at hg'
          exact hjr hg'
        · rw [Function.update_of_ne hgg] at hg'
          have e₁ := (h.hashed g' j hg').2
          have e₂ := (h.hashed g j (hj ▸ List.mem_cons_self)).2
          exact hgg (Option.some.inj (e₁.symm.trans e₂))
      simp only [drain, he, List.map_cons, hid, Option.getD_some, List.nodup_cons, List.mem_cons]
      refine ⟨⟨fun hm => hgone ((ih2 j).mp hm), ih1⟩, fun j' => ?_, ih3⟩
      rw [ih2 j']
      constructor
      · rintro (rfl | ⟨g', hg'⟩)
        · exact ⟨g, hj ▸ List.mem_cons_self⟩
        · by_cases hgg : g' = g
          · rw [hgg, Function.update_self] at hg'
            exact ⟨g, hj ▸ List.mem_cons_of_mem _ hg'⟩
          · rw [Function.update_of_ne hgg] at hg'
            exact ⟨g', hg'⟩
      · rintro ⟨g', hg'⟩
        by_cases hgg : g' = g
        · rw [hgg, hj] at hg'
          rcases List.mem_cons.mp hg' with rfl | hr
          · exact .inl rfl
          · exact .inr ⟨g, by rwa [Function.update_self]⟩
        · exact .inr ⟨g', by rwa [Function.update_of_ne hgg]⟩

/-- Coverage and conservation, in every reachable state: a group with pending
jobs is in one of the sets; the inner loop ends by itself; null means that
everything submitted was returned; each group's jobs come back in submission
order; and dequeuing until null returns every pending job exactly once. -/
theorem coverage_and_conservation (rnd : Core.Rounding) (alpha : ℚ) (c : Run)
    (h : (fairQueueRuns rnd alpha).Reachable c) :
    (∀ g, c.store.groupJobs g ≠ [] → ∃ level, g ∈ c.store.fairQueue level) ∧
    (∀ nowMs level, ∃ n, ∀ extra,
      L2.dequeueLevel rnd alpha nowMs level (n + extra) c.store = L2.dequeueLevel rnd alpha nowMs level n c.store ∧
      ((L2.dequeueLevel rnd alpha nowMs level n c.store).2 = none →
        ((L2.dequeueLevel rnd alpha nowMs level n c.store).1.fairQueue level).entries = [])) ∧
    (∀ nowMs, (L2.dequeue rnd alpha nowMs c.store).2 = none ↔ ∀ g, c.submittedTo g = c.returnedFrom g) ∧
    (∀ g, c.submittedTo g = c.returnedFrom g ++ c.store.groupJobs g) ∧
    ∀ nows : List Nat, c.pending.length < nows.length →
      ((drain rnd alpha nows c.store).1.map (·.id.getD "")).Nodup ∧
      (∀ j, j ∈ (drain rnd alpha nows c.store).1.map (·.id.getD "") ↔ ∃ g, j ∈ c.store.groupJobs g) ∧
      ∀ g, (drain rnd alpha nows c.store).2.groupJobs g = [] := by
  have hi := inv_reachable h
  refine ⟨hi.covered, ?_, ?_, hi.fifo, fun nows hn => drain_spec nows hi hn⟩
  · intro nowMs level
    refine ⟨(c.store.fairQueue level).card + 1, fun extra => ⟨?_, fun hn => ?_⟩⟩
    · exact L2.dequeueLevel_fuel (Nat.lt_succ_self _) extra
    · exact L2.dequeueLevel_done (Nat.lt_succ_self _) (Prod.ext rfl hn)
  · intro nowMs
    rw [dequeue_eq_none_iff hi.covered]
    refine forall_congr' fun g => ?_
    rw [hi.fifo g]
    exact List.append_right_eq_self.symm

/-- Two groups at two levels, one job taken, the clock running backwards. -/
def twoGroups : Run :=
  (((Run.mk .empty [] []).step Core.binary64 10000 (.enqueue ⟨"a", "a1", "SEND_EMAIL", "null", 0, .low⟩ 9)).step
    Core.binary64 10000 (.enqueue ⟨"b", "b1", "SEND_EMAIL", "null", 5, .high⟩ 4)).step Core.binary64 10000 (.dequeue 3)

theorem twoGroups_reachable : (fairQueueRuns Core.binary64 10000).Reachable twoGroups := by
  refine reachable_step (reachable_step (reachable_step (.init rfl) _ ?_) _ ?_) _ ?_
  · decide
  · decide
  · decide

theorem coverage_and_conservation_twoGroups :
    twoGroups.submittedTo "b" = twoGroups.returnedFrom "b" ++ twoGroups.store.groupJobs "b" :=
  (coverage_and_conservation Core.binary64 10000 twoGroups twoGroups_reachable).2.2.2.1 "b"

example : twoGroups.returnedFrom "b" = ["b1"] := by decide +kernel

end NestPlayground.L5.FairQueue
