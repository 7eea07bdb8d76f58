import NestPlayground.L4Pipeline.Frames

/-!
# The congestion counter

`congestion:{g}:non-ready-count` is incremented by `congestion-backoff.lua`,
decremented job by job by `move-to-ready.lua` and deleted when the group
completes; the fixed backoff adds a job without counting it. `counted` says for
every call when it leaves the counters right: while all calls meet it, every
counter is the number of its group's jobs in the non-ready queue, and the first
call that does not meet it makes one wrong (`congestion_count`).
-/
namespace NestPlayground.L5.CongestionCount
open L1 L3 L4

/-- The counter, absent read as 0. -/
def counter (g : GroupId) (s : Store) : Nat := (s.congestionNonReadyCount g).getD 0

/-- The jobs of `g` in the non-ready queue. -/
def waiting (g : GroupId) (s : Store) : Nat :=
  s.nonReadyQueue.members.countP fun j => (s.jobs j).groupId = some g

def Right (s : Store) : Prop := ∀ g, counter g s = waiting g s

/-- The call leaves right counters right: the script counts a job of the group
that is not waiting yet, the fixed backoff adds none, the counter is deleted
when no job waits and is not released otherwise, and the id of a waiting job is
not taken over by another group. -/
def counted (s : Store) : Cmd → Bool
  | .congestionBackoff j g => decide (j ∉ s.nonReadyQueue ∧ (s.jobs j).groupId = some g)
  | .nonReadyAdd j => decide (j ∈ s.nonReadyQueue ∨ (s.jobs j).groupId = none)
  | .congestionDelete g => decide (∀ j ∈ s.nonReadyQueue.members, (s.jobs j).groupId ≠ some g)
  | .congestionRelease g n => decide (((counter g s : Int) - n).toNat = counter g s)
  | .enqueue req => decide (req.jobId ∈ s.nonReadyQueue → (s.jobs req.jobId).groupId = some req.jobGroupId)
  | _ => true

/-- The condition on the calls of a run. -/
def AllCounted (reg : Registry) : State → Label → Prop := onCalls reg fun c _ cmd _ => counted c.world cmd = true

instance (reg : Registry) (c : State) (l : Label) : Decidable (AllCounted reg c l) := instDecidableOnCalls reg _ c l

section Move
variable {s : Store}

theorem right_moveJob {j : JobId} (h : Right s) (hj : j ∈ s.nonReadyQueue) : Right (L2.moveJob s j) := by
  intro g
  have hz := Core.ZSet.countP_zrem hj fun k => (s.jobs k).groupId = some g
  have hg := h g
  unfold counter waiting at hg ⊢
  unfold L2.moveJob
  cases hgroup : (s.jobs j).groupId with
  | none =>
    simp only [hgroup, reduceCtorEq, decide_false, Bool.false_eq_true, if_false] at hz ⊢
    omega
  | some g' =>
    rcases eq_or_ne g' g with rfl | hne
    · simp only [hgroup, decide_true, if_true] at hz
      simp only [Function.update_self, Option.getD_some]
      omega
    · have hno : (some g' = some g) = False := by simp [hne]
      simp only [hgroup, hno, decide_false, Bool.false_eq_true, if_false] at hz
      simp only [Function.update_of_ne hne.symm]
      omega

theorem right_foldl_moveJob (js : List JobId) :
    ∀ s : Store, Right s → js.Nodup → (∀ j ∈ js, j ∈ s.nonReadyQueue) → Right (js.foldl L2.moveJob s) := by
  induction js with
  | nil => exact fun _ h _ _ => h
  | cons j js ih =>
    intro s h hn hmem
    obtain ⟨hj, hn⟩ := List.nodup_cons.mp hn
    refine ih _ (right_moveJob h (hmem j List.mem_cons_self)) hn fun k hk => ?_
    obtain ⟨_, _, he⟩ := L2.moveJob_frame s j
    rw [he]
    exact Core.ZSet.mem_zrem.mpr ⟨hmem k (List.mem_cons_of_mem _ hk), fun he => hj (he ▸ hk)⟩

end Move

section
variable {reg : Registry} {cmd : Cmd} {inp : Input} {s : Store}

/-- A call that writes no congestion counter, no member of the set and no group of a job. -/
theorem right_congr {s' : Store} (hcount : s'.congestionNonReadyCount = s.congestionNonReadyCount)
    (hset : s'.nonReadyQueue = s.nonReadyQueue) (hjobs : ∀ j, (s'.jobs j).groupId = (s.jobs j).groupId) :
    Right s' ↔ Right s := by
  unfold Right counter waiting
  simp only [hcount, hset, hjobs]

theorem waiting_zadd (s : Store) (time : Nat) (j : JobId) (g : GroupId) :
    waiting g { s with nonReadyQueue := s.nonReadyQueue.zadd time j } =
      waiting g s + if j ∈ s.nonReadyQueue then 0 else if (s.jobs j).groupId = some g then 1 else 0 := by
  unfold waiting
  rw [Core.ZSet.countP_zadd]
  simp only [decide_eq_true_eq]

/-- The job of a waiting id changes hands. -/
theorem waiting_update {j : JobId} (hj : j ∈ s.nonReadyQueue) (hash : JobHash) (g : GroupId) :
    waiting g { s with jobs := Function.update s.jobs j hash } + (if (s.jobs j).groupId = some g then 1 else 0) =
      waiting g s + if hash.groupId = some g then 1 else 0 := by
  have hold := Core.ZSet.countP_zrem hj fun k => (s.jobs k).groupId = some g
  have hnew := Core.ZSet.countP_zrem hj fun k => (Function.update s.jobs j hash k).groupId = some g
  have hrest : (s.nonReadyQueue.zrem j).members.countP (fun k => (Function.update s.jobs j hash k).groupId = some g) =
      (s.nonReadyQueue.zrem j).members.countP fun k => (s.jobs k).groupId = some g := by
    refine List.countP_congr fun k hk => ?_
    rw [Function.update_of_ne (Core.ZSet.mem_zrem.mp hk).2]
  simp only [decide_eq_true_eq, Function.update_self] at hold hnew
  unfold waiting
  simp only
  omega

/-- A call that writes the counter of `g` alone is right when it writes the number of waiting jobs. -/
theorem right_update (h : Right s) {s' : Store} (g : GroupId) (v : Nat)
    (hcount : ∀ g', counter g' s' = if g' = g then v else counter g' s)
    (hwait : ∀ g', waiting g' s' = waiting g' s) : Right s' ↔ v = waiting g s := by
  constructor
  · intro hr
    have hone := hr g
    rw [hcount, if_pos rfl, hwait] at hone
    exact hone
  · intro hv g'
    rw [hcount, hwait]
    split
    · rename_i he
      rw [he, hv]
    · exact h g'

theorem waiting_eq_zero (g : GroupId) (s : Store) :
    waiting g s = 0 ↔ ∀ j ∈ s.nonReadyQueue.members, (s.jobs j).groupId ≠ some g := by
  unfold waiting
  rw [List.countP_eq_zero]
  simp only [decide_eq_true_eq, ne_eq]

theorem right_congestionDelete (h : Right s) (g : GroupId) :
    Right (exec reg (.congestionDelete g) inp s).1 ↔ ∀ j ∈ s.nonReadyQueue.members, (s.jobs j).groupId ≠ some g := by
  rw [← waiting_eq_zero, eq_comm]
  refine right_update h g 0 (fun g' => ?_) fun _ => rfl
  simp only [counter, exec, Function.update_apply]
  split <;> rfl

theorem right_congestionRelease (h : Right s) (g : GroupId) (n : Int) :
    Right (exec reg (.congestionRelease g n) inp s).1 ↔ ((counter g s : Int) - n).toNat = counter g s := by
  rw [h g]
  refine right_update h g _ (fun g' => ?_) fun _ => rfl
  rw [← h g]
  simp only [counter, exec, L2.congestionRelease, Function.update_apply]
  split <;> rfl

theorem right_congestionBackoff (h : Right s) (j : JobId) (g : GroupId) :
    Right (exec reg (.congestionBackoff j g) inp s).1 ↔ j ∉ s.nonReadyQueue ∧ (s.jobs j).groupId = some g := by
  have hcount : ∀ g', counter g' (exec reg (.congestionBackoff j g) inp s).1 =
      if g' = g then counter g s + 1 else counter g' s := by
    intro g'
    simp only [counter, exec, L2.congestionBackoff, Function.update_apply]
    split <;> rfl
  have hwait : ∀ g', waiting g' (exec reg (.congestionBackoff j g) inp s).1 = waiting g' s +
      if j ∈ s.nonReadyQueue then 0 else if (s.jobs j).groupId = some g' then 1 else 0 :=
    fun g' => waiting_zadd s _ j g'
  constructor
  · intro hr
    have hone := hr g
    rw [hcount, hwait, if_pos rfl, h g] at hone
    by_cases hj : j ∈ s.nonReadyQueue
    · rw [if_pos hj] at hone
      omega
    · by_cases hg : (s.jobs j).groupId = some g
      · exact ⟨hj, hg⟩
      · rw [if_neg hj, if_neg hg] at hone
        omega
  · rintro ⟨hj, hg⟩ g'
    rw [hcount, hwait, if_neg hj, hg]
    rcases eq_or_ne g' g with rfl | hne
    · rw [if_pos rfl, if_pos rfl, h g']
    · rw [if_neg hne, if_neg fun he => hne (Option.some.inj he).symm, h g', Nat.add_zero]

theorem right_nonReadyAdd (h : Right s) (j : JobId) :
    Right (exec reg (.nonReadyAdd j) inp s).1 ↔ j ∈ s.nonReadyQueue ∨ (s.jobs j).groupId = none := by
  have hwait : ∀ g, waiting g (exec reg (.nonReadyAdd j) inp s).1 = waiting g s +
      if j ∈ s.nonReadyQueue then 0 else if (s.jobs j).groupId = some g then 1 else 0 :=
    fun g => waiting_zadd s _ j g
  have hcount : ∀ g, counter g (exec reg (.nonReadyAdd j) inp s).1 = waiting g s := h
  constructor
  · intro hr
    by_cases hj : j ∈ s.nonReadyQueue
    · exact .inl hj
    · right
      cases hg : (s.jobs j).groupId with
      | none => rfl
      | some g =>
        have hone := hr g
        rw [hcount, hwait, if_neg hj, if_pos hg] at hone
        omega
  · intro hcond g
    rw [hcount, hwait]
    rcases hcond with hj | hg
    · rw [if_pos hj, Nat.add_zero]
    · simp [hg]

/-- `enqueue.lua` writes the hash of its job: the id of a waiting job must stay with its group. -/
theorem right_enqueue (h : Right s) (req : BulkActionRequest) :
    Right (exec reg (.enqueue req) inp s).1 ↔
      (req.jobId ∈ s.nonReadyQueue → (s.jobs req.jobId).groupId = some req.jobGroupId) := by
  have hcount : ∀ g, counter g (exec reg (.enqueue req) inp s).1 = waiting g s := h
  by_cases hj : req.jobId ∈ s.nonReadyQueue
  · have hwait : ∀ g, waiting g (exec reg (.enqueue req) inp s).1 +
        (if (s.jobs req.jobId).groupId = some g then 1 else 0) =
          waiting g s + if some req.jobGroupId = some g then 1 else 0 := fun g => waiting_update hj _ g
    constructor
    · intro hr _
      by_contra hne
      have hone := hwait req.jobGroupId
      rw [← hr, hcount, if_neg hne, if_pos rfl] at hone
      omega
    · intro hcond g
      have hsame := hwait g
      rw [hcond hj] at hsame
      rw [hcount]
      omega
  · have hwait : ∀ g, waiting g (exec reg (.enqueue req) inp s).1 = waiting g s := by
      intro g
      refine List.countP_congr fun k hk => ?_
      have hne : k ≠ req.jobId := fun he => hj (he ▸ hk)
      simp only [exec, L2.enqueue, Function.update_of_ne hne]
    refine iff_of_true (fun g => ?_) fun hmem => absurd hmem hj
    rw [hcount, hwait]

theorem right_moveToReady (h : Right s) : Right (exec reg .moveToReady inp s).1 :=
  right_foldl_moveJob _ s h (Core.ZSet.nodup_rangeByScore _ _ _) fun _ hj => Core.ZSet.mem_of_mem_rangeByScore hj

theorem right_exec (h : Right s) : Right (exec reg cmd inp s).1 ↔ counted s cmd = true := by
  cases cmd with
  | congestionBackoff j g => exact (right_congestionBackoff h j g).trans decide_eq_true_iff.symm
  | nonReadyAdd j => exact (right_nonReadyAdd h j).trans decide_eq_true_iff.symm
  | congestionDelete g => exact (right_congestionDelete h g).trans decide_eq_true_iff.symm
  | congestionRelease g n => exact (right_congestionRelease h g n).trans decide_eq_true_iff.symm
  | enqueue req => exact (right_enqueue h req).trans decide_eq_true_iff.symm
  | moveToReady => exact iff_of_true (right_moveToReady h) rfl
  | _ =>
    refine iff_of_true ((right_congr ((beside reg _ inp s).congestion rfl) (nonReady_frame rfl) fun j => ?_).mpr h)
      rfl
    exact (jobs_sameJob rfl j).groupId

theorem right_step {c c' : State} {l : Label} (hc : Right c.world) (hs : (pipeline reg).Step c l c') :
    Right c'.world ↔ AllCounted reg c l := by
  cases hs with
  | @run i inp p cmd ok err hp hv =>
    simp only [AllCounted, onCalls, nextCall_eq hp hv]
    exact right_exec hc
  | reject | stop | spawn => exact iff_of_true hc trivial
  | @env e => cases e <;> exact iff_of_true hc trivial

/-- In every run whose calls are counted, every counter is the number of its
group's jobs in the non-ready queue; the first call that is not makes one wrong. -/
theorem congestion_count (reg : Registry) (c : State) (h : ((runs reg).restrict (AllCounted reg)).Reachable c) :
    (∀ g, counter g c.world = waiting g c.world) ∧
      ∀ l c', (pipeline reg).Step c l c' → ((∀ g, counter g c'.world = waiting g c'.world) ↔ AllCounted reg c l) := by
  have hI : ((runs reg).restrict (AllCounted reg)).Inductive fun c => Right c.world := {
    init := by
      intro c hc g
      rw [show c = initialState from hc]
      rfl
    step := by
      intro c l c' hc hs
      exact (right_step hc hs.1).mpr hs.2 }
  have hc := hI.reachable c h
  exact ⟨hc, fun l c' hs => right_step hc hs⟩

end

/-- One call a window, with or without congestion control. -/
def slow (enabled : Bool) : Registry :=
  { config := { backpressure := { globalRps := 1 }, congestion := { enabled } } }

/-- Of the two jobs of `g` one is admitted and one is parked. -/
def oneParked : List Label :=
  [.spawn (.submitBulkJobs ⟨"g", "SEND_EMAIL", [⟨"j1", "null"⟩, ⟨"j2", "null"⟩], 0, .normal⟩)] ++ runsAt 0 1 5 ++
    [.spawn .fetchCycle] ++ runsAt 1 2 10

theorem congestion_count_parked : ∃ c : State, waiting "g" c.world = 1 ∧ counter "g" c.world = 1 ∧
    ∀ l c', (pipeline (slow true)).Step c l c' →
      ((∀ g, counter g c'.world = waiting g c'.world) ↔ AllCounted (slow true) c l) := by
  obtain ⟨c, hr, hP⟩ := Core.Program.exists_of_replay (S := pipeline (slow true))
    (P := fun c : State => decide (waiting "g" c.world = 1))
    (show ((pipeline (slow true)).replay (fun c l => decide (AllCounted (slow true) c l)) initialState
      oneParked).any _ = true by decide +kernel)
  have hr' : ((runs (slow true)).restrict (AllCounted (slow true))).Reachable c :=
    Core.LTS.Reachable.weaken (fun _ _ h => of_decide_eq_true h) hr
  obtain ⟨hright, hstep⟩ := congestion_count (slow true) c hr'
  exact ⟨c, of_decide_eq_true hP, (hright "g").trans (of_decide_eq_true hP), hstep⟩

/-- With congestion control switched off the parked job is not counted. -/
theorem parked_uncounted : ¬ ∀ (reg : Registry) (c : State), (runs reg).Reachable c →
    ∀ g, counter g c.world = waiting g c.world := by
  intro h
  obtain ⟨c, hr, hP⟩ := Core.Program.exists_of_replay (S := pipeline (slow false))
    (P := fun c : State => decide (waiting "g" c.world = 1 ∧ counter "g" c.world = 0))
    (show ((pipeline (slow false)).replay (fun _ _ => true) initialState oneParked).any _ = true by decide +kernel)
  obtain ⟨hw, hc⟩ := of_decide_eq_true hP
  have heq := h (slow false) c hr.unrestrict "g"
  omega

end NestPlayground.L5.CongestionCount
