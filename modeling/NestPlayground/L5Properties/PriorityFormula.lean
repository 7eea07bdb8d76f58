import NestPlayground.Core.LTS
import NestPlayground.L3Services.FairQueueService
import NestPlayground.L5Properties.Selection

/-!
# The three copies of the priority formula

`enqueue.lua`, `dequeue.lua` and `PriorityCalculator` compute one formula, but
`enqueue.lua` takes the base priority from the request and the other two take
it from the group's metadata, where the first request left its own. In runs of
`enqueue`, `dequeue` and `ack` that is the only difference.
-/
namespace NestPlayground.L5.PriorityFormula
open L1 L3 Selection

inductive Op where
  | enqueue (req : BulkActionRequest) (nowMs : Nat)
  | dequeue (nowMs : Nat)
  | ack (jobId : JobId) (groupId : GroupId)

def step (alpha : ℚ) (s : Store) : Op → Store
  | .enqueue req nowMs => (L2.enqueue Core.exact alpha req nowMs s).1
  | .dequeue nowMs => (L2.dequeue Core.exact alpha nowMs s).1
  | .ack jobId groupId => (L2.ack jobId groupId s).1

def scoredRuns (alpha : ℚ) : Core.LTS Store Op where
  init s := s = .empty
  step s op s' := s' = step alpha s op

/-- The group, the level and the clock reading of the score that a call writes:
`dequeue` writes that of the group it serves. -/
inductive Writes (s : Store) : Op → PriorityLevel → GroupId → Nat → Prop where
  | enqueue (req : BulkActionRequest) (nowMs : Nat) :
    Writes s (.enqueue req nowMs) req.priorityLevel req.jobGroupId nowMs
  | dequeue {level : PriorityLevel} {e : ℚ × GroupId} (nowMs : Nat) (h : Chosen s level e) :
    Writes s (.dequeue nowMs) level e.2 nowMs

/-- The score is the calculator's, on what the group's metadata holds. -/
def Agrees (alpha : ℚ) (s : Store) (level : PriorityLevel) (g : GroupId) (nowMs : Nat) : Prop :=
  ∃ basePriority totalJobs doneJobs, (s.groupMeta g).basePriority = some basePriority ∧
    (s.groupMeta g).totalJobs = some totalJobs ∧ (s.groupMeta g).doneJobs = some doneJobs ∧
    (s.fairQueue level).score g =
      some (PriorityCalculator.calculate Core.exact alpha nowMs basePriority totalJobs doneJobs)

/-- A request does not differ from the base priority stored for its group. -/
def SameBase (s : Store) : Op → Prop
  | .enqueue req _ => ∀ basePriority ∈ (s.groupMeta req.jobGroupId).basePriority, basePriority = req.basePriority
  | .dequeue _ => True
  | .ack _ _ => True

theorem priority_eq (alpha : ℚ) (nowMs : Nat) (basePriority : ℚ) (totalJobs doneJobs : Nat) :
    L2.priority Core.exact alpha nowMs basePriority totalJobs doneJobs =
      PriorityCalculator.calculate Core.exact alpha nowMs basePriority totalJobs doneJobs := rfl

/-- What the first request initialises. -/
structure Initialised (m : GroupMeta) : Prop where
  base : ∃ basePriority, m.basePriority = some basePriority
  total : ∃ n, m.totalJobs = some (n + 1)
  done : ∃ doneJobs, m.doneJobs = some doneJobs

/-- A group without a request has nothing stored but perhaps `doneJobs`, which `ack.lua` creates. -/
def Untouched (s : Store) (g : GroupId) : Prop :=
  (s.groupMeta g).basePriority = none ∧ (s.groupMeta g).totalJobs = none ∧ s.groupJobs g = []

def Inv (s : Store) : Prop := ∀ g, Untouched s g ∨ Initialised (s.groupMeta g)

section
variable {alpha : ℚ} {s : Store}

theorem Inv.initialised (h : Inv s) {g : GroupId} (hg : s.groupJobs g ≠ []) : Initialised (s.groupMeta g) :=
  (h g).resolve_left fun hu => hg hu.2.2

/-- The metadata after the group's first request. -/
theorem enqueue_first {req : BulkActionRequest} {nowMs : Nat} (h : Untouched s req.jobGroupId) :
    ((L2.enqueue Core.exact alpha req nowMs s).1.groupMeta req.jobGroupId).basePriority = some req.basePriority ∧
    ((L2.enqueue Core.exact alpha req nowMs s).1.groupMeta req.jobGroupId).totalJobs = some 1 ∧
    ((L2.enqueue Core.exact alpha req nowMs s).1.groupMeta req.jobGroupId).doneJobs = some 0 := by
  simp [L2.enqueue, h.2.1]

/-- A later request counts one more job and changes nothing else. -/
theorem enqueue_later {req : BulkActionRequest} {nowMs n : Nat}
    (h : (s.groupMeta req.jobGroupId).totalJobs = some (n + 1)) :
    (L2.enqueue Core.exact alpha req nowMs s).1.groupMeta req.jobGroupId =
      { s.groupMeta req.jobGroupId with totalJobs := some (n + 2) } := by
  simp [L2.enqueue, h]

theorem inv_enqueue {req : BulkActionRequest} {nowMs : Nat} (h : Inv s) :
    Inv (L2.enqueue Core.exact alpha req nowMs s).1 := by
  intro g
  rcases eq_or_ne g req.jobGroupId with rfl | hg
  · right
    rcases h req.jobGroupId with hu | ⟨hbase, ⟨n, hn⟩, hdone⟩
    · obtain ⟨hbase, htotal, hdone⟩ := @enqueue_first alpha s req nowMs hu
      exact ⟨⟨_, hbase⟩, ⟨0, htotal⟩, ⟨_, hdone⟩⟩
    · rw [enqueue_later hn]
      exact ⟨hbase, ⟨n + 1, rfl⟩, hdone⟩
  · have := h g
    simpa only [Untouched, L2.enqueue, Function.update_of_ne hg] using this

theorem inv_dequeue {nowMs : Nat} (h : Inv s) : Inv (L2.dequeue Core.exact alpha nowMs s).1 := by
  intro g
  rcases L2.dequeue_cases Core.exact alpha nowMs s with ⟨queues, he⟩ | ⟨g', j, remaining, queues, hj, he⟩
  · rw [he]
    exact h g
  · rw [he]
    rcases eq_or_ne g g' with rfl | hg
    · exact .inr (h.initialised (hj ▸ List.cons_ne_nil _ _))
    · have := h g
      simpa only [Untouched, Function.update_of_ne hg] using this

theorem inv_ack {jobId : JobId} {groupId : GroupId} (h : Inv s) : Inv (L2.ack jobId groupId s).1 := by
  intro g
  rcases eq_or_ne g groupId with rfl | hg
  · rcases h g with hu | hi
    · left
      simpa only [Untouched, L2.ack, Function.update_self] using hu
    · right
      simp only [L2.ack, Function.update_self]
      exact ⟨hi.base, hi.total, ⟨_, rfl⟩⟩
  · have := h g
    simpa only [Untouched, L2.ack, Function.update_of_ne hg] using this

theorem inv_reachable (hr : (scoredRuns alpha).Reachable s) : Inv s := by
  refine Core.LTS.Inductive.reachable ⟨?_, ?_⟩ s hr
  · rintro _ rfl g
    exact .inl ⟨rfl, rfl, rfl⟩
  · rintro s op _ h rfl
    cases op with
    | enqueue req nowMs => exact inv_enqueue h
    | dequeue nowMs => exact inv_dequeue h
    | ack jobId groupId => exact inv_ack h

/-- Initialised or not, the score of a request is the formula on the counters
that are stored and on the request's own base priority: a first request sees
one job whatever `doneJobs` was. -/
theorem enqueue_score {req : BulkActionRequest} {nowMs : Nat} (h : Inv s) :
    ∃ totalJobs doneJobs,
      ((L2.enqueue Core.exact alpha req nowMs s).1.groupMeta req.jobGroupId).totalJobs = some totalJobs ∧
      ((L2.enqueue Core.exact alpha req nowMs s).1.groupMeta req.jobGroupId).doneJobs = some doneJobs ∧
      ((L2.enqueue Core.exact alpha req nowMs s).1.fairQueue req.priorityLevel).score req.jobGroupId =
        some (PriorityCalculator.calculate Core.exact alpha nowMs req.basePriority totalJobs doneJobs) := by
  have hscore : ((L2.enqueue Core.exact alpha req nowMs s).1.fairQueue req.priorityLevel).score req.jobGroupId =
      some (L2.priority Core.exact alpha nowMs req.basePriority ((s.groupMeta req.jobGroupId).totalJobs.getD 0 + 1)
        ((s.groupMeta req.jobGroupId).doneJobs.getD 0)) := by
    simp only [L2.enqueue, Function.update_self, Core.ZSet.score_zadd_self]
  rw [hscore]
  rcases h req.jobGroupId with hu | ⟨-, ⟨n, hn⟩, ⟨doneJobs, hd⟩⟩
  · obtain ⟨-, htotal, hdone⟩ := @enqueue_first alpha s req nowMs hu
    refine ⟨1, 0, htotal, hdone, ?_⟩
    rw [priority_eq, hu.2.1]
    simp only [PriorityCalculator.calculate, Option.getD_none, Nat.zero_add]
    norm_num
  · rw [enqueue_later hn]
    refine ⟨n + 2, doneJobs, rfl, hd, ?_⟩
    rw [priority_eq, hn, hd]
    rfl

theorem enqueue_agrees {req : BulkActionRequest} {nowMs : Nat} (h : Inv s) :
    Agrees alpha (L2.enqueue Core.exact alpha req nowMs s).1 req.priorityLevel req.jobGroupId nowMs ↔
      SameBase s (.enqueue req nowMs) := by
  obtain ⟨totalJobs, doneJobs, htotal, hdone, hscore⟩ := @enqueue_score alpha s req nowMs h
  have hagrees : Agrees alpha (L2.enqueue Core.exact alpha req nowMs s).1 req.priorityLevel req.jobGroupId nowMs ↔
      ((L2.enqueue Core.exact alpha req nowMs s).1.groupMeta req.jobGroupId).basePriority = some req.basePriority := by
    simp only [Agrees, htotal, hdone, hscore, Option.some.injEq]
    constructor
    · rintro ⟨b, _, _, hb, rfl, rfl, he⟩
      rw [hb, PriorityCalculator.calculate_inj.mp he]
    · intro hb
      exact ⟨_, _, _, hb, rfl, rfl, rfl⟩
  rw [hagrees]
  simp only [SameBase]
  rcases h req.jobGroupId with hu | ⟨⟨b, hb⟩, ⟨n, hn⟩, -⟩
  · rw [(enqueue_first hu).1, hu.1]
    exact iff_of_true rfl (by simp)
  · rw [enqueue_later hn]
    simp [hb]

theorem dequeue_agrees {nowMs : Nat} {level : PriorityLevel} {e : ℚ × GroupId} (h : Inv s)
    (hc : Chosen s level e) (hq : e.2 ∈ (L2.dequeue Core.exact alpha nowMs s).1.fairQueue level) :
    Agrees alpha (L2.dequeue Core.exact alpha nowMs s).1 level e.2 nowMs := by
  obtain ⟨⟨b, hb⟩, ⟨n, hn⟩, ⟨doneJobs, hd⟩⟩ := h.initialised hc.pending
  rcases dequeue_outcome Core.exact alpha nowMs s with ⟨level', e', s', hash, he, hc', ht⟩ | ⟨hstale, -⟩
  · obtain ⟨rfl, rfl⟩ := hc.unique hc'
    rw [he] at hq ⊢
    have hmeta : s'.groupMeta = s.groupMeta := by rw [ht.rest]
    obtain ⟨score, hscore⟩ := Core.ZSet.mem_iff_score.mp hq
    refine ⟨b, n + 1, doneJobs, by rw [hmeta, hb], by rw [hmeta, hn], by rw [hmeta, hd], ?_⟩
    have hres := ht.rescored
    split at hres
    · rw [hscore] at hres
      cases hres
    · rw [hres, hb, hn, hd]
      rfl
  · exact absurd (hstale level e hc.mem) hc.pending

end

/-- In every run of `enqueue`, `dequeue` and `ack`: when a call leaves the group
it writes queued, the written score is the calculator's on the stored base
priority and counters, exactly if the call is not a request whose base priority
differs from the stored one. -/
theorem formulas_agree (alpha : ℚ) (s : Store) (hr : (scoredRuns alpha).Reachable s) (op : Op)
    (level : PriorityLevel) (g : GroupId) (nowMs : Nat) (hw : Writes s op level g nowMs)
    (hq : g ∈ (step alpha s op).fairQueue level) :
    Agrees alpha (step alpha s op) level g nowMs ↔ SameBase s op := by
  have hi := inv_reachable hr
  cases hw with
  | enqueue req => exact enqueue_agrees hi
  | dequeue _ hc => exact iff_of_true (dequeue_agrees hi hc hq) trivial

/-- Two jobs for one group, the first with base priority 0. -/
def twoJobs (basePriority : ℚ) : List Op :=
  [.enqueue ⟨"g", "j1", "SEND_EMAIL", "null", 0, .normal⟩ 1,
    .enqueue ⟨"g", "j2", "SEND_EMAIL", "null", basePriority, .normal⟩ 2]

theorem runs_reachable {alpha : ℚ} (ops : List Op) :
    ∀ {s : Store}, (scoredRuns alpha).Reachable s → (scoredRuns alpha).Reachable (ops.foldl (step alpha) s) := by
  induction ops with
  | nil => exact id
  | cons op ops ih => exact fun hr => ih (.step hr rfl)

theorem chosen_twoJobs : Chosen ((twoJobs 0).foldl (step 10000) .empty) .normal (-2, "g") where
  mem := by decide +kernel
  pending := by decide +kernel
  last := by decide +kernel
  highest level' := by cases level' <;> decide +kernel

theorem formulas_agree_twoJobs :
    Agrees 10000 (step 10000 ((twoJobs 0).foldl (step 10000) .empty) (.dequeue 3)) .normal "g" 3 :=
  (formulas_agree 10000 _ (runs_reachable (twoJobs 0) (.init rfl)) (.dequeue 3) .normal "g" 3
    (.dequeue 3 chosen_twoJobs) (by decide +kernel)).mpr trivial

/-- A second request with base priority 100 is scored with 100, while 0 is what is stored. -/
theorem request_base_priority : ¬ ∀ (alpha : ℚ) (s : Store), (scoredRuns alpha).Reachable s →
    ∀ op level g nowMs, Writes s op level g nowMs → g ∈ (step alpha s op).fairQueue level →
      Agrees alpha (step alpha s op) level g nowMs := by
  intro h
  obtain ⟨b, t, d, hb, ht, hd, hs⟩ := h 10000 _ (runs_reachable ((twoJobs 100).take 1) (.init rfl))
    (.enqueue ⟨"g", "j2", "SEND_EMAIL", "null", 100, .normal⟩ 2) .normal "g" 2 (.enqueue _ 2) (by decide +kernel)
  have hb' : some b = some 0 := hb.symm.trans (by decide +kernel)
  have ht' : some t = some 2 := ht.symm.trans (by decide +kernel)
  have hd' : some d = some 0 := hd.symm.trans (by decide +kernel)
  cases hb'
  cases ht'
  cases hd'
  exact absurd hs (by decide +kernel)

end NestPlayground.L5.PriorityFormula
