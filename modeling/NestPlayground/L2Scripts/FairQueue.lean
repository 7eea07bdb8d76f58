import NestPlayground.Core.Rounding
import NestPlayground.L1Model.Store

/-!
# Fair queue: `enqueue.lua`, `dequeue.lua`, `ack.lua`

A script runs alone, so each is a function of the store (and of the clock
reading `nowMs` it takes with `TIME`). The two nested loops of `dequeue.lua`
are a pass over one level's sorted set, repeated until it pops a job or the
set is empty, for the levels in turn. Each pass that pops nothing drops a
group from the set, so `card + 1` passes are enough (`dequeueLevel_done`).
-/
namespace NestPlayground.L2
open L1

/-- Lua numbers are doubles, so that the scripts run with `binary64` for `rnd`.
mirrors libs/bulk-action/src/lua/enqueue.lua:46-49 and dequeue.lua:46-49 -/
def priority (rnd : Core.Rounding) (alpha : ℚ) (nowMs : Nat) (basePriority : ℚ) (totalJobs doneJobs : Nat) : ℚ :=
  let remaining := max 1 (rnd ((totalJobs : ℚ) - doneJobs))
  let sjfBoost := rnd (alpha * rnd (-1 + rnd (totalJobs / remaining)))
  rnd (rnd (rnd (-1 * (nowMs : ℚ)) + basePriority) + sjfBoost)

/-- mirrors libs/bulk-action/src/lua/enqueue.lua:12-54 -/
def enqueue (rnd : Core.Rounding) (alpha : ℚ) (req : BulkActionRequest) (nowMs : Nat) (s : Store) : Store × (Nat × ℚ) :=
  let g := req.jobGroupId
  let m := s.groupMeta g
  let totalJobs := m.totalJobs.getD 0 + 1
  let score := priority rnd alpha nowMs req.basePriority totalJobs (m.doneJobs.getD 0)
  ({ s with
      jobs := Function.update s.jobs req.jobId
        { id := some req.jobId
          groupId := some g
          processorType := some req.jobProcessorType
          payload := some req.payload
          status := some .pending
          retryCount := some 0
          createdAt := some nowMs }
      groupJobs := Function.update s.groupJobs g (s.groupJobs g ++ [req.jobId])
      groupMeta := Function.update s.groupMeta g
        (if totalJobs = 1 then
          { m with
            totalJobs := some totalJobs
            basePriority := some req.basePriority
            priorityLevel := some req.priorityLevel
            doneJobs := some 0
            createdAt := some nowMs
            status := some .created }
        else { m with totalJobs := some totalJobs })
      fairQueue := Function.update s.fairQueue req.priorityLevel
        ((s.fairQueue req.priorityLevel).zadd score g) },
    (totalJobs, score))

/-- One pass of the inner loop over `level`'s sorted set: `none` is the `break`
(the set is empty), `some (s', none)` has dropped a group with an empty list,
`some (s', some hash)` returns a job.
mirrors libs/bulk-action/src/lua/dequeue.lua:14-59 -/
def dequeuePass (rnd : Core.Rounding) (alpha : ℚ) (nowMs : Nat) (level : PriorityLevel) (s : Store) :
    Option (Store × Option JobHash) :=
  match (s.fairQueue level).top with
  | none => none
  | some (_, g) =>
    match s.groupJobs g with
    | [] =>
      some ({ s with fairQueue := Function.update s.fairQueue level ((s.fairQueue level).zrem g) }, none)
    | j :: remaining =>
      let m := s.groupMeta g
      let hash := { s.jobs j with status := some .processing }
      let queue :=
        if remaining.length = 0 then (s.fairQueue level).zrem g
        else (s.fairQueue level).zadd
          (priority rnd alpha nowMs (m.basePriority.getD 0) (m.totalJobs.getD 0) (m.doneJobs.getD 0)) g
      some ({ s with
          jobs := Function.update s.jobs j hash
          groupJobs := Function.update s.groupJobs g remaining
          fairQueue := Function.update s.fairQueue level queue },
        some hash)

/-- The `while true` of one level, at most `fuel` passes.
mirrors libs/bulk-action/src/lua/dequeue.lua:13-61 -/
def dequeueLevel (rnd : Core.Rounding) (alpha : ℚ) (nowMs : Nat) (level : PriorityLevel) :
    Nat → Store → Store × Option JobHash
  | 0, s => (s, none)
  | fuel + 1, s =>
    match dequeuePass rnd alpha nowMs level s with
    | none => (s, none)
    | some (s', some hash) => (s', some hash)
    | some (s', none) => dequeueLevel rnd alpha nowMs level fuel s'

/-- mirrors libs/bulk-action/src/lua/dequeue.lua:11-64 -/
def dequeue (rnd : Core.Rounding) (alpha : ℚ) (nowMs : Nat) (s : Store) : Store × Option JobHash :=
  go [.high, .normal, .low] s
where
  go : List PriorityLevel → Store → Store × Option JobHash
    | [], s => (s, none)
    | level :: levels, s =>
      match dequeueLevel rnd alpha nowMs level ((s.fairQueue level).card + 1) s with
      | (s', some hash) => (s', some hash)
      | (s', none) => go levels s'

/-- `true` is the reply 1: all jobs of the group are done.
mirrors libs/bulk-action/src/lua/ack.lua:4-17 -/
def ack (jobId : JobId) (groupId : GroupId) (s : Store) : Store × Bool :=
  let m := s.groupMeta groupId
  let doneJobs := m.doneJobs.getD 0 + 1
  let complete := decide (m.totalJobs.getD 0 ≤ doneJobs)
  ({ s with
      jobs := Function.update s.jobs jobId { s.jobs jobId with status := some .completed }
      groupMeta := Function.update s.groupMeta groupId
        { m with
          doneJobs := some doneJobs
          status := if complete then some .aggregating else m.status } },
    complete)

/-! ## What `enqueue.lua` touches -/

section
variable {rnd : Core.Rounding} {alpha : ℚ} {req : BulkActionRequest} {nowMs : Nat} {s : Store} {g : GroupId}

@[simp] theorem groupJobs_enqueue_self :
    (enqueue rnd alpha req nowMs s).1.groupJobs req.jobGroupId = s.groupJobs req.jobGroupId ++ [req.jobId] :=
  Function.update_self _ _ _

theorem groupJobs_enqueue_of_ne (h : g ≠ req.jobGroupId) :
    (enqueue rnd alpha req nowMs s).1.groupJobs g = s.groupJobs g :=
  Function.update_of_ne h _ _

theorem groupMeta_enqueue_of_ne (h : g ≠ req.jobGroupId) :
    (enqueue rnd alpha req nowMs s).1.groupMeta g = s.groupMeta g :=
  Function.update_of_ne h _ _

theorem mem_fairQueue_enqueue {level : PriorityLevel} : g ∈ (enqueue rnd alpha req nowMs s).1.fairQueue level ↔
    g = req.jobGroupId ∧ level = req.priorityLevel ∨ g ∈ s.fairQueue level := by
  simp only [enqueue]
  rcases eq_or_ne level req.priorityLevel with rfl | hl
  · rw [Function.update_self, Core.ZSet.mem_zadd, and_iff_left rfl]
  · rw [Function.update_of_ne hl]
    exact (or_iff_right fun h => hl h.2).symm

end

/-! ## The passes of `dequeue.lua` -/

theorem dequeuePass_eq_none {rnd : Core.Rounding} {alpha : ℚ} {nowMs : Nat} {level : PriorityLevel} {s : Store} :
    dequeuePass rnd alpha nowMs level s = none ↔ (s.fairQueue level).entries = [] := by
  unfold dequeuePass
  rw [← Core.ZSet.top_eq_none_iff]
  split
  · rename_i h
    exact ⟨fun _ => h, fun _ => rfl⟩
  · rename_i h
    rw [h]
    constructor
    · intro hn
      split at hn <;> cases hn
    · rintro ⟨⟩

/-- What one pass can do: nothing on an empty set; otherwise it drops the
last-ranked group, whose list is empty, or pops the head of its list. -/
theorem dequeuePass_cases {rnd : Core.Rounding} {alpha : ℚ} {nowMs : Nat} {level : PriorityLevel} {s s' : Store}
    {r : Option JobHash} (h : dequeuePass rnd alpha nowMs level s = some (s', r)) :
    ∃ sc g, (s.fairQueue level).top = some (sc, g) ∧
      ((s.groupJobs g = [] ∧ r = none ∧
        s' = { s with fairQueue := Function.update s.fairQueue level ((s.fairQueue level).zrem g) }) ∨
      ∃ j remaining, s.groupJobs g = j :: remaining ∧
        r = some { s.jobs j with status := some .processing } ∧
        s' = { s with
          jobs := Function.update s.jobs j { s.jobs j with status := some .processing }
          groupJobs := Function.update s.groupJobs g remaining
          fairQueue := Function.update s.fairQueue level
            (if remaining.length = 0 then (s.fairQueue level).zrem g
            else (s.fairQueue level).zadd (priority rnd alpha nowMs ((s.groupMeta g).basePriority.getD 0)
              ((s.groupMeta g).totalJobs.getD 0) ((s.groupMeta g).doneJobs.getD 0)) g) }) := by
  unfold dequeuePass at h
  split at h
  · cases h
  · rename_i sc g ht
    refine ⟨sc, g, ht, ?_⟩
    split at h
    · rename_i hj
      cases h
      exact .inl ⟨hj, rfl, rfl⟩
    · rename_i j remaining hj
      cases h
      exact .inr ⟨j, remaining, hj, rfl, rfl⟩

/-- A pass that pops nothing shrinks the set. -/
theorem dequeuePass_card {rnd : Core.Rounding} {alpha : ℚ} {nowMs : Nat} {level : PriorityLevel} {s s' : Store}
    (h : dequeuePass rnd alpha nowMs level s = some (s', none)) :
    (s'.fairQueue level).card < (s.fairQueue level).card := by
  obtain ⟨sc, g, ht, ⟨-, -, rfl⟩ | ⟨j, rest, -, hr, -⟩⟩ := dequeuePass_cases h
  · simp only [Function.update_self]
    exact Core.ZSet.card_zrem_lt (Core.ZSet.mem_members_of_top ht)
  · cases hr

/-- The inner loop ends by itself: with `card + 1` passes it has popped a job
or emptied the set. -/
theorem dequeueLevel_done {rnd : Core.Rounding} {alpha : ℚ} {nowMs : Nat} {level : PriorityLevel} :
    ∀ {fuel : Nat} {s s' : Store}, (s.fairQueue level).card < fuel →
      dequeueLevel rnd alpha nowMs level fuel s = (s', none) → (s'.fairQueue level).entries = [] := by
  intro fuel
  induction fuel with
  | zero => intro s s' hc; omega
  | succ fuel ih =>
    intro s s' hc h
    simp only [dequeueLevel] at h
    split at h
    · rename_i hp
      cases h
      exact dequeuePass_eq_none.mp hp
    · cases h
    · rename_i s₁ hp
      refine ih ?_ h
      have := dequeuePass_card hp
      omega

/-- Enough fuel is enough: more passes change nothing. -/
theorem dequeueLevel_fuel {rnd : Core.Rounding} {alpha : ℚ} {nowMs : Nat} {level : PriorityLevel} :
    ∀ {fuel : Nat} {s : Store}, (s.fairQueue level).card < fuel → ∀ extra,
      dequeueLevel rnd alpha nowMs level (fuel + extra) s = dequeueLevel rnd alpha nowMs level fuel s := by
  intro fuel
  induction fuel with
  | zero => intro s hc; omega
  | succ fuel ih =>
    intro s hc extra
    rw [Nat.succ_add]
    simp only [dequeueLevel]
    split
    · rfl
    · rfl
    · rename_i s₁ hp
      refine ih ?_ extra
      have := dequeuePass_card hp
      omega

section Induction
variable {rnd : Core.Rounding} {alpha : ℚ} {nowMs : Nat} {P : Store → Prop} {Q : Store → Option JobHash → Prop}

/-- The rule for the loops of `dequeue.lua`: `P` is kept by passes that drop a
group, and the pass that pops a job establishes `Q`. -/
theorem dequeueLevel_ind {level : PriorityLevel}
    (hstale : ∀ s s', P s → dequeuePass rnd alpha nowMs level s = some (s', none) → P s')
    (hpop : ∀ s s' hash, P s → dequeuePass rnd alpha nowMs level s = some (s', some hash) → Q s' (some hash)) :
    ∀ {fuel : Nat} {s : Store}, P s →
      (∃ s' hash, dequeueLevel rnd alpha nowMs level fuel s = (s', some hash) ∧ Q s' (some hash)) ∨
      (∃ s', dequeueLevel rnd alpha nowMs level fuel s = (s', none) ∧ P s') := by
  intro fuel
  induction fuel with
  | zero => intro s h; exact .inr ⟨s, rfl, h⟩
  | succ fuel ih =>
    intro s h
    simp only [dequeueLevel]
    split
    · exact .inr ⟨s, rfl, h⟩
    · rename_i s' hash hp
      exact .inl ⟨s', hash, rfl, hpop s s' hash h hp⟩
    · rename_i s' hp
      exact ih (hstale s s' h hp)

theorem dequeue_ind
    (hstale : ∀ level s s', P s → dequeuePass rnd alpha nowMs level s = some (s', none) → P s')
    (hpop : ∀ level s s' hash, P s → dequeuePass rnd alpha nowMs level s = some (s', some hash) →
      Q s' (some hash))
    (hnone : ∀ s, P s → Q s none) {s : Store} (h : P s) :
    Q (dequeue rnd alpha nowMs s).1 (dequeue rnd alpha nowMs s).2 := by
  have go : ∀ levels s, P s → Q (dequeue.go rnd alpha nowMs levels s).1 (dequeue.go rnd alpha nowMs levels s).2 := by
    intro levels
    induction levels with
    | nil => intro s h; exact hnone s h
    | cons level levels ih =>
      intro s h
      simp only [dequeue.go]
      have hl := @dequeueLevel_ind rnd alpha nowMs P Q level (hstale level) (hpop level)
        ((s.fairQueue level).card + 1) s h
      rcases hl with ⟨s', hash, he, hq⟩ | ⟨s', he, hp⟩
      · rw [he]
        exact hq
      · rw [he]
        exact ih s' hp
  exact go _ s h

end Induction

/-- What `dequeue.lua` does to everything but the sorted sets: nothing, or it
pops the head of one group's list, marks that job and returns its hash. -/
theorem dequeue_cases (rnd : Core.Rounding) (alpha : ℚ) (nowMs : Nat) (s : Store) :
    (∃ queues, dequeue rnd alpha nowMs s = ({ s with fairQueue := queues }, none)) ∨
    ∃ g j remaining queues, s.groupJobs g = j :: remaining ∧
      dequeue rnd alpha nowMs s =
        ({ s with
            jobs := Function.update s.jobs j { s.jobs j with status := some .processing }
            groupJobs := Function.update s.groupJobs g remaining
            fairQueue := queues },
          some { s.jobs j with status := some .processing }) := by
  have h := @dequeue_ind rnd alpha nowMs (fun t => ∃ queues, t = { s with fairQueue := queues })
    (fun t r => (∃ queues, (t, r) = ({ s with fairQueue := queues }, none)) ∨
      ∃ g j remaining queues, s.groupJobs g = j :: remaining ∧
        (t, r) = ({ s with
            jobs := Function.update s.jobs j { s.jobs j with status := some .processing }
            groupJobs := Function.update s.groupJobs g remaining
            fairQueue := queues },
          some { s.jobs j with status := some .processing }))
    ?stale ?pop ?none s ⟨s.fairQueue, rfl⟩
  · exact h
  case stale =>
    rintro level t t' ⟨queues, rfl⟩ hp
    obtain ⟨sc, g, -, ⟨-, -, rfl⟩ | ⟨j, rest, -, hr, -⟩⟩ := dequeuePass_cases hp
    · exact ⟨_, rfl⟩
    · cases hr
  case pop =>
    rintro level t t' hash ⟨queues, rfl⟩ hp
    obtain ⟨sc, g, -, ⟨-, hr, -⟩ | ⟨j, rest, hj, hr, rfl⟩⟩ := dequeuePass_cases hp
    · cases hr
    · cases hr
      exact .inr ⟨g, j, rest, _, hj, rfl⟩
  case none =>
    rintro t ⟨queues, rfl⟩
    exact .inl ⟨queues, rfl⟩

/-- The passes over one level leave the other levels' sets alone. -/
theorem dequeueLevel_other {rnd : Core.Rounding} {alpha : ℚ} {nowMs : Nat} {level level' : PriorityLevel}
    (hne : level' ≠ level) (fuel : Nat) (s : Store) :
    (dequeueLevel rnd alpha nowMs level fuel s).1.fairQueue level' = s.fairQueue level' := by
  have hpass : ∀ t t' r, t.fairQueue level' = s.fairQueue level' →
      dequeuePass rnd alpha nowMs level t = some (t', r) → t'.fairQueue level' = s.fairQueue level' := by
    intro t t' r ht hp
    obtain ⟨sc, g, -, ⟨-, -, rfl⟩ | ⟨j, rest, -, -, rfl⟩⟩ := dequeuePass_cases hp
    · simpa only [Function.update_of_ne hne] using ht
    · simpa only [Function.update_of_ne hne] using ht
  have h := @dequeueLevel_ind rnd alpha nowMs (fun t => t.fairQueue level' = s.fairQueue level')
    (fun t _ => t.fairQueue level' = s.fairQueue level') level
    (fun t t' ht hp => hpass t t' none ht hp) (fun t t' hash ht hp => hpass t t' (some hash) ht hp)
    fuel s rfl
  rcases h with ⟨t, hash, he, h⟩ | ⟨t, he, h⟩
  · rw [he]
    exact h
  · rw [he]
    exact h

theorem go_other {rnd : Core.Rounding} {alpha : ℚ} {nowMs : Nat} {level' : PriorityLevel} :
    ∀ {levels : List PriorityLevel} (s : Store), level' ∉ levels →
      (dequeue.go rnd alpha nowMs levels s).1.fairQueue level' = s.fairQueue level' := by
  intro levels
  induction levels with
  | nil => intro s _; rfl
  | cons level levels ih =>
    intro s hl
    obtain ⟨hne, hl⟩ := not_or.mp (mt List.mem_cons.mpr hl)
    have h₁ := @dequeueLevel_other rnd alpha nowMs level level' hne ((s.fairQueue level).card + 1) s
    simp only [dequeue.go]
    split
    · rename_i he
      rw [he] at h₁
      exact h₁
    · rename_i s' he
      rw [he] at h₁
      rw [ih s' hl, h₁]

theorem go_none {rnd : Core.Rounding} {alpha : ℚ} {nowMs : Nat} :
    ∀ {levels : List PriorityLevel} {s : Store}, levels.Nodup →
      (dequeue.go rnd alpha nowMs levels s).2 = none → ∀ level ∈ levels,
        ((dequeue.go rnd alpha nowMs levels s).1.fairQueue level).entries = [] := by
  intro levels
  induction levels with
  | nil => intro s _ _ level hl; cases hl
  | cons level levels ih =>
    intro s hn h l hl
    obtain ⟨hnotin, hn⟩ := List.nodup_cons.mp hn
    simp only [dequeue.go] at h ⊢
    split at h
    · cases h
    · rename_i s' he
      rcases List.mem_cons.mp hl with rfl | hl
      · -- emptied by its own passes, untouched by the later levels'
        rw [go_other s' hnotin]
        exact dequeueLevel_done (Nat.lt_succ_self _) he
      · exact ih hn h l hl

/-- The script gives up only after it has emptied all three sets. -/
theorem dequeue_none {rnd : Core.Rounding} {alpha : ℚ} {nowMs : Nat} {s : Store}
    (h : (dequeue rnd alpha nowMs s).2 = none) (level : PriorityLevel) :
    ((dequeue rnd alpha nowMs s).1.fairQueue level).entries = [] :=
  go_none (by decide) h level (by cases level <;> decide)

theorem dequeueLevel_empty {rnd : Core.Rounding} {alpha : ℚ} {nowMs : Nat} {level : PriorityLevel} {s : Store}
    (fuel : Nat) (h : (s.fairQueue level).entries = []) : dequeueLevel rnd alpha nowMs level fuel s = (s, none) := by
  cases fuel with
  | zero => rfl
  | succ fuel => simp only [dequeueLevel, dequeuePass_eq_none.mpr h]

theorem dequeueLevel_pop {rnd : Core.Rounding} {alpha : ℚ} {nowMs : Nat} {level : PriorityLevel} {s s' : Store}
    {hash : JobHash} (fuel : Nat) (h : dequeuePass rnd alpha nowMs level s = some (s', some hash)) :
    dequeueLevel rnd alpha nowMs level (fuel + 1) s = (s', some hash) := by
  simp only [dequeueLevel, h]

/-- With the other levels empty the script is the loop of one level. -/
theorem dequeue_single {rnd : Core.Rounding} {alpha : ℚ} {nowMs : Nat} {level : PriorityLevel} {s : Store}
    (h : ∀ l, l ≠ level → (s.fairQueue l).entries = []) :
    dequeue rnd alpha nowMs s = dequeueLevel rnd alpha nowMs level ((s.fairQueue level).card + 1) s := by
  rcases hd : dequeueLevel rnd alpha nowMs level ((s.fairQueue level).card + 1) s with ⟨s', r⟩
  have h' : ∀ l, l ≠ level → (s'.fairQueue l).entries = [] := by
    intro l hl
    have hs : s'.fairQueue l = s.fairQueue l := by
      simpa only [hd] using @dequeueLevel_other rnd alpha nowMs level l hl ((s.fairQueue level).card + 1) s
    rw [hs]
    exact h l hl
  simp only [dequeue, dequeue.go]
  cases level with
  | high =>
    rw [hd]
    cases r with
    | some hash => rfl
    | none => simp only [dequeueLevel_empty _ (h' .normal (by decide)), dequeueLevel_empty _ (h' .low (by decide))]
  | normal =>
    simp only [dequeueLevel_empty _ (h .high (by decide)), hd]
    cases r with
    | some hash => rfl
    | none => simp only [dequeueLevel_empty _ (h' .low (by decide))]
  | low =>
    simp only [dequeueLevel_empty _ (h .high (by decide)), dequeueLevel_empty _ (h .normal (by decide)), hd]
    cases r <;> rfl

end NestPlayground.L2
