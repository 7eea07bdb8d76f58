import NestPlayground.Core.Line
import NestPlayground.L5Properties.FairQueue
import Mathlib.Data.List.Dedup

/-!
# Round robin

With `alpha = 0`, one base priority, one level and a strictly increasing clock
the scores are `basePriority - now` of the last touch, as a double (`stamp`). As
long as that tells each reading from the one before, the level's set read from
the top is a line (`Core.Line`): `dequeue` serves the first group, which goes to the end
if it has more jobs, and `enqueue` sends its group to the end *from wherever it
was*. A pending group therefore gets its turn within as many dequeues as there
are pending groups, unless a submission of its own takes it back from a better
place.
-/
namespace NestPlayground.L5.RoundRobin
open L1 FairQueue
open NestPlayground.Core (binary64)

structure Turn where
  run : Run
  /-- the last clock reading -/
  clock : Nat

def Turn.store (c : Turn) : Store := c.run.store

def nowOf : Op → Nat
  | .enqueue _ nowMs => nowMs
  | .dequeue nowMs => nowMs

def Turn.step (c : Turn) (op : Op) : Turn := ⟨c.run.step binary64 0 op, nowOf op⟩

/-- The clock moves on; requests use the common base priority and level. -/
def Admissible (basePriority : ℚ) (level : PriorityLevel) (c : Turn) (op : Op) : Prop :=
  c.clock < nowOf op ∧
    match op with
    | .enqueue req _ => req.basePriority = basePriority ∧ req.priorityLevel = level
    | .dequeue _ => True

def turns (basePriority : ℚ) (level : PriorityLevel) : Core.LTS Turn Op where
  init c := c.run = ⟨.empty, [], []⟩
  step c op c' := Admissible basePriority level c op ∧ c' = c.step op

/-- The groups with pending jobs. -/
def Turn.pendingGroups (c : Turn) : List GroupId :=
  (c.run.submitted.map (·.jobGroupId)).dedup.filter fun g => c.store.groupJobs g ≠ []

/-- The call takes the first job off `g`'s list and returns it. -/
def Takes (g : GroupId) (c : Turn) : Op → Prop
  | .enqueue _ _ => False
  | .dequeue nowMs =>
    match c.store.groupJobs g with
    | [] => False
    | j :: rest =>
      (L2.dequeue binary64 0 nowMs c.store).1.groupJobs g = rest ∧
        (L2.dequeue binary64 0 nowMs c.store).2 = some { c.store.jobs j with status := some .processing }

/-- Some call of the stretch takes a job of `g`. -/
def ServedIn (g : GroupId) : Turn → List Op → Prop
  | _, [] => False
  | c, op :: ops => Takes g c op ∨ ServedIn g (c.step op) ops

/-- A stretch of a run through which `g` has pending jobs, at most `n` groups
are pending, and every call meets `ok`. -/
def Stretch (basePriority : ℚ) (level : PriorityLevel) (ok : Turn → Op → Prop) (g : GroupId) (n : Nat) :
    Turn → List Op → Prop
  | c, [] => c.store.groupJobs g ≠ [] ∧ c.pendingGroups.length ≤ n
  | c, op :: ops =>
    (c.store.groupJobs g ≠ [] ∧ c.pendingGroups.length ≤ n) ∧ Admissible basePriority level c op ∧ ok c op ∧
      Stretch basePriority level ok g n (c.step op) ops

def isDequeue : Op → Bool
  | .enqueue _ _ => false
  | .dequeue _ => true

/-- A submission to `g` comes only when no pending group ranks behind `g`. -/
def Patient (level : PriorityLevel) (g : GroupId) (c : Turn) : Op → Prop
  | .enqueue req _ => req.jobGroupId = g → (c.store.fairQueue level).members.head? = some g
  | .dequeue _ => True

/-- Taken from `basePriority`, the reading and the one before are different doubles. -/
def Apart (basePriority : ℚ) (clock nowMs : Nat) : Prop :=
  nowMs ≤ 2 ^ 53 ∧ binary64 (basePriority - nowMs) ≠ binary64 (basePriority - clock)

/-- The calls of a stretch in which the turns of `g` come round. -/
def Orderly (basePriority : ℚ) (level : PriorityLevel) (g : GroupId) (c : Turn) (op : Op) : Prop :=
  Patient level g c op ∧ Apart basePriority c.clock (nowOf op)

/-! ## The scores -/

/-- The score that a call at `nowMs` writes. -/
def stamp (basePriority : ℚ) (nowMs : Nat) : ℚ := L2.priority binary64 0 nowMs basePriority 0 0

theorem priority_zero (nowMs : Nat) (basePriority : ℚ) (totalJobs doneJobs : Nat) :
    L2.priority binary64 0 nowMs basePriority totalJobs doneJobs = stamp basePriority nowMs := by
  simp only [stamp, L2.priority, zero_mul]

/-- No later reading has a higher score. -/
theorem stamp_le {basePriority : ℚ} {nowMs nowMs' : Nat} (h : nowMs ≤ nowMs') :
    stamp basePriority nowMs' ≤ stamp basePriority nowMs := by
  have hnow : (nowMs : ℚ) ≤ nowMs' := by exact_mod_cast h
  simp only [stamp, L2.priority, zero_mul]
  refine Core.binary64_mono (add_le_add_left (Core.binary64_mono (add_le_add_left (Core.binary64_mono ?_) _)) _)
  linarith

theorem stamp_eq {basePriority : ℚ} {nowMs : Nat} (h : nowMs ≤ 2 ^ 53) :
    stamp basePriority nowMs = binary64 (basePriority - nowMs) := by
  have hnow : binary64 (-1 * (nowMs : ℚ)) = -nowMs := by
    have := Core.binary64_intCast (n := -nowMs) (by rw [abs_neg, Nat.abs_cast]; exact_mod_cast h)
    push_cast at this
    rw [neg_one_mul, this]
  simp only [stamp, L2.priority, zero_mul, hnow, Core.binary64_zero, add_zero, Core.binary64_binary64]
  rw [neg_add_eq_sub]

/-- Readings that are apart have different scores. -/
theorem stamp_lt {basePriority : ℚ} {clock nowMs : Nat} (hlt : clock < nowMs) (h : Apart basePriority clock nowMs) :
    stamp basePriority nowMs < stamp basePriority clock := by
  refine lt_of_le_of_ne (stamp_le hlt.le) ?_
  rw [stamp_eq h.1, stamp_eq (hlt.le.trans h.1)]
  exact h.2

/-- With base priorities of an ordinary size all readings are apart. -/
theorem apart_of_le {basePriority : ℚ} {clock nowMs : Nat} (hlt : clock < nowMs)
    (h : basePriority.den = 1 ∧ |basePriority| + nowMs ≤ 2 ^ 53 ∨ |basePriority| + nowMs < 2 ^ 52) :
    Apart basePriority clock nowMs := by
  have hnow : (clock : ℚ) + 1 ≤ nowMs := by exact_mod_cast hlt
  have hclock : (0 : ℚ) ≤ clock := Nat.cast_nonneg clock
  have hbase := abs_le.mp (le_refl |basePriority|)
  refine ⟨?_, ne_of_lt ?_⟩
  · have hpow : (2 : ℚ) ^ 52 ≤ 2 ^ 53 := by norm_num
    have hpos := abs_nonneg basePriority
    have hle : (nowMs : ℚ) ≤ 2 ^ 53 := by
      rcases h with ⟨-, h⟩ | h <;> linarith
    exact_mod_cast hle
  rcases h with ⟨hden, h⟩ | h
  · -- integers, which are not rounded
    have hint : ∀ {n : Nat}, n ≤ nowMs → binary64 (basePriority - n) = basePriority - n := by
      intro n hn
      have hn' : (n : ℚ) ≤ nowMs := by exact_mod_cast hn
      have hle : |basePriority - n| ≤ 2 ^ 53 :=
        abs_le.mpr ⟨by linarith, by linarith [(Nat.cast_nonneg n : (0 : ℚ) ≤ n)]⟩
      have hcast : basePriority - n = ((basePriority.num - n : ℤ) : ℚ) := by
        rw [Int.cast_sub, Int.cast_natCast, (Rat.den_eq_one_iff _).mp hden]
      rw [hcast] at hle ⊢
      exact Core.binary64_intCast (by exact_mod_cast hle)
    rw [hint (le_refl _), hint hlt.le]
    linarith
  · have hquarter : ∀ {n : Nat}, n ≤ nowMs → |binary64 (basePriority - n) - (basePriority - n)| ≤ 1 / 4 := by
      intro n hn
      have hn' : (n : ℚ) ≤ nowMs := by exact_mod_cast hn
      exact Core.abs_binary64_sub_le
        (abs_lt.mpr ⟨by linarith, by linarith [(Nat.cast_nonneg n : (0 : ℚ) ≤ n)]⟩)
    have h₁ := abs_le.mp (hquarter (le_refl nowMs))
    have h₂ := abs_le.mp (hquarter hlt.le)
    linarith

/-- Beyond that they may have one score. -/
example : stamp (10 ^ 17) 6 = stamp (10 ^ 17) 5 := by decide +kernel

/-! ## The set is a line -/

/-- The level's set from the top. -/
def line (level : PriorityLevel) (c : Turn) : List GroupId := (c.store.fairQueue level).members.reverse

structure Inv (basePriority : ℚ) (level : PriorityLevel) (c : Turn) : Prop where
  stamped : ∀ e ∈ (c.store.fairQueue level).entries, stamp basePriority c.clock ≤ e.1
  others : ∀ l, l ≠ level → (c.store.fairQueue l).entries = []
  members : ∀ x, x ∈ c.store.fairQueue level ↔ c.store.groupJobs x ≠ []
  counted : ∀ x, c.store.groupJobs x ≠ [] → 0 < (c.store.groupMeta x).totalJobs.getD 0
  base : ∀ x, 0 < (c.store.groupMeta x).totalJobs.getD 0 →
    (c.store.groupMeta x).basePriority = some basePriority
  known : ∀ x, c.store.groupJobs x ≠ [] → x ∈ c.run.submitted.map (·.jobGroupId)

/-- The move in the line a call makes. -/
def moveOf (level : PriorityLevel) (c : Turn) : Op → Core.Line.Move GroupId
  | .enqueue req _ => .join req.jobGroupId
  | .dequeue _ =>
    match line level c with
    | [] => .serve false
    | x :: _ => .serve (decide ((c.store.groupJobs x).tail ≠ []))

section
variable {basePriority : ℚ} {level : PriorityLevel} {c : Turn}

theorem line_nodup : (line level c).Nodup := List.nodup_reverse.mpr (c.store.fairQueue level).nodup

theorem Inv.mem_line (h : Inv basePriority level c) {x : GroupId} :
    x ∈ line level c ↔ c.store.groupJobs x ≠ [] := by
  rw [line, List.mem_reverse]
  exact h.members x

theorem Inv.length_line (h : Inv basePriority level c) : (line level c).length ≤ c.pendingGroups.length := by
  refine (List.subperm_of_subset line_nodup fun x hx => ?_).length_le
  have hx' := h.mem_line.mp hx
  exact List.mem_filter.mpr ⟨List.mem_dedup.mpr (h.known x hx'), by simpa using hx'⟩

/-- Touching a group with a fresh stamp sends it to the end of the line. -/
theorem reverse_members_zadd {z : Core.ZSet GroupId ℚ} {s : ℚ} {x : GroupId} (h : ∀ e ∈ z.entries, s < e.1) :
    (z.zadd s x).members.reverse = z.members.reverse.erase x ++ [x] := by
  have hm : (z.zadd s x).members = x :: z.members.erase x := by
    rw [← Core.ZSet.members_zrem]
    simp only [Core.ZSet.members, Core.ZSet.entries_zadd_lowest h, List.map_cons]
  have hn : z.members.Nodup := z.nodup
  rw [hm, List.reverse_cons, hn.erase_eq_filter, (List.nodup_reverse.mpr hn).erase_eq_filter,
    List.filter_reverse]

theorem reverse_members_zrem {z : Core.ZSet GroupId ℚ} {x : GroupId} :
    (z.zrem x).members.reverse = z.members.reverse.erase x := by
  have hn : z.members.Nodup := z.nodup
  rw [Core.ZSet.members_zrem, hn.erase_eq_filter, (List.nodup_reverse.mpr hn).erase_eq_filter,
    List.filter_reverse]

/-- What `dequeue` does here: nothing on an empty line; else it pops a job of
the first group, which leaves the line or goes to its end. -/
theorem dequeue_line (h : Inv basePriority level c) (nowMs : Nat) :
    (line level c = [] ∧ L2.dequeue binary64 0 nowMs c.store = (c.store, none)) ∨
    ∃ x xs j rest, line level c = x :: xs ∧ c.store.groupJobs x = j :: rest ∧
      L2.dequeue binary64 0 nowMs c.store =
        ({ c.store with
            jobs := Function.update c.store.jobs j { c.store.jobs j with status := some .processing }
            groupJobs := Function.update c.store.groupJobs x rest
            fairQueue := Function.update c.store.fairQueue level
              (if rest.length = 0 then (c.store.fairQueue level).zrem x
              else (c.store.fairQueue level).zadd (stamp basePriority nowMs) x) },
          some { c.store.jobs j with status := some .processing }) := by
  rw [L2.dequeue_single h.others]
  cases ht : (c.store.fairQueue level).top with
  | none =>
    have he := Core.ZSet.top_eq_none_iff.mp ht
    exact .inl ⟨by simp [line, Core.ZSet.members, he], L2.dequeueLevel_empty _ he⟩
  | some e =>
    obtain ⟨sc, x⟩ := e
    right
    have hx : c.store.groupJobs x ≠ [] := (h.members x).mp (Core.ZSet.mem_members_of_top ht)
    obtain ⟨j, rest, hj⟩ := List.exists_cons_of_ne_nil hx
    obtain ⟨es, hes⟩ := List.getLast?_eq_some_iff.mp ht
    refine ⟨x, (es.map Prod.snd).reverse, j, rest, ?_, hj, ?_⟩
    · simp [line, Core.ZSet.members, hes]
    · refine L2.dequeueLevel_pop _ ?_
      simp only [L2.dequeuePass, ht, hj, priority_zero, h.base x (h.counted x hx), Option.getD_some]

/-- The calls move the line as `moveOf` says. -/
theorem line_step (h : Inv basePriority level c) {op : Op} (ha : Admissible basePriority level c op)
    (hapart : Apart basePriority c.clock (nowOf op)) :
    line level (c.step op) = (moveOf level c op).run (line level c) := by
  cases op with
  | enqueue req nowMs =>
    obtain ⟨hn, hb, hl⟩ := ha
    subst hl
    have hlow : ∀ e ∈ (c.store.fairQueue req.priorityLevel).entries, stamp req.basePriority nowMs < e.1 := by
      intro e he
      rw [hb]
      exact (stamp_lt hn hapart).trans_le (h.stamped e he)
    simp only [line, Turn.step, Turn.store, Run.step, L2.enqueue, Function.update_self, priority_zero,
      moveOf, Core.Line.Move.run]
    exact reverse_members_zadd hlow
  | dequeue nowMs =>
    have hn : c.clock < nowMs := ha.1
    rcases dequeue_line h nowMs with ⟨hl, he⟩ | ⟨x, xs, j, rest, hl, hj, he⟩
    · have : line level (c.step (.dequeue nowMs)) = line level c := by
        simp only [line, Turn.step, Turn.store, Run.step] at he ⊢
        rw [he]
      rw [this]
      simp only [moveOf, hl, Core.Line.Move.run]
    · have hlow : ∀ e ∈ (c.store.fairQueue level).entries, stamp basePriority nowMs < e.1 :=
        fun e hem => (stamp_lt hn hapart).trans_le (h.stamped e hem)
      have herase : (c.store.fairQueue level).members.reverse.erase x = xs := by
        have hl' : (c.store.fairQueue level).members.reverse = x :: xs := hl
        rw [hl', List.erase_cons_head]
      simp only [moveOf, hl, hj, List.tail_cons, Core.Line.Move.run]
      simp only [line, Turn.step, Turn.store, Run.step] at he ⊢
      simp only [he, Function.update_self]
      cases rest with
      | nil =>
        simp only [List.length_nil, ↓reduceIte, ne_eq, not_true_eq_false, decide_false, Bool.false_eq_true]
        rw [reverse_members_zrem]
        exact herase
      | cons j' rest =>
        simp only [List.length_cons, Nat.succ_ne_zero, ↓reduceIte, ne_eq, reduceCtorEq, not_false_eq_true,
          decide_true]
        have := reverse_members_zadd hlow (x := x)
        rw [herase] at this
        exact this

/-! ## The invariant -/

theorem inv_init {run : Run} (hr : run = ⟨.empty, [], []⟩) (clock : Nat) :
    Inv basePriority level ⟨run, clock⟩ := by
  subst hr
  exact
    { stamped := fun e he => absurd he List.not_mem_nil
      others := fun _ _ => rfl
      members := fun x => ⟨fun hx => absurd hx (Core.ZSet.notMem_empty x), fun hx => absurd rfl hx⟩
      counted := fun x hx => absurd rfl hx
      base := fun x hx => absurd hx (Nat.lt_irrefl 0)
      known := fun x hx => absurd rfl hx }

theorem inv_enqueue (h : Inv basePriority level c) {req : BulkActionRequest} {nowMs : Nat}
    (ha : Admissible basePriority level c (.enqueue req nowMs)) :
    Inv basePriority level (c.step (.enqueue req nowMs)) := by
  obtain ⟨hn, hb, hl⟩ := ha
  simp only [nowOf] at hn
  subst hl
  have hnow := @stamp_le basePriority _ _ hn.le
  constructor
  · intro e he
    simp only [Turn.step, Turn.store, Run.step, L2.enqueue, Function.update_self, priority_zero,
      Core.ZSet.mem_entries_zadd, nowOf] at he ⊢
    rcases he with rfl | ⟨he, -⟩
    · rw [hb]
    · exact hnow.trans (h.stamped e he)
  · intro l hl
    simp only [Turn.step, Turn.store, Run.step, L2.enqueue, Function.update_of_ne hl]
    exact h.others l hl
  · intro x
    simp only [Turn.step, Turn.store, Run.step, L2.enqueue, Function.update_self, Core.ZSet.mem_zadd]
    by_cases hx : x = req.jobGroupId
    · subst hx
      simp
    · rw [Function.update_of_ne hx]
      have := h.members x
      simp only [Turn.store] at this
      tauto
  · intro x hx
    simp only [Turn.step, Turn.store, Run.step, L2.enqueue] at hx ⊢
    by_cases hxg : x = req.jobGroupId
    · subst hxg
      rw [Function.update_self]
      split <;> simp
    · rw [Function.update_of_ne hxg] at hx ⊢
      exact h.counted x hx
  · intro x hx
    simp only [Turn.step, Turn.store, Run.step, L2.enqueue] at hx ⊢
    by_cases hxg : x = req.jobGroupId
    · subst hxg
      rw [Function.update_self]
      split
      · rw [hb]
      · rename_i hne
        -- not the first job of the group: the base priority is there already
        exact h.base _ (by simp only [Turn.store]; omega)
    · rw [Function.update_of_ne hxg] at hx ⊢
      exact h.base x hx
  · intro x hx
    simp only [Turn.step, Turn.store, Run.step, L2.enqueue, List.map_append, List.mem_append] at hx ⊢
    by_cases hxg : x = req.jobGroupId
    · subst hxg
      exact .inr (by simp)
    · rw [Function.update_of_ne hxg] at hx
      exact .inl (h.known x hx)

theorem inv_dequeue (h : Inv basePriority level c) {nowMs : Nat} (hn : c.clock < nowMs) :
    Inv basePriority level (c.step (.dequeue nowMs)) := by
  have hnow := @stamp_le basePriority _ _ hn.le
  rcases dequeue_line h nowMs with ⟨-, he⟩ | ⟨x, xs, j, rest, hl, hj, he⟩
  · simp only [Turn.store] at he
    have hs : (c.step (.dequeue nowMs)).store = c.store := by
      simp only [Turn.step, Turn.store, Run.step, he]
    exact
      { stamped := fun e hem => hnow.trans (h.stamped e (hs ▸ hem))
        others := hs ▸ h.others
        members := hs ▸ h.members
        counted := hs ▸ h.counted
        base := hs ▸ h.base
        known := fun x hx => h.known x (hs ▸ hx) }
  · simp only [Turn.store] at he hj
    constructor
    · intro e hem
      simp only [Turn.step, Turn.store, Run.step, he, Function.update_self, nowOf] at hem ⊢
      split at hem
      · exact hnow.trans (h.stamped e (Core.ZSet.mem_entries_zrem.mp hem).1)
      · rcases Core.ZSet.mem_entries_zadd.mp hem with rfl | ⟨hem, -⟩
        · exact le_refl _
        · exact hnow.trans (h.stamped e hem)
    · intro l hl
      simp only [Turn.step, Turn.store, Run.step, he, Function.update_of_ne hl]
      exact h.others l hl
    · intro y
      have hy := h.members y
      simp only [Turn.step, Turn.store, Run.step, he, Function.update_self] at hy ⊢
      by_cases hyx : y = x
      · subst hyx
        rw [Function.update_self]
        cases rest <;> simp
      · rw [Function.update_of_ne hyx]
        split
        · simp only [Core.ZSet.mem_zrem]
          tauto
        · simp only [Core.ZSet.mem_zadd]
          tauto
    · intro y hy
      simp only [Turn.step, Turn.store, Run.step, he] at hy ⊢
      by_cases hyx : y = x
      · subst hyx
        exact h.counted y (by simp only [Turn.store, hj]; exact List.cons_ne_nil _ _)
      · rw [Function.update_of_ne hyx] at hy
        exact h.counted y hy
    · intro y hy
      simp only [Turn.step, Turn.store, Run.step, he] at hy ⊢
      exact h.base y hy
    · intro y hy
      simp only [Turn.step, Turn.store, Run.step, he] at hy ⊢
      by_cases hyx : y = x
      · subst hyx
        exact h.known y (by simp only [Turn.store, hj]; exact List.cons_ne_nil _ _)
      · rw [Function.update_of_ne hyx] at hy
        exact h.known y hy

theorem inv_step (h : Inv basePriority level c) {op : Op} (ha : Admissible basePriority level c op) :
    Inv basePriority level (c.step op) := by
  cases op with
  | enqueue req nowMs => exact inv_enqueue h ha
  | dequeue nowMs => exact inv_dequeue h ha.1

theorem inv_reachable (h : (turns basePriority level).Reachable c) : Inv basePriority level c := by
  refine Core.LTS.Inductive.reachable ⟨fun c hc => inv_init hc c.clock, ?_⟩ c h
  rintro c op c' hc ⟨ha, rfl⟩
  exact inv_step hc ha

/-! ## Fairness -/

/-- Being first in line at a dequeue means being served by it. -/
theorem takes_of_head (h : Inv basePriority level c) {g : GroupId} {nowMs : Nat}
    (hg : (line level c).head? = some g) : Takes g c (.dequeue nowMs) := by
  rcases dequeue_line h nowMs with ⟨hl, -⟩ | ⟨x, xs, j, rest, hl, hj, he⟩
  · rw [hl] at hg
    cases hg
  · rw [hl] at hg
    cases hg
    simp only [Takes, hj, he, Function.update_self, and_self]

/-- The moves of the line along a stretch of calls. -/
def moves (level : PriorityLevel) : Turn → List Op → List (Core.Line.Move GroupId)
  | _, [] => []
  | c, op :: ops => moveOf level c op :: moves level (c.step op) ops

theorem isServe_moveOf (op : Op) : (moveOf level c op).isServe = isDequeue op := by
  cases op with
  | enqueue req nowMs => rfl
  | dequeue nowMs =>
    simp only [moveOf]
    split <;> rfl

theorem countP_moves (ops : List Op) :
    ∀ c, (moves level c ops).countP Core.Line.Move.isServe = ops.countP isDequeue := by
  induction ops with
  | nil => intro c; rfl
  | cons op ops ih =>
    intro c
    simp only [moves, List.countP_cons, ih, isServe_moveOf]

end

section
variable {basePriority : ℚ} {level : PriorityLevel} {g : GroupId} {n : Nat}

/-- An orderly stretch is a wait in the line. -/
theorem waits_of_stretch (ops : List Op) :
    ∀ {c : Turn}, Inv basePriority level c → Stretch basePriority level (Orderly basePriority level g) g n c ops →
      Core.Line.Waits g (line level c) (moves level c ops) := by
  induction ops with
  | nil =>
    intro c h hs
    exact h.mem_line.mpr hs.1
  | cons op ops ih =>
    intro c h hs
    obtain ⟨⟨hg, -⟩, ha, ⟨hp, hapart⟩, hs⟩ := hs
    refine ⟨h.mem_line.mpr hg, fun hm => ?_, ?_⟩
    · cases op with
      | enqueue req nowMs =>
        cases hm
        rw [line, List.getLast?_reverse]
        exact hp rfl
      | dequeue nowMs =>
        have := congrArg Core.Line.Move.isServe hm
        rw [isServe_moveOf] at this
        cases this
    · rw [← line_step h ha hapart]
      exact ih (inv_step h ha) hs

/-- Being served in the line is being served by the script. -/
theorem servedIn_of_served (ops : List Op) :
    ∀ {c : Turn}, Inv basePriority level c → Stretch basePriority level (Orderly basePriority level g) g n c ops →
      Core.Line.Served g (line level c) (moves level c ops) → ServedIn g c ops := by
  induction ops with
  | nil => intro c _ _ hs; exact hs
  | cons op ops ih =>
    intro c h hw hs
    obtain ⟨-, ha, ⟨-, hapart⟩, hw⟩ := hw
    rcases hs with ⟨hm, hh⟩ | hs
    · rw [isServe_moveOf] at hm
      cases op with
      | enqueue req nowMs => cases hm
      | dequeue nowMs => exact .inl (takes_of_head h hh)
    · rw [← line_step h ha hapart] at hs
      exact .inr (ih (inv_step h ha) hw hs)

end

/-- Fairness for patient groups: from any reachable state, through any stretch
in which `g` always has a pending job, at most `n` groups are pending, `g`
submits only from the last place and each reading is apart from the one before,
one of any `n` dequeues takes a job of `g`. -/
theorem served_within (basePriority : ℚ) (level : PriorityLevel) (g : GroupId) (n : Nat) (c : Turn)
    (ops : List Op) (h : (turns basePriority level).Reachable c)
    (hs : Stretch basePriority level (Orderly basePriority level g) g n c ops) (hn : n ≤ ops.countP isDequeue) :
    ServedIn g c ops := by
  have hi := inv_reachable h
  have hlen : (line level c).length ≤ n := by
    refine le_trans hi.length_line ?_
    cases ops with
    | nil => exact hs.2
    | cons op ops => exact hs.1.2
  have hserves : n ≤ (moves level c ops).countP Core.Line.Move.isServe := countP_moves ops c ▸ hn
  exact servedIn_of_served ops hi hs
    (Core.Line.served_of_waits line_nodup (waits_of_stretch ops hi hs) hlen hserves)

/-! ## Two groups -/

instance (b : ℚ) (l : PriorityLevel) (c : Turn) (op : Op) : Decidable (Admissible b l c op) :=
  match op with
  | .enqueue _ _ => inferInstanceAs (Decidable (_ ∧ _ ∧ _))
  | .dequeue _ => inferInstanceAs (Decidable (_ ∧ True))

instance (l : PriorityLevel) (g : GroupId) (c : Turn) (op : Op) : Decidable (Patient l g c op) :=
  match op with
  | .enqueue _ _ => inferInstanceAs (Decidable (_ → _))
  | .dequeue _ => inferInstanceAs (Decidable True)

instance (b : ℚ) (clock nowMs : Nat) : Decidable (Apart b clock nowMs) := inferInstanceAs (Decidable (_ ∧ _))

instance (b : ℚ) (l : PriorityLevel) (g : GroupId) (c : Turn) (op : Op) : Decidable (Orderly b l g c op) :=
  inferInstanceAs (Decidable (_ ∧ _))

instance (g : GroupId) (c : Turn) (op : Op) : Decidable (Takes g c op) :=
  match op with
  | .enqueue _ _ => inferInstanceAs (Decidable False)
  | .dequeue nowMs =>
    match h : c.store.groupJobs g with
    | [] => isFalse (by simp [Takes, h])
    | j :: rest => decidable_of_iff
        ((L2.dequeue binary64 0 nowMs c.store).1.groupJobs g = rest ∧
          (L2.dequeue binary64 0 nowMs c.store).2 = some { c.store.jobs j with status := some .processing })
        (by simp [Takes, h])

instance decServedIn (g : GroupId) : ∀ (ops : List Op) (c : Turn), Decidable (ServedIn g c ops)
  | [], _ => inferInstanceAs (Decidable False)
  | _ :: ops, _ => @instDecidableOr _ _ _ (decServedIn g ops _)

instance decStretch (b : ℚ) (l : PriorityLevel) (ok : Turn → Op → Prop) [∀ c op, Decidable (ok c op)]
    (g : GroupId) (n : Nat) : ∀ (ops : List Op) (c : Turn), Decidable (Stretch b l ok g n c ops)
  | [], _ => inferInstanceAs (Decidable (_ ∧ _))
  | _ :: ops, _ =>
    @instDecidableAnd _ _ _ (@instDecidableAnd _ _ _ (@instDecidableAnd _ _ _ (decStretch b l ok g n ops _)))

def submit (g : GroupId) (j : JobId) (nowMs : Nat) : Op := .enqueue ⟨g, j, "SEND_EMAIL", "null", 0, .normal⟩ nowMs

/-- Two jobs each, `a` submitted first. -/
def opening : Turn :=
  ((((Turn.mk ⟨.empty, [], []⟩ 0).step (submit "a" "a1" 1)).step (submit "a" "a2" 2)).step
    (submit "b" "b1" 3)).step (submit "b" "b2" 4)

theorem turns_step {b : ℚ} {l : PriorityLevel} {c : Turn} (h : (turns b l).Reachable c) (op : Op)
    (ha : Admissible b l c op) : (turns b l).Reachable (c.step op) :=
  .step h ⟨ha, rfl⟩

theorem opening_reachable : (turns 0 .normal).Reachable opening := by
  have h₀ : (turns 0 .normal).Reachable ⟨⟨.empty, [], []⟩, 0⟩ := .init rfl
  refine turns_step (turns_step (turns_step (turns_step h₀ _ ?_) _ ?_) _ ?_) _ ?_
  all_goals decide

theorem served_within_opening : ServedIn "a" opening [.dequeue 5, submit "a" "a3" 6, .dequeue 7] :=
  served_within 0 .normal "a" 2 opening _ opening_reachable
    (by decide +kernel) (by decide)

/-- Every submission of `a` takes it back behind `b`, so two dequeues in a row
serve `b` although `a` was pending all along. -/
theorem starved_by_own_submissions :
    ¬ ∀ (basePriority : ℚ) (level : PriorityLevel) (g : GroupId) (n : Nat) (c : Turn) (ops : List Op),
      (turns basePriority level).Reachable c → Stretch basePriority level (fun _ _ => True) g n c ops →
        n ≤ ops.countP isDequeue → ServedIn g c ops := by
  intro h
  have hserved := h 0 .normal "a" 2 opening [submit "a" "a3" 5, .dequeue 6, submit "a" "a4" 7, .dequeue 8]
    opening_reachable (by decide +kernel) (by decide)
  revert hserved
  decide +kernel

end NestPlayground.L5.RoundRobin
