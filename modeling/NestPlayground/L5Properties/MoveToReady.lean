import NestPlayground.L2Scripts.Backpressure

/-!
# What one dispatch moves

`move-to-ready.lua` takes the due entries with the least execute-at time, ties
by job id, at most `maxBatchSize` of them, to the end of the ready list
(`Moves`). Its counter updates, one per moved job, add up to one subtraction
for each group, cut off at zero.
-/
namespace NestPlayground.L5.MoveToReady
open L1 L2

/-- The job ids of the due entries that are moved, in order. -/
def batch (currentTimeMs maxBatchSize : Nat) (s : Store) : List JobId :=
  (s.nonReadyQueue.entries.take (min maxBatchSize (s.nonReadyQueue.due currentTimeMs))).map Prod.snd

/-- How many of the jobs are of group `g`. -/
def movedOf (s : Store) (js : List JobId) (g : GroupId) : Nat := js.countP fun j => (s.jobs j).groupId = some g

/-- The jobs `js`, the first in the non-ready queue, are moved. -/
structure Moves (currentTimeMs : Nat) (s : Store) (js : List JobId) (s' : Store) : Prop where
  due : ∀ e ∈ s.nonReadyQueue.entries.take js.length, e.1 ≤ currentTimeMs
  entries : s'.nonReadyQueue.entries = s.nonReadyQueue.entries.drop js.length
  ready : s'.readyQueue = s.readyQueue ++ js
  count : ∀ g, s'.congestionNonReadyCount g =
    if movedOf s js g = 0 then s.congestionNonReadyCount g
    else some ((s.congestionNonReadyCount g).getD 0 - movedOf s js g)
  stats : ∀ g, s'.congestionStats g =
    if movedOf s js g = 0 then s.congestionStats g
    else { s.congestionStats g with currentNonReadyCount := s'.congestionNonReadyCount g }
  rest : s' = { s with
    nonReadyQueue := s'.nonReadyQueue
    readyQueue := s'.readyQueue
    congestionNonReadyCount := s'.congestionNonReadyCount
    congestionStats := s'.congestionStats }

section
variable {s : Store}

/-- The decrement, with -1 put back to 0, is the truncated one. -/
theorem toNat_pred (n : Nat) : ((n : Int) - 1).toNat = n - 1 := by
  omega

/-- One move counts its job's group down. -/
theorem moveJob_books (j : JobId) (g : GroupId) :
    (moveJob s j).congestionNonReadyCount g =
      (if (s.jobs j).groupId = some g then some ((s.congestionNonReadyCount g).getD 0 - 1)
      else s.congestionNonReadyCount g) ∧
    (moveJob s j).congestionStats g =
      if (s.jobs j).groupId = some g then
        { s.congestionStats g with currentNonReadyCount := some ((s.congestionNonReadyCount g).getD 0 - 1) }
      else s.congestionStats g := by
  unfold moveJob
  cases (s.jobs j).groupId with
  | none => exact ⟨rfl, rfl⟩
  | some g' =>
    simp only [toNat_pred, Option.some.injEq]
    rcases eq_or_ne g' g with rfl | hne
    · simp only [Function.update_self, if_true, and_self]
    · simp only [Function.update_of_ne hne.symm, if_neg hne, and_self]

theorem moveJob_jobs (j : JobId) : (moveJob s j).jobs = s.jobs := by
  obtain ⟨counts, stats, he⟩ := moveJob_frame s j
  rw [he]

/-- The moves of a batch count each group down by the number of its jobs. -/
theorem foldl_moveJob_books (js : List JobId) (g : GroupId) : ∀ s : Store,
    (js.foldl moveJob s).congestionNonReadyCount g =
      (if movedOf s js g = 0 then s.congestionNonReadyCount g
      else some ((s.congestionNonReadyCount g).getD 0 - movedOf s js g)) ∧
    (js.foldl moveJob s).congestionStats g =
      if movedOf s js g = 0 then s.congestionStats g
      else { s.congestionStats g with currentNonReadyCount := (js.foldl moveJob s).congestionNonReadyCount g } := by
  induction js with
  | nil => exact fun _ => ⟨rfl, rfl⟩
  | cons j js ih =>
    intro s
    obtain ⟨hcount, hstats⟩ := ih (moveJob s j)
    obtain ⟨hcount₁, hstats₁⟩ := @moveJob_books s j g
    have hmoved : movedOf (moveJob s j) js g = movedOf s js g := by
      simp only [movedOf, moveJob_jobs]
    have hcons : movedOf s (j :: js) g = movedOf s js g + if (s.jobs j).groupId = some g then 1 else 0 := by
      simp only [movedOf, List.countP_cons, decide_eq_true_eq]
    rw [hmoved] at hcount hstats
    rw [List.foldl_cons, hstats, hcount, hcount₁, hstats₁, hcons]
    by_cases hg : (s.jobs j).groupId = some g
    · -- counted down once here and `movedOf s js g` times by the rest
      simp only [if_pos hg, Nat.add_one_ne_zero, if_false, Option.getD_some]
      split
      · rename_i hz
        simp only [hz, Nat.zero_add, and_self]
      · have hsub : (s.congestionNonReadyCount g).getD 0 - 1 - movedOf s js g =
            (s.congestionNonReadyCount g).getD 0 - (movedOf s js g + 1) := by omega
        simp only [hsub, and_self]
    · simp only [if_neg hg, Nat.add_zero, and_self]

end

/-- For every database, clock reading and batch size: the first due entries, at
most `maxBatchSize`, are moved in order, the books of their groups follow,
nothing else changes, and the reply is their number. -/
theorem move_to_ready (currentTimeMs maxBatchSize : Nat) (s : Store) :
    (batch currentTimeMs maxBatchSize s).length = min maxBatchSize (s.nonReadyQueue.due currentTimeMs) ∧
    Moves currentTimeMs s (batch currentTimeMs maxBatchSize s) (moveToReady currentTimeMs maxBatchSize s).1 ∧
    (moveToReady currentTimeMs maxBatchSize s).2 = (batch currentTimeMs maxBatchSize s).length := by
  have hbatch : s.nonReadyQueue.rangeByScore currentTimeMs maxBatchSize = batch currentTimeMs maxBatchSize s :=
    Core.ZSet.rangeByScore_eq_take _ _ _
  have hlen : (batch currentTimeMs maxBatchSize s).length = min maxBatchSize (s.nonReadyQueue.due currentTimeMs) := by
    rw [← hbatch, Core.ZSet.length_rangeByScore]
  refine ⟨hlen, ?_, by simp only [moveToReady, hbatch]⟩
  simp only [moveToReady, hbatch]
  obtain ⟨counts, stats, he⟩ := foldl_moveJob_frame (batch currentTimeMs maxBatchSize s) s
  refine ⟨fun e h => ?_, ?_, ?_, fun g => ?_, fun g => ?_, ?_⟩
  · rw [hlen] at h
    exact Core.ZSet.le_of_mem_take_due (Nat.min_le_right _ _) h
  · rw [he, hlen, ← hbatch]
    exact Core.ZSet.entries_foldl_zrem_rangeByScore _ _ _
  · rw [he]
  · exact (foldl_moveJob_books _ g s).1
  · exact (foldl_moveJob_books _ g s).2
  · rw [he]

end NestPlayground.L5.MoveToReady
