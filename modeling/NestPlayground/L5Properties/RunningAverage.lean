import NestPlayground.Core.RunningMean
import NestPlayground.L3Services.CongestionStats

/-!
# The average of the throttle counts

The stored average is a running mean whose every value passes `toFixed(2)`. Its
distance from the mean grows at most linearly with the number of counts, and
linear growth happens: an increment below 0.005 is rounded away every time.
-/
namespace NestPlayground.L5.RunningAverage
open L1 L3.CongestionStats

/-- The completed jobs of some groups with their throttle counts, one after another. -/
def recordAll (calls : List (GroupId × Nat)) : Stats :=
  calls.foldl (fun s call => recordJobCompletion call.1 call.2 s) .empty

/-- The throttle counts of a group. -/
def counts (g : GroupId) (calls : List (GroupId × Nat)) : List ℚ := (ofGroup g calls).map Nat.cast

/-- The group's fields hold the running mean, absent ones read as 0. -/
structure Tracks (r : Core.Running ℚ) (s : Stats) (g : GroupId) : Prop where
  count : (s.completedCount g).getD 0 = r.count
  avg : (s.avgThrottlePerJob g).getD 0 = r.avg

section
variable {g groupId : GroupId} {throttleCount : ℚ} {s : Stats} {r : Core.Running ℚ} {calls : List (GroupId × Nat)}

theorem Tracks.record (h : Tracks r s g) :
    Tracks (r.next (toFixed 2) throttleCount) (recordJobCompletion g throttleCount s) g := by
  constructor
  · simp only [recordJobCompletion, Function.update_self, Option.getD_some, h.count, Core.Running.next]
  · simp only [recordJobCompletion, Function.update_self, Option.getD_some, h.count, h.avg, Core.Running.next]

theorem Tracks.record_other (h : Tracks r s g) (hg : groupId ≠ g) :
    Tracks r (recordJobCompletion groupId throttleCount s) g := by
  constructor
  · simp only [recordJobCompletion, Function.update_of_ne hg.symm, h.count]
  · simp only [recordJobCompletion, Function.update_of_ne hg.symm, h.avg]

theorem counts_concat (g : GroupId) (calls : List (GroupId × Nat)) (call : GroupId × Nat) :
    counts g (calls ++ [call]) = if call.1 = g then counts g calls ++ [(call.2 : ℚ)] else counts g calls := by
  unfold counts
  rw [ofGroup_concat]
  split_ifs
  · rw [List.map_append, List.map_singleton]
  · rfl

theorem recordAll_concat (calls : List (GroupId × Nat)) (call : GroupId × Nat) :
    recordAll (calls ++ [call]) = recordJobCompletion call.1 call.2 (recordAll calls) := List.foldl_concat ..

theorem tracks_recordAll (g : GroupId) (calls : List (GroupId × Nat)) :
    Tracks (Core.running (toFixed 2) (counts g calls)) (recordAll calls) g := by
  induction calls using List.reverseRecOn with
  | nil => exact ⟨rfl, rfl⟩
  | append_singleton calls call ih =>
    rw [recordAll_concat, counts_concat]
    by_cases hg : call.1 = g
    · rw [if_pos hg, Core.running_concat, hg]
      exact ih.record
    · rw [if_neg hg]
      exact ih.record_other hg

/-- The field exists from the group's first count on. -/
theorem avgThrottlePerJob_isSome (g : GroupId) (calls : List (GroupId × Nat)) :
    ((recordAll calls).avgThrottlePerJob g).isSome ↔ ofGroup g calls ≠ [] := by
  induction calls using List.reverseRecOn with
  | nil => simp [recordAll, Stats.empty, ofGroup]
  | append_singleton calls call ih =>
    rw [recordAll_concat, ofGroup_concat]
    by_cases hg : call.1 = g
    · simp [recordJobCompletion, hg]
    · rw [if_neg hg, ← ih]
      simp only [recordJobCompletion, Function.update_of_ne (Ne.symm hg)]

theorem stored_eq_runningMean (h : ofGroup g calls ≠ []) :
    (recordAll calls).avgThrottlePerJob g = some (Core.runningMean (toFixed 2) (counts g calls)) := by
  obtain ⟨avg, havg⟩ := Option.isSome_iff_exists.mp ((avgThrottlePerJob_isSome g calls).mpr h)
  have hmean := (tracks_recordAll g calls).avg
  rw [havg, Option.getD_some] at hmean
  rw [havg, hmean]
  rfl

end

/-! ## Counts that the average never sees -/

/-- As many zeros as counts of `k`, 200 of each for every unit of `k`. -/
def lateCounts (k : Nat) : List Nat := List.replicate (200 * k) 0 ++ List.replicate (200 * k) k

theorem length_lateCounts (k : Nat) : (lateCounts k).length = 400 * k := by
  unfold lateCounts
  rw [List.length_append, List.length_replicate, List.length_replicate]
  omega

theorem map_cast_lateCounts (k : Nat) : (lateCounts k).map (Nat.cast : Nat → ℚ) =
    List.replicate (200 * k) 0 ++ List.replicate (200 * k) (k : ℚ) := by
  unfold lateCounts
  rw [List.map_append, List.map_replicate, List.map_replicate, Nat.cast_zero]

theorem toFixed_zero : toFixed 2 0 = 0 := toFixed_eq_zero le_rfl (by norm_num)

theorem runningMean_zeros (n : Nat) : Core.runningMean (toFixed 2) (List.replicate n 0) = 0 := by
  have hstuck := @Core.runningMean_append_replicate ℚ _ (toFixed 2) [] 0
  refine hstuck (fun n _ => ?_) n
  change toFixed 2 (0 + (0 - 0) / n) = 0
  rw [sub_zero, zero_div, add_zero, toFixed_zero]

/-- After 200 zeros for each unit, the counts of `k` move the average by less than half a cent. -/
theorem runningMean_lateCounts (k : Nat) :
    Core.runningMean (toFixed 2) ((lateCounts k).map Nat.cast) = 0 := by
  rw [map_cast_lateCounts, Core.runningMean_append_replicate, runningMean_zeros]
  intro n hn
  rw [List.length_replicate] at hn
  rw [runningMean_zeros, zero_add, sub_zero]
  have hpos : (0 : ℚ) < n := by exact_mod_cast Nat.zero_lt_of_lt hn
  have hlt : (200 * k : ℚ) < n := by exact_mod_cast hn
  apply toFixed_eq_zero (by positivity)
  rw [div_lt_iff₀ hpos]
  linarith

theorem mean_lateCounts {k : Nat} (hk : 0 < k) : Core.mean ((lateCounts k).map (Nat.cast : Nat → ℚ)) = k / 2 := by
  have hk : (k : ℚ) ≠ 0 := by exact_mod_cast hk.ne'
  have hsum : ((lateCounts k).map (Nat.cast : Nat → ℚ)).sum = 200 * k * k := by
    rw [map_cast_lateCounts, List.sum_append, List.sum_replicate, List.sum_replicate]
    simp
  unfold Core.mean
  rw [hsum, List.length_map, length_lateCounts]
  push_cast
  field_simp
  norm_num

/-- The stored average is within `(n + 1) / 400` of the mean of `n` counts, and
for every `k` there are `n = 400 * k` counts after which it is `n / 800` away. -/
theorem avgThrottlePerJob_error :
    (∀ (calls : List (GroupId × Nat)) (g : GroupId), ofGroup g calls ≠ [] →
      ∃ avg, (recordAll calls).avgThrottlePerJob g = some avg ∧
        |avg - Core.mean (counts g calls)| ≤ ((ofGroup g calls).length + 1) / 400) ∧
    ∀ (g : GroupId) (k : Nat), 0 < k → ∃ calls : List (GroupId × Nat), (ofGroup g calls).length = 400 * k ∧
      ∃ avg, (recordAll calls).avgThrottlePerJob g = some avg ∧
        |avg - Core.mean (counts g calls)| = (ofGroup g calls).length / 800 := by
  constructor
  · intro calls g hne
    refine ⟨_, stored_eq_runningMean hne, ?_⟩
    have hrnd (x : ℚ) : |toFixed 2 x - x| ≤ 1 / 200 := (abs_toFixed_sub_le 2 x).trans (by norm_num)
    have hbound := Core.abs_runningMean_sub_mean_le hrnd (counts g calls)
    have hlen : (counts g calls).length = (ofGroup g calls).length := List.length_map ..
    rw [hlen] at hbound
    linarith
  · intro g k hk
    refine ⟨(lateCounts k).map (Prod.mk g), ?_⟩
    have hcounts : counts g ((lateCounts k).map (Prod.mk g)) = (lateCounts k).map Nat.cast := by
      unfold counts
      rw [ofGroup_map_mk]
    have hlen := length_lateCounts k
    rw [ofGroup_map_mk]
    refine ⟨hlen, 0, ?_, ?_⟩
    · have hne : lateCounts k ≠ [] := List.ne_nil_of_length_pos (by omega)
      rw [stored_eq_runningMean (by rwa [ofGroup_map_mk]), hcounts, runningMean_lateCounts]
    · rw [hcounts, mean_lateCounts hk, zero_sub, abs_neg, abs_of_nonneg (by positivity), hlen]
      push_cast
      ring

/-- A job throttled once and one throttled twice. -/
theorem avgThrottlePerJob_error_of_two :
    ∃ avg, (recordAll [("g", 1), ("g", 2)]).avgThrottlePerJob "g" = some avg ∧
      |avg - Core.mean (counts "g" [("g", 1), ("g", 2)])| ≤ ((2 : Nat) + 1) / 400 :=
  avgThrottlePerJob_error.1 [("g", 1), ("g", 2)] "g" (by decide)

/-- Nine counts are enough to be more than a cent off: 0.68 is stored as the average of 6 by 9. -/
theorem avgThrottlePerJob_off_by_more_than_a_cent :
    ¬ ∀ (calls : List (GroupId × Nat)) (g : GroupId), ofGroup g calls ≠ [] →
      ∃ avg, (recordAll calls).avgThrottlePerJob g = some avg ∧ |avg - Core.mean (counts g calls)| ≤ 1 / 100 := by
  intro h
  obtain ⟨avg, hstored, hle⟩ :=
    h [("g", 0), ("g", 0), ("g", 0), ("g", 0), ("g", 0), ("g", 1), ("g", 0), ("g", 1), ("g", 4)] "g" (by decide)
  have havg : (recordAll [("g", 0), ("g", 0), ("g", 0), ("g", 0), ("g", 0), ("g", 1), ("g", 0), ("g", 1),
      ("g", 4)]).avgThrottlePerJob "g" = some (17 / 25) := by decide +kernel
  rw [Option.some.inj (hstored.symm.trans havg)] at hle
  revert hle
  decide +kernel

end NestPlayground.L5.RunningAverage
