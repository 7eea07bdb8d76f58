import NestPlayground.Core.Slice
import NestPlayground.L1Model.Types
import Mathlib.Algebra.Order.Round
import Mathlib.Data.NNRat.Floor
import Mathlib.Data.Rat.Floor

/-!
# Congestion statistics

`CongestionStatsService` over the three things it stores for a group. Numbers
and snapshots are kept as what their texts in Redis say: JSON and decimal
digits are read back as they were written.
-/
namespace NestPlayground.L3.CongestionStats
open L1

/-- mirrors libs/bulk-action/src/congestion/dto/CongestionSnapshotDto.ts:1-6 -/
structure CongestionSnapshot where
  nonReadyCount : ℚ
  rateLimitSpeed : ℚ
  backoffMs : ℚ
  timestamp : ℚ
  deriving DecidableEq, Repr

/-- The counter `congestionCompletedCount`, the field `avgThrottlePerJob` of the
hash `congestionStats` and the list `congestionHistory`, by group. -/
structure Stats where
  completedCount : GroupId → Option Nat
  avgThrottlePerJob : GroupId → Option ℚ
  history : GroupId → List CongestionSnapshot

def Stats.empty : Stats where
  completedCount _ := none
  avgThrottlePerJob _ := none
  history _ := []

/-- `x.toFixed(digits)` read as a number: of two nearest decimals it takes the
one further from zero. -/
def toFixed (digits : Nat) (x : ℚ) : ℚ :=
  if x < 0 then -(round (-x * 10 ^ digits) / 10 ^ digits) else round (x * 10 ^ digits) / 10 ^ digits

/-- mirrors libs/bulk-action/src/congestion/CongestionStatsService.ts:20-22 -/
def maxHistoryLength (statsRetentionMs : ℚ≥0) : Nat := ⌊statsRetentionMs / 1000⌋₊

/-- mirrors libs/bulk-action/src/congestion/CongestionStatsService.ts:24-47 -/
def recordJobCompletion (groupId : GroupId) (throttleCount : ℚ) (s : Stats) : Stats :=
  let completedCount := Function.update s.completedCount groupId (some ((s.completedCount groupId).getD 0 + 1))
  let completed := (completedCount groupId).getD 1
  let prevAvg := (s.avgThrottlePerJob groupId).getD 0
  let newAvg := prevAvg + (throttleCount - prevAvg) / completed
  { s with
    completedCount
    avgThrottlePerJob := Function.update s.avgThrottlePerJob groupId (some (toFixed 2 newAvg)) }

/-- mirrors libs/bulk-action/src/congestion/CongestionStatsService.ts:49-57 -/
def snapshotCongestion (statsRetentionMs : ℚ≥0) (groupId : GroupId) (snapshot : CongestionSnapshot)
    (s : Stats) : Stats :=
  let appended := s.history groupId ++ [snapshot]
  let trimmed := Core.slice appended (-(maxHistoryLength statsRetentionMs : Int)) (-1)
  { s with history := Function.update s.history groupId trimmed }

/-- mirrors libs/bulk-action/src/congestion/CongestionStatsService.ts:59-67 -/
def getCongestionHistory (groupId : GroupId) (limit : Nat) (s : Stats) : List CongestionSnapshot :=
  Core.slice (s.history groupId) (-(limit : Int)) (-1)

/-- What the calls for one group passed. -/
def ofGroup {α : Type} (g : GroupId) (calls : List (GroupId × α)) : List α := (calls.filter (·.1 = g)).map Prod.snd

theorem ofGroup_concat {α : Type} (g : GroupId) (calls : List (GroupId × α)) (call : GroupId × α) :
    ofGroup g (calls ++ [call]) = if call.1 = g then ofGroup g calls ++ [call.2] else ofGroup g calls := by
  unfold ofGroup
  rw [List.filter_append, List.map_append]
  split_ifs with h <;> simp [h]

theorem ofGroup_map_mk {α : Type} (g : GroupId) (xs : List α) : ofGroup g (xs.map (Prod.mk g)) = xs := by
  unfold ofGroup
  rw [List.filter_eq_self.mpr (by simp), List.map_map]
  exact List.map_id xs

/-! ## toFixed -/

theorem abs_toFixed_sub_le (digits : Nat) (x : ℚ) : |toFixed digits x - x| ≤ 1 / (2 * 10 ^ digits) := by
  have key (y : ℚ) : |round (y * 10 ^ digits) / 10 ^ digits - y| ≤ 1 / (2 * 10 ^ digits) := by
    have hpos : (0 : ℚ) < 10 ^ digits := by positivity
    have hround := abs_sub_round (y * 10 ^ digits)
    rw [abs_sub_comm] at hround
    calc |round (y * 10 ^ digits) / 10 ^ digits - y|
        = |(round (y * 10 ^ digits) - y * 10 ^ digits : ℚ)| / 10 ^ digits := by
          rw [← abs_of_pos hpos, ← abs_div, abs_of_pos hpos, sub_div, mul_div_cancel_right₀ y hpos.ne']
      _ ≤ 1 / 2 / 10 ^ digits := div_le_div_of_nonneg_right hround hpos.le
      _ = 1 / (2 * 10 ^ digits) := div_div _ _ _
  unfold toFixed
  split_ifs with hx
  · rw [← abs_neg, neg_sub, sub_neg_eq_add, add_comm, ← sub_neg_eq_add]
    exact key (-x)
  · exact key x

/-- Less than half a unit is lost. -/
theorem toFixed_eq_zero {digits : Nat} {x : ℚ} (h0 : 0 ≤ x) (h : x < 1 / (2 * 10 ^ digits)) : toFixed digits x = 0 := by
  have hpos : (0 : ℚ) < 10 ^ digits := by positivity
  have hround : round (x * 10 ^ digits) = 0 := by
    rw [round_eq_zero_iff]
    constructor
    · exact le_trans (by norm_num) (mul_nonneg h0 hpos.le)
    · rwa [← div_div, lt_div_iff₀ hpos] at h
  unfold toFixed
  rw [if_neg h0.not_gt, hround, Int.cast_zero, zero_div]

end NestPlayground.L3.CongestionStats
