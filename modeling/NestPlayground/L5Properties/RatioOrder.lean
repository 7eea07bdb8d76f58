import NestPlayground.L3Services.FairQueueService
import Mathlib.Order.Compare
import Mathlib.Order.Monotone.Monovary
import Mathlib.Algebra.Order.Field.Basic
import Mathlib.Tactic.FieldSimp

/-!
# The completion ratio decides the boost

Below its total the boost of a group is a function of `doneJobs / totalJobs`,
increasing or decreasing with the sign of `alpha`. From `totalJobs - 1` on the
remaining count is clamped to 1 and the score no longer moves.
-/
namespace NestPlayground.L5.RatioOrder
open L3

def completionRatio (totalJobs doneJobs : Nat) : ℚ := doneJobs / totalJobs

/-- The score as a function of the completion ratio. -/
def scoreAt (alpha nowMs basePriority ratio : ℚ) : ℚ := basePriority - nowMs + alpha * ((1 - ratio)⁻¹ - 1)

section
variable {alpha nowMs basePriority : ℚ} {totalJobs doneJobs : Nat}

theorem completionRatio_lt_one (h : doneJobs < totalJobs) : completionRatio totalJobs doneJobs < 1 := by
  have ht : (0 : ℚ) < totalJobs := by exact_mod_cast Nat.zero_lt_of_lt h
  have hd : (doneJobs : ℚ) < totalJobs := by exact_mod_cast h
  unfold completionRatio
  rwa [div_lt_one ht]

theorem strictMonoOn_inv_one_sub : StrictMonoOn (fun r : ℚ => (1 - r)⁻¹) (Set.Iio 1) := by
  intro r _ r' hr' hlt
  have hpos : 0 < 1 - r' := sub_pos.mpr hr'
  exact inv_strictAnti₀ hpos (sub_lt_sub_left hlt 1)

theorem strictMonoOn_scoreAt (h : 0 < alpha) : StrictMonoOn (scoreAt alpha nowMs basePriority) (Set.Iio 1) := by
  intro r hr r' hr' hlt
  have hinv := strictMonoOn_inv_one_sub hr hr' hlt
  exact add_lt_add_right (mul_lt_mul_of_pos_left (sub_lt_sub_right hinv 1) h) _

theorem strictAntiOn_scoreAt (h : alpha < 0) : StrictAntiOn (scoreAt alpha nowMs basePriority) (Set.Iio 1) := by
  intro r hr r' hr' hlt
  have hinv := strictMonoOn_inv_one_sub hr hr' hlt
  exact add_lt_add_right (mul_lt_mul_of_neg_left (sub_lt_sub_right hinv 1) h) _

/-- While jobs remain, the score is that of the ratio: the size of the group cancels. -/
theorem calculate_eq_scoreAt (h : doneJobs < totalJobs) :
    PriorityCalculator.calculate Core.exact alpha nowMs basePriority totalJobs doneJobs =
      scoreAt alpha nowMs basePriority (completionRatio totalJobs doneJobs) := by
  have ht : (totalJobs : ℚ) ≠ 0 := by exact_mod_cast Nat.ne_zero_of_lt h
  have hremaining : (1 : ℚ) ≤ totalJobs - doneJobs := by
    rw [le_sub_iff_add_le]
    exact_mod_cast Nat.one_add_le_iff.mpr h
  have hratio : (1 - completionRatio totalJobs doneJobs)⁻¹ = totalJobs / (totalJobs - doneJobs : ℚ) := by
    unfold completionRatio
    rw [one_sub_div ht, inv_div]
  simp only [PriorityCalculator.calculate, Core.exact_apply, scoreAt, max_eq_right hremaining, hratio]
  ring

/-- The clamped remaining count. -/
theorem calculate_eq_clamped (h : totalJobs - 1 ≤ doneJobs) :
    PriorityCalculator.calculate Core.exact alpha nowMs basePriority totalJobs doneJobs =
      basePriority - nowMs + alpha * (totalJobs - 1) := by
  have hremaining : (totalJobs : ℚ) - doneJobs ≤ 1 := by
    rw [sub_le_iff_le_add]
    exact_mod_cast Nat.sub_le_iff_le_add'.mp h
  simp only [PriorityCalculator.calculate, Core.exact_apply, max_eq_left hremaining]
  ring

/-- The boost divided by `alpha` grows with the jobs done, on both sides of the clamp. -/
theorem monotone_share (totalJobs : Nat) :
    Monotone fun doneJobs : Nat => (totalJobs : ℚ) / max 1 (totalJobs - doneJobs : ℚ) := by
  intro d d' hle
  have hcast : (d : ℚ) ≤ d' := by exact_mod_cast hle
  have hremaining : max 1 ((totalJobs : ℚ) - d') ≤ max 1 ((totalJobs : ℚ) - d) :=
    max_le_max_left 1 (sub_le_sub_left hcast _)
  exact div_le_div_of_nonneg_left (Nat.cast_nonneg _) (lt_max_of_lt_left one_pos) hremaining

theorem monotone_calculate (h : 0 ≤ alpha) : Monotone fun doneJobs : Nat =>
    PriorityCalculator.calculate Core.exact alpha nowMs basePriority totalJobs doneJobs := by
  intro d d' hle
  have hshare := monotone_share totalJobs hle
  exact add_le_add_right (mul_le_mul_of_nonneg_left (add_le_add_right hshare _) h) _

theorem antitone_calculate (h : alpha ≤ 0) : Antitone fun doneJobs : Nat =>
    PriorityCalculator.calculate Core.exact alpha nowMs basePriority totalJobs doneJobs := by
  intro d d' hle
  have hshare := monotone_share totalJobs hle
  exact add_le_add_right (mul_le_mul_of_nonpos_left (add_le_add_right hshare _) h) _

end

/-- With the clock and the base priority the same, two groups with jobs left are
ordered by their completion ratios, whatever their sizes. Within one group the
score follows the jobs done and stands still from `totalJobs - 1` on. -/
theorem ratio_orders_scores (alpha nowMs basePriority : ℚ) :
    (∀ totalA doneA totalB doneB : Nat, doneA < totalA → doneB < totalB →
      (0 < alpha →
        cmp (PriorityCalculator.calculate Core.exact alpha nowMs basePriority totalA doneA)
            (PriorityCalculator.calculate Core.exact alpha nowMs basePriority totalB doneB) =
          cmp (completionRatio totalA doneA) (completionRatio totalB doneB)) ∧
      (alpha < 0 →
        cmp (PriorityCalculator.calculate Core.exact alpha nowMs basePriority totalA doneA)
            (PriorityCalculator.calculate Core.exact alpha nowMs basePriority totalB doneB) =
          cmp (completionRatio totalB doneB) (completionRatio totalA doneA))) ∧
    ∀ totalJobs : Nat, 1 ≤ totalJobs →
      (0 ≤ alpha → Monotone fun doneJobs : Nat =>
        PriorityCalculator.calculate Core.exact alpha nowMs basePriority totalJobs doneJobs) ∧
      (alpha ≤ 0 → Antitone fun doneJobs : Nat =>
        PriorityCalculator.calculate Core.exact alpha nowMs basePriority totalJobs doneJobs) ∧
      ∀ doneJobs : Nat, totalJobs - 1 ≤ doneJobs →
        PriorityCalculator.calculate Core.exact alpha nowMs basePriority totalJobs doneJobs =
          basePriority - nowMs + alpha * (totalJobs - 1) := by
  constructor
  · intro totalA doneA totalB doneB hA hB
    rw [calculate_eq_scoreAt hA, calculate_eq_scoreAt hB]
    have hrA := completionRatio_lt_one hA
    have hrB := completionRatio_lt_one hB
    exact ⟨fun h => (strictMonoOn_scoreAt h).cmp_map_eq hrA hrB,
      fun h => (strictAntiOn_scoreAt h).cmp_map_eq hrA hrB⟩
  · intro totalJobs _
    exact ⟨monotone_calculate, antitone_calculate, fun _ => calculate_eq_clamped⟩

/-- One of two jobs and two of four are level; of the groups with one job done, the smaller leads. -/
theorem ratio_orders_scores_halves :
    cmp (PriorityCalculator.calculate Core.exact 10000 5 0 (2 : Nat) (1 : Nat))
        (PriorityCalculator.calculate Core.exact 10000 5 0 (4 : Nat) (2 : Nat)) = .eq ∧
    cmp (PriorityCalculator.calculate Core.exact 10000 5 0 (2 : Nat) (1 : Nat))
        (PriorityCalculator.calculate Core.exact 10000 5 0 (4 : Nat) (1 : Nat)) = .gt := by
  have h := (ratio_orders_scores 10000 5 0).1
  constructor
  · rw [(h 2 1 4 2 (by decide) (by decide)).1 (by norm_num)]
    rw [cmp_eq_eq_iff]
    norm_num [completionRatio]
  · rw [(h 2 1 4 1 (by decide) (by decide)).1 (by norm_num)]
    rw [cmp_eq_gt_iff]
    norm_num [completionRatio]

end NestPlayground.L5.RatioOrder
