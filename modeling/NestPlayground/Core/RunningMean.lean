import Mathlib.Algebra.BigOperators.Group.List.Basic
import Mathlib.Algebra.Order.Field.Basic
import Mathlib.Data.List.Induction
import Mathlib.Tactic.FieldSimp
import Mathlib.Tactic.Linarith
import Mathlib.Tactic.Ring

/-!
# A mean updated value by value, rounded each time

The update `avg + (x - avg) / n` is exact without rounding. With an error of at
most `δ` in each step the distance from the mean grows at most linearly
(`abs_runningMean_sub_mean_le`): a step of `n` values carries over only
`(n - 1) / n` of the error before it. Nothing better holds: where the rounded
update gives back the old value, the mean moves away from it.
-/
namespace NestPlayground.Core

variable {K : Type*} [Field K]

def mean (xs : List K) : K := xs.sum / xs.length

/-- The number of values so far and their rounded running mean. -/
structure Running (K : Type*) where
  count : Nat
  avg : K

namespace Running

def start : Running K := ⟨0, 0⟩

def next (rnd : K → K) (r : Running K) (x : K) : Running K where
  count := r.count + 1
  avg := rnd (r.avg + (x - r.avg) / ((r.count + 1 : Nat) : K))

end Running

def running (rnd : K → K) (xs : List K) : Running K := xs.foldl (Running.next rnd) Running.start

def runningMean (rnd : K → K) (xs : List K) : K := (running rnd xs).avg

section
variable {rnd : K → K}

theorem running_concat (xs : List K) (x : K) :
    running rnd (xs ++ [x]) = (running rnd xs).next rnd x := List.foldl_concat ..

theorem running_count (xs : List K) : (running rnd xs).count = xs.length := by
  induction xs using List.reverseRecOn with
  | nil => rfl
  | append_singleton xs x ih =>
    rw [running_concat, List.length_append, List.length_singleton, ← ih]
    rfl

theorem runningMean_concat (xs : List K) (x : K) :
    runningMean rnd (xs ++ [x]) =
      rnd (runningMean rnd xs + (x - runningMean rnd xs) / ((xs.length + 1 : Nat) : K)) := by
  unfold runningMean
  rw [running_concat, ← @running_count K _ rnd xs]
  rfl

/-- A value that the rounded update gives back stays, however often the same `x` comes. -/
theorem runningMean_append_replicate {xs : List K} {x : K}
    (hstuck : ∀ n : Nat, xs.length < n →
      rnd (runningMean rnd xs + (x - runningMean rnd xs) / (n : K)) = runningMean rnd xs) (m : Nat) :
    runningMean rnd (xs ++ List.replicate m x) = runningMean rnd xs := by
  induction m with
  | zero => rw [List.replicate_zero, List.append_nil]
  | succ m ih =>
    rw [List.replicate_succ', ← List.append_assoc, runningMean_concat, ih]
    apply hstuck
    rw [List.length_append]
    omega

end

theorem mean_concat [CharZero K] (xs : List K) (x : K) :
    mean (xs ++ [x]) = mean xs + (x - mean xs) / ((xs.length + 1 : Nat) : K) := by
  unfold mean
  rw [List.sum_append, List.sum_singleton, List.length_append, List.length_singleton]
  rcases Nat.eq_zero_or_pos xs.length with h0 | hpos
  · rw [List.length_eq_zero_iff.mp h0]
    simp
  · have hn : (xs.length : K) ≠ 0 := Nat.cast_ne_zero.mpr hpos.ne'
    have hn1 : ((xs.length + 1 : Nat) : K) ≠ 0 := Nat.cast_ne_zero.mpr (Nat.succ_ne_zero _)
    field_simp
    push_cast
    ring

/-- The error after one more value, before rounding. -/
theorem update_sub_update (a b x n : K) : a + (x - a) / n - (b + (x - b) / n) = (a - b) * (1 - 1 / n) := by
  ring

variable [LinearOrder K] [IsStrictOrderedRing K]

theorem abs_runningMean_sub_mean_le {rnd : K → K} {δ : K} (hrnd : ∀ x, |rnd x - x| ≤ δ) (xs : List K) :
    |runningMean rnd xs - mean xs| ≤ δ * (xs.length + 1) / 2 := by
  induction xs using List.reverseRecOn with
  | nil =>
    have hδ : 0 ≤ δ := (abs_nonneg _).trans (hrnd 0)
    simp only [runningMean, running, Running.start, mean, List.foldl_nil, List.sum_nil, zero_div, sub_zero, abs_zero]
    positivity
  | append_singleton xs x ih =>
    have hn : (0 : K) < xs.length + 1 := Nat.cast_add_one_pos _
    have hshare : (0 : K) ≤ 1 - 1 / (xs.length + 1) := by
      have hlen : (0 : K) ≤ xs.length := Nat.cast_nonneg _
      rw [sub_nonneg, div_le_one hn]
      linarith
    rw [runningMean_concat, mean_concat, List.length_append, List.length_singleton]
    push_cast
    set a := runningMean rnd xs
    set b := mean xs
    generalize (xs.length : K) = n at *
    calc |rnd (a + (x - a) / (n + 1)) - (b + (x - b) / (n + 1))|
        ≤ |rnd (a + (x - a) / (n + 1)) - (a + (x - a) / (n + 1))| +
          |a + (x - a) / (n + 1) - (b + (x - b) / (n + 1))| := abs_sub_le ..
      _ = |rnd (a + (x - a) / (n + 1)) - (a + (x - a) / (n + 1))| + |a - b| * (1 - 1 / (n + 1)) := by
          rw [update_sub_update, abs_mul, abs_of_nonneg hshare]
      _ ≤ δ + δ * (n + 1) / 2 * (1 - 1 / (n + 1)) :=
          add_le_add (hrnd _) (mul_le_mul_of_nonneg_right ih hshare)
      _ = δ * (n + 1 + 1) / 2 := by
          field_simp
          ring

end NestPlayground.Core
