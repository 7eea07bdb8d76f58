import Mathlib.Data.List.DropRight
import Mathlib.Tactic.Common

/-!
# List ranges with negative indices

A range `[start, stop]` includes both ends, and a negative end counts from the
back of the list. `-n` for the last `n` elements is right for `n ≥ 1` only:
the range from `-0` is the whole list (`slice_zero_last`).
-/
namespace NestPlayground.Core

variable {α : Type*}

/-- An end of a range as a position from the front: -1 is the last element. -/
def listIndex (len : Nat) (i : Int) : Int := if i < 0 then len + i else i

/-- The range that LRANGE returns and LTRIM keeps. -/
def slice (xs : List α) (start stop : Int) : List α :=
  (xs.take (listIndex xs.length stop + 1).toNat).drop (listIndex xs.length start).toNat

theorem slice_last (xs : List α) (start : Int) :
    slice xs start (-1) = xs.drop (listIndex xs.length start).toNat := by
  have hstop : (listIndex xs.length (-1) + 1).toNat = xs.length := by
    unfold listIndex
    rw [if_pos (by decide)]
    omega
  unfold slice
  rw [hstop, List.take_length]

theorem slice_neg_last (xs : List α) {n : Nat} (h : 1 ≤ n) : slice xs (-n) (-1) = xs.rtake n := by
  have hstart : (listIndex xs.length (-n)).toNat = xs.length - n := by
    unfold listIndex
    rw [if_pos (by omega)]
    omega
  rw [slice_last, hstart, List.rtake]

theorem slice_zero_last (xs : List α) : slice xs 0 (-1) = xs := slice_last xs 0

/-- A negative length as the start of a range: no limit at all for length 0. -/
theorem slice_neg_last_eq (xs : List α) (n : Nat) :
    slice xs (-n) (-1) = if n = 0 then xs else xs.rtake n := by
  by_cases hn : n = 0
  · subst hn
    exact slice_zero_last xs
  · rw [if_neg hn]
    exact slice_neg_last xs (Nat.one_le_iff_ne_zero.mpr hn)

/-! ## The last elements of a list -/

theorem length_rtake (xs : List α) (n : Nat) : (xs.rtake n).length = min n xs.length := by
  unfold List.rtake
  rw [List.length_drop]
  omega

theorem rtake_rtake (xs : List α) (m n : Nat) : (xs.rtake m).rtake n = xs.rtake (min n m) := by
  unfold List.rtake
  rw [List.length_drop, List.drop_drop]
  congr 1
  omega

theorem rtake_length (xs : List α) : xs.rtake xs.length = xs := by
  unfold List.rtake
  rw [Nat.sub_self, List.drop_zero]

/-- What is cut off before an append would be cut off after it. -/
theorem rtake_rtake_append (xs ys : List α) (n : Nat) : (xs.rtake n ++ ys).rtake n = (xs ++ ys).rtake n := by
  unfold List.rtake
  simp only [List.length_append, List.length_drop, List.drop_append, List.drop_drop]
  congr 2 <;> omega

theorem rtake_min_length (xs : List α) (n : Nat) : xs.rtake (min n xs.length) = xs.rtake n := by
  rw [← rtake_rtake, rtake_length]

theorem rtake_ne_nil {xs : List α} {n : Nat} (h : xs ≠ []) (hn : n ≠ 0) : xs.rtake n ≠ [] := by
  have hpos := List.length_pos_of_ne_nil h
  apply List.ne_nil_of_length_pos
  rw [length_rtake]
  omega

/-! ## Trimming to a length given as a negative start -/

/-- Trimming after each append leaves what one trimming at the end leaves. -/
theorem slice_slice_append (xs ys : List α) (n : Nat) :
    slice (slice xs (-n) (-1) ++ ys) (-n) (-1) = slice (xs ++ ys) (-n) (-1) := by
  simp only [slice_neg_last_eq]
  split_ifs with hn
  · rfl
  · exact rtake_rtake_append xs ys n

/-- No length empties a list, 0 included. -/
theorem slice_neg_last_ne_nil {xs : List α} (n : Nat) (h : xs ≠ []) : slice xs (-n) (-1) ≠ [] := by
  rw [slice_neg_last_eq]
  split_ifs with hn
  · exact h
  · exact rtake_ne_nil h hn

/-- Trimmed to `m`, read from `-n`: the last `n` of the last `m`, unless one of the lengths is 0. -/
theorem slice_slice_eq_rtake_iff (xs : List α) (m n : Nat) :
    slice (slice xs (-m) (-1)) (-n) (-1) = xs.rtake (min (min n m) xs.length) ↔ xs = [] ∨ (n ≠ 0 ∧ m ≠ 0) := by
  rw [rtake_min_length]
  constructor
  · intro he
    by_contra hnot
    obtain ⟨hxs, hzero⟩ := not_or.mp hnot
    have hmin : min n m = 0 := by omega
    rw [hmin, List.rtake_zero] at he
    exact slice_neg_last_ne_nil n (slice_neg_last_ne_nil m hxs) he
  · rintro (rfl | ⟨hn, hm⟩)
    · simp only [slice_neg_last_eq, List.rtake_nil, ite_self]
    · rw [slice_neg_last_eq, slice_neg_last_eq, if_neg hm, if_neg hn, rtake_rtake]

end NestPlayground.Core
