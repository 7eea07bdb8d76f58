import Mathlib.Algebra.Order.Field.Power
import Mathlib.Data.Int.Log
import Mathlib.Data.Rat.Floor
import Mathlib.Tactic.Linarith
import Mathlib.Tactic.Positivity

/-!
# Rounded arithmetic

A program is written once, every result of an operation passed through a
rounding: `exact` leaves it, `binary64` takes the nearest double, ties to the
even one. `round p l` is the rule for any precision `p` and any least
exponent `l`, without an upper bound on the exponent: results too large for
a double are not turned into an infinity here.

Rounding keeps the order (`round_mono`), leaves numbers with `p` digits alone
(`round_eq_self`), so that rounding twice is rounding once, and is off by at
most half a unit in the last place (`abs_round_sub_le`).
-/
namespace NestPlayground.Core

/-- What becomes of the exact result of an operation. -/
abbrev Rounding := ℚ → ℚ

def exact : Rounding := id

@[simp] theorem exact_apply (q : ℚ) : exact q = q := rfl

/-- The nearest integer, the even one of two. -/
def nearest (q : ℚ) : ℤ :=
  if q - ⌊q⌋ < 1 / 2 then ⌊q⌋ else if 1 / 2 < q - ⌊q⌋ then ⌊q⌋ + 1 else ⌊q⌋ + ⌊q⌋ % 2

/-- The exponent of the last place of `q` with `p` digits. -/
def place (p : Nat) (l : ℤ) (q : ℚ) : ℤ := max (Int.log 2 |q| - p + 1) l

def round (p : Nat) (l : ℤ) : Rounding := fun q => nearest (q / 2 ^ place p l q) * 2 ^ place p l q

/-- Double precision. -/
def binary64 : Rounding := round 53 (-1074)

/-! ## To an integer -/

@[simp] theorem nearest_intCast (n : ℤ) : nearest n = n := by
  simp [nearest]

theorem abs_nearest_sub_le (q : ℚ) : |(nearest q : ℚ) - q| ≤ 1 / 2 := by
  have hlo := Int.floor_le q
  have hhi := Int.lt_floor_add_one q
  have hpar : ⌊q⌋ % 2 = 0 ∨ ⌊q⌋ % 2 = 1 := by omega
  unfold nearest
  rw [abs_le]
  split
  · constructor <;> linarith
  · split
    · push_cast
      constructor <;> linarith
    · rcases hpar with h | h <;> rw [h] <;> push_cast <;> constructor <;> linarith

theorem floor_le_nearest (q : ℚ) : ⌊q⌋ ≤ nearest q ∧ nearest q ≤ ⌊q⌋ + 1 := by
  unfold nearest
  split
  · omega
  · split <;> omega

theorem nearest_mono {x y : ℚ} (hxy : x ≤ y) : nearest x ≤ nearest y := by
  rcases (Int.floor_mono hxy).lt_or_eq with hlt | heq
  · have := (floor_le_nearest x).2
    have := (floor_le_nearest y).1
    omega
  · -- between the same two integers
    simp only [nearest, heq]
    split
    · split
      · exact le_refl _
      · split <;> omega
    · split
      · rw [if_neg (by linarith), if_pos (by linarith)]
      · rw [if_neg (by linarith)]
        split <;> omega

theorem le_nearest {n : ℤ} {q : ℚ} (h : (n : ℚ) ≤ q) : n ≤ nearest q :=
  (nearest_intCast n).ge.trans (nearest_mono h)

theorem nearest_le {n : ℤ} {q : ℚ} (h : q ≤ n) : nearest q ≤ n :=
  (nearest_mono h).trans (nearest_intCast n).le

/-! ## To a precision -/

section
variable {p : Nat} {l : ℤ} {x y q : ℚ}

theorem unit_pos : (0 : ℚ) < 2 ^ place p l q := by positivity

@[simp] theorem round_zero : round p l 0 = 0 := by
  have h : nearest 0 = 0 := nearest_intCast 0
  simp [round, h]

theorem le_round {n : ℤ} (h : n * 2 ^ place p l q ≤ q) : n * 2 ^ place p l q ≤ round p l q := by
  refine mul_le_mul_of_nonneg_right ?_ unit_pos.le
  exact_mod_cast le_nearest ((le_div_iff₀ unit_pos).mpr h)

theorem round_le {n : ℤ} (h : q ≤ n * 2 ^ place p l q) : round p l q ≤ n * 2 ^ place p l q := by
  refine mul_le_mul_of_nonneg_right ?_ unit_pos.le
  exact_mod_cast nearest_le ((div_le_iff₀ unit_pos).mpr h)

theorem round_nonneg (h : 0 ≤ q) : 0 ≤ round p l q := by
  simpa using le_round (n := 0) (p := p) (l := l) (by simpa using h)

theorem round_nonpos (h : q ≤ 0) : round p l q ≤ 0 := by
  simpa using round_le (n := 0) (p := p) (l := l) (by simpa using h)

theorem abs_lt_place (q : ℚ) : |q| < 2 ^ (place p l q + p) := by
  have hlog := Int.lt_zpow_succ_log_self (b := 2) (by decide) |q|
  push_cast at hlog
  refine hlog.trans_le (zpow_le_zpow_right₀ (by norm_num) ?_)
  have := le_max_left (Int.log 2 |q| - p + 1) l
  unfold place
  omega

/-- A last place above the least exponent is that of a number with `p` digits. -/
theorem le_abs_of_place (h : l < place p l q) (hq : q ≠ 0) : 2 ^ (place p l q + p - 1) ≤ |q| := by
  have he : place p l q = Int.log 2 |q| - p + 1 := by
    unfold place at h ⊢
    omega
  have hlog := Int.zpow_log_le_self (b := 2) (by decide) (abs_pos.mpr hq)
  push_cast at hlog
  rwa [he, show Int.log 2 |q| - p + 1 + p - 1 = Int.log 2 |q| by ring]

theorem place_mono (hx : x ≠ 0) (h : |x| ≤ |y|) : place p l x ≤ place p l y := by
  have := Int.log_mono_right (b := 2) (abs_pos.mpr hx) h
  unfold place
  omega

theorem zpow_place (k : Nat) (e : ℤ) : (2 : ℚ) ^ (e + k) = ((2 ^ k : ℤ) : ℚ) * 2 ^ e := by
  rw [zpow_add₀ (by norm_num), zpow_natCast, mul_comm]
  push_cast
  rfl

/-- The rounded number is between the powers of two around the number. -/
theorem abs_round_le (q : ℚ) : |round p l q| ≤ 2 ^ (place p l q + p) := by
  have h := abs_le.mp (abs_lt_place (p := p) (l := l) q).le
  rw [zpow_place] at h ⊢
  refine abs_le.mpr ⟨?_, round_le h.2⟩
  have hneg : ((-2 ^ p : ℤ) : ℚ) * 2 ^ place p l q ≤ q := by
    push_cast at h ⊢
    linarith
  have := le_round hneg
  push_cast at this ⊢
  linarith

theorem le_round_of_place (hp : 1 ≤ p) (h : l < place p l q) (hq : 0 < q) :
    2 ^ (place p l q + p - 1) ≤ round p l q := by
  have hle := le_abs_of_place h hq.ne'
  rw [abs_of_pos hq] at hle
  rw [show place p l q + (p : ℤ) - 1 = place p l q + ((p - 1 : Nat) : ℤ) by omega, zpow_place] at hle ⊢
  exact le_round hle

theorem round_le_of_place (hp : 1 ≤ p) (h : l < place p l q) (hq : q < 0) :
    round p l q ≤ -2 ^ (place p l q + p - 1) := by
  have hle := le_abs_of_place h hq.ne
  rw [abs_of_neg hq] at hle
  rw [show place p l q + (p : ℤ) - 1 = place p l q + ((p - 1 : Nat) : ℤ) by omega, zpow_place] at hle ⊢
  have hneg : q ≤ ((-2 ^ (p - 1) : ℤ) : ℚ) * 2 ^ place p l q := by
    push_cast at hle ⊢
    linarith
  have := round_le hneg
  push_cast at this ⊢
  linarith

/-- Rounding keeps the order. -/
theorem round_mono (hp : 1 ≤ p) : Monotone (round p l) := by
  intro x y hxy
  have hpow : ∀ {a b : ℤ}, a < b → (2 : ℚ) ^ (a + p) ≤ 2 ^ (b + p - 1) :=
    fun h => zpow_le_zpow_right₀ (by norm_num) (by omega)
  have hx := abs_le.mp (abs_round_le (p := p) (l := l) x)
  have hy := abs_le.mp (abs_round_le (p := p) (l := l) y)
  rcases lt_trichotomy (place p l x) (place p l y) with hlt | heq | hgt
  · -- `y` has the larger last place
    have hmin : l < place p l y := (le_max_right _ _).trans_lt hlt
    rcases lt_or_ge 0 y with hpos | hneg
    · exact (hx.2.trans (hpow hlt)).trans (le_round_of_place hp hmin hpos)
    · rcases hneg.eq_or_lt with rfl | hneg
      · rw [round_zero]
        exact round_nonpos hxy
      · have hle : place p l y ≤ place p l x := place_mono hneg.ne <| by
          rw [abs_of_neg hneg, abs_of_neg (by linarith)]
          linarith
        exact absurd hlt hle.not_gt
  · unfold round
    rw [heq]
    refine mul_le_mul_of_nonneg_right ?_ unit_pos.le
    exact_mod_cast nearest_mono (div_le_div_of_nonneg_right hxy unit_pos.le)
  · -- `x` has the larger last place
    have hmin : l < place p l x := (le_max_right _ _).trans_lt hgt
    rcases lt_or_ge x 0 with hneg | hpos
    · have := round_le_of_place hp hmin hneg
      have := hpow hgt
      linarith
    · rcases hpos.eq_or_lt with rfl | hpos
      · rw [round_zero]
        exact round_nonneg hxy
      · have hle : place p l x ≤ place p l y := place_mono hpos.ne' <| by
          rw [abs_of_pos hpos, abs_of_pos (by linarith)]
          exact hxy
        exact absurd hgt hle.not_gt

theorem round_eq_self_of_lt {m e : ℤ} (he : l ≤ e) (hm : |m| < 2 ^ p) : round p l (m * 2 ^ e) = m * 2 ^ e := by
  rcases eq_or_ne m 0 with rfl | hne
  · simp
  have habs : |(m : ℚ) * 2 ^ e| = |m| * 2 ^ e := by
    rw [abs_mul, abs_of_pos (show (0 : ℚ) < 2 ^ e by positivity), Int.cast_abs]
  have hlog : Int.log 2 |(m : ℚ) * 2 ^ e| < p + e := by
    refine (Int.lt_zpow_iff_log_lt (by decide) (by positivity)).mp ?_
    rw [habs, Nat.cast_ofNat, zpow_add₀ (by norm_num), zpow_natCast]
    exact mul_lt_mul_of_pos_right (by exact_mod_cast hm) (by positivity)
  obtain ⟨k, hk⟩ : ∃ k : Nat, e = place p l ((m : ℚ) * 2 ^ e) + k := by
    refine ⟨(e - place p l ((m : ℚ) * 2 ^ e)).toNat, ?_⟩
    unfold place
    omega
  have hscaled : (m : ℚ) * 2 ^ e / 2 ^ place p l ((m : ℚ) * 2 ^ e) = ((m * 2 ^ k : ℤ) : ℚ) := by
    rw [div_eq_iff unit_pos.ne', Int.cast_mul, mul_assoc, ← zpow_place, ← hk]
  unfold round
  rw [hscaled, nearest_intCast, ← hscaled]
  exact div_mul_cancel₀ _ unit_pos.ne'

/-- Numbers with `p` digits are not rounded. -/
theorem round_eq_self {m e : ℤ} (hp : 1 ≤ p) (he : l ≤ e) (hm : |m| ≤ 2 ^ p) :
    round p l (m * 2 ^ e) = m * 2 ^ e := by
  rcases hm.lt_or_eq with hlt | heq
  · exact round_eq_self_of_lt he hlt
  -- the power of two has one digit with the next place
  obtain ⟨k, rfl⟩ : ∃ k, p = k + 1 := ⟨p - 1, by omega⟩
  obtain ⟨m', rfl, hm'⟩ : ∃ m', m = m' * 2 ∧ |m'| < 2 ^ (k + 1) := by
    have hpos : (0 : ℤ) < 2 ^ k := by positivity
    rcases abs_eq_abs.mp (heq.trans (abs_of_pos (by positivity)).symm) with h | h
    · exact ⟨2 ^ k, by rw [h, pow_succ], by rw [abs_of_pos hpos, pow_succ]; omega⟩
    · exact ⟨-2 ^ k, by rw [h, pow_succ]; ring, by rw [abs_neg, abs_of_pos hpos, pow_succ]; omega⟩
  have hnext : ((m' * 2 : ℤ) : ℚ) * 2 ^ e = m' * 2 ^ (e + 1) := by
    rw [zpow_add_one₀ (by norm_num)]
    push_cast
    ring
  rw [hnext]
  exact round_eq_self_of_lt (by omega) hm'

theorem round_intCast {n : ℤ} (hp : 1 ≤ p) (hl : l ≤ 0) (h : |n| ≤ 2 ^ p) : round p l n = n := by
  simpa using round_eq_self (e := 0) hp hl h

/-- Rounding twice is rounding once. -/
theorem round_round (hp : 1 ≤ p) (q : ℚ) : round p l (round p l q) = round p l q := by
  have hle : |nearest (q / 2 ^ place p l q)| ≤ 2 ^ p := by
    have h := abs_round_le (p := p) (l := l) q
    rw [zpow_place, round, abs_mul, abs_of_pos unit_pos] at h
    exact_mod_cast le_of_mul_le_mul_right h unit_pos
  exact round_eq_self hp (le_max_right _ _) hle

/-- The error is at most half a unit in the last place. -/
theorem abs_round_sub_le (q : ℚ) : |round p l q - q| ≤ 2 ^ place p l q / 2 := by
  have hq : round p l q - q = (nearest (q / 2 ^ place p l q) - q / 2 ^ place p l q) * 2 ^ place p l q := by
    rw [sub_mul, div_mul_cancel₀ _ unit_pos.ne']
    rfl
  rw [hq, abs_mul, abs_of_pos unit_pos]
  have := mul_le_mul_of_nonneg_right (abs_nearest_sub_le (q / 2 ^ place p l q))
    (unit_pos (p := p) (l := l) (q := q)).le
  linarith

end

/-! ## Doubles -/

theorem binary64_mono : Monotone binary64 := round_mono (by decide)

@[simp] theorem binary64_zero : binary64 0 = 0 := round_zero

theorem binary64_intCast {n : ℤ} (h : |n| ≤ 2 ^ 53) : binary64 n = n := round_intCast (by decide) (by decide) h

@[simp] theorem binary64_binary64 (q : ℚ) : binary64 (binary64 q) = binary64 q := round_round (by decide) q

/-- Numbers below `2 ^ 52` are met up to a quarter. -/
theorem abs_binary64_sub_le {q : ℚ} (h : |q| < 2 ^ 52) : |binary64 q - q| ≤ 1 / 4 := by
  have hplace : place 53 (-1074) q ≤ -1 := by
    rcases eq_or_ne q 0 with rfl | hq
    · simp [place]
    · have hlog : Int.log 2 |q| < 52 := (Int.lt_zpow_iff_log_lt (by decide) (abs_pos.mpr hq)).mp (by exact_mod_cast h)
      unfold place
      omega
  have hpow : (2 : ℚ) ^ place 53 (-1074) q ≤ 2 ^ (-1 : ℤ) := zpow_le_zpow_right₀ (by norm_num) hplace
  have herr := abs_round_sub_le (p := 53) (l := -1074) q
  norm_num at hpow
  unfold binary64
  linarith

/-- A third and 29 hundredths. -/
example : binary64 (1 / 3) = 6004799503160661 / 2 ^ 54 ∧ binary64 (binary64 (29 / 100) * 100) < 29 := by
  decide +kernel

end NestPlayground.Core
