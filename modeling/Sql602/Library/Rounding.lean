import Mathlib.Data.Rat.Floor
import Mathlib.Tactic.FieldSimp
import Mathlib.Tactic.Linarith
import Mathlib.Tactic.Ring

namespace Rounding

/-! Rounding half away from zero. -/

def roundAway (q : ℚ) : ℤ :=
  if q < 0 then -⌊-q + 1 / 2⌋ else ⌊q + 1 / 2⌋

variable {q : ℚ} {n k : ℕ}

theorem roundAway_of_nonneg (hq : 0 ≤ q) : roundAway q = ⌊q + 1 / 2⌋ :=
  if_neg (not_lt.mpr hq)

theorem roundAway_neg (q : ℚ) : roundAway (-q) = -roundAway q := by
  obtain hlt | rfl | hgt := lt_trichotomy q 0
  · rw [roundAway_of_nonneg (by linarith), roundAway, if_pos hlt, neg_neg]
  · norm_num [roundAway]
  · rw [roundAway_of_nonneg hgt.le, roundAway, if_pos (by linarith), neg_neg]

@[simp] theorem roundAway_intCast (z : ℤ) : roundAway (z : ℚ) = z := by
  have hhalf : ⌊(1 / 2 : ℚ)⌋ = 0 := by norm_num
  unfold roundAway
  split
  · rw [← Int.cast_neg, Int.floor_intCast_add, hhalf]
    ring
  · rw [Int.floor_intCast_add, hhalf, add_zero]

/-- Rounding a decimal fraction: all digits but the last of those left out are cut off, and
the last one is rounded. -/
theorem roundAway_div_pow (n k : ℕ) :
    roundAway ((n : ℚ) / 10 ^ (k + 1)) = ((n / 10 ^ k + 5) / 10 : ℕ) := by
  have hsum : (n : ℚ) / 10 ^ (k + 1) + 1 / 2 =
      ((n + 5 * 10 ^ k : ℕ) : ℚ) / ((10 ^ (k + 1) : ℕ) : ℚ) := by
    push_cast
    field_simp
    ring
  have hcut : (n + 5 * 10 ^ k) / 10 ^ (k + 1) = (n / 10 ^ k + 5) / 10 := by
    rw [pow_succ, ← Nat.div_div_eq_div_mul, Nat.add_mul_div_right _ _ (by positivity)]
  rw [roundAway_of_nonneg (by positivity), hsum, Rat.floor_natCast_div_natCast, ← hcut]
  rfl

end Rounding
