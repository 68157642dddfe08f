import Sql602.Library.Rounding
import Sql602.Convert.Integers

namespace Sql602.Convert

open Rounding

/-! What scaling returns, as a rounded rational number. -/

/-- The arithmetic of a signed integer type. The result of an operation is right when it
is in the range of the type, without the code of NULL. -/
structure Width where
  wrap : Int → Int
  tenth : Int
  max : Int
  wrap_of_le : ∀ n, |n| ≤ max → wrap n = n
  max_eq : max = 10 * tenth + 7
  tenth_pos : 0 < tenth

def width32 : Width where
  wrap := sig32
  tenth := 214748364
  max := 2147483647
  wrap_of_le n hn := by
    have hle := abs_le.mp hn
    unfold sig32
    exact Int.bmod_eq_of_le (by omega) (by omega)
  max_eq := by decide
  tenth_pos := by decide

def width64 : Width where
  wrap := sig64
  tenth := MAXBIGINT.tdiv 10
  max := MAXBIGINT
  wrap_of_le n hn := by
    have hle := abs_le.mp hn
    unfold MAXBIGINT at hle
    unfold sig64
    exact Int.bmod_eq_of_le (by omega) (by omega)
  max_eq := by decide
  tenth_pos := by decide

/-- The value that a number has when its decimal point is moved. -/
def shifted (val scaleDisp : Int) : ℚ := (val : ℚ) * 10 ^ scaleDisp

section Shifted

variable {val scaleDisp : Int} {n k : Nat}

theorem shifted_natCast (val : Int) (k : Nat) : shifted val k = ((val * 10 ^ k : Int) : ℚ) := by
  rw [shifted, zpow_natCast]
  push_cast
  rfl

theorem shifted_neg (n k : Nat) : shifted n (-k) = (n : ℚ) / 10 ^ k := by
  rw [shifted, zpow_neg, zpow_natCast, div_eq_mul_inv]
  push_cast
  rfl

theorem shifted_neg_left (val scaleDisp : Int) : shifted (-val) scaleDisp = -shifted val scaleDisp := by
  rw [shifted, shifted, Int.cast_neg, neg_mul]

end Shifted

namespace Width

variable {width : Width} {val scaleDisp : Int} {n k : Nat}

theorem enlarge_eq (k : Nat) (hval : |val| ≤ width.max) :
    enlarge width.wrap width.tenth k val =
      if |val * 10 ^ k| ≤ width.max then some (val * 10 ^ k) else none := by
  have hmax := width.max_eq
  induction k generalizing val with
  | zero => rw [enlarge, pow_zero, mul_one, if_pos hval]
  | succ k ih =>
      have hpow : val * 10 ^ (k + 1) = val * 10 * 10 ^ k := by ring
      rw [enlarge]
      split
      case isTrue hover =>
        have hlarge : width.max < |val| * 10 := by
          obtain hpos | hneg := hover
          · have habs := le_abs_self val
            omega
          · have habs := neg_le_abs val
            omega
        have hmono : |val| * 10 * 1 ≤ |val| * 10 * 10 ^ k :=
          mul_le_mul_of_nonneg_left (one_le_pow₀ (by norm_num)) (by positivity)
        have habs : |val * 10 * 10 ^ k| = |val| * 10 * 10 ^ k := by
          rw [abs_mul, abs_mul, abs_of_nonneg (by norm_num : (0 : Int) ≤ 10),
            abs_of_nonneg (by positivity : (0 : Int) ≤ 10 ^ k)]
        rw [hpow, if_neg]
        omega
      case isFalse hfits =>
        obtain ⟨hhigh, hlow⟩ := not_or.mp hfits
        have hnext : |val * 10| ≤ width.max := abs_le.mpr ⟨by omega, by omega⟩
        rw [width.wrap_of_le _ hnext, ih hnext, hpow]

theorem tdiv_natCast (n : Nat) : (n : Int).tdiv 10 = (n / 10 : Nat) := rfl

theorem tdiv_neg (n : Nat) : (-(n : Int)).tdiv 10 = -((n / 10 : Nat) : Int) := by
  rw [Int.neg_tdiv, tdiv_natCast]

theorem diminish_natCast (hn : (n : Int) ≤ width.max) (k : Nat)
    (hround : k = 0 → (n : Int) ≤ width.max - 5) :
    diminish width.wrap (k + 1) n = ((n / 10 ^ k + 5) / 10 : Nat) := by
  induction k generalizing n with
  | zero =>
      have hroom := hround rfl
      have hwrap : width.wrap ((n : Int) + 5) = (n : Int) + 5 :=
        width.wrap_of_le _ (abs_le.mpr ⟨by omega, by omega⟩)
      rw [diminish, diminish, if_pos rfl, if_neg (by omega), hwrap, pow_zero, Nat.div_one]
      exact tdiv_natCast (n + 5)
  | succ k ih =>
      have hmax := width.max_eq
      have htenth := width.tenth_pos
      rw [diminish, if_neg (Nat.succ_ne_zero k), tdiv_natCast, ih (by omega) (fun _ => by omega),
        pow_succ', Nat.div_div_eq_div_mul]

theorem diminish_neg (hn : (n : Int) ≤ width.max) (k : Nat)
    (hround : k = 0 → (n : Int) ≤ width.max - 5) :
    diminish width.wrap (k + 1) (-n) = -((n / 10 ^ k + 5) / 10 : Nat) := by
  induction k generalizing n with
  | zero =>
      have hroom := hround rfl
      cases Nat.eq_zero_or_pos n with
      | inl hzero =>
          subst hzero
          have hmax := width.max_eq
          have htenth := width.tenth_pos
          have hwrap : width.wrap 5 = 5 := width.wrap_of_le 5 (abs_le.mpr ⟨by omega, by omega⟩)
          simp only [diminish, if_true, Nat.cast_zero, Int.neg_zero, Int.lt_irrefl, if_false,
            Int.zero_add, hwrap]
          decide
      | inr hpos =>
          have hsum : -(n : Int) - 5 = -((n + 5 : Nat) : Int) := by omega
          have hwrap : width.wrap (-(n : Int) - 5) = -(n : Int) - 5 :=
            width.wrap_of_le _ (abs_le.mpr ⟨by omega, by omega⟩)
          rw [diminish, diminish, if_pos rfl, if_pos (by omega), hwrap, pow_zero, Nat.div_one,
            hsum, tdiv_neg]
  | succ k ih =>
      have hmax := width.max_eq
      have htenth := width.tenth_pos
      rw [diminish, if_neg (Nat.succ_ne_zero k), tdiv_neg, ih (by omega) (fun _ => by omega),
        pow_succ', Nat.div_div_eq_div_mul]

theorem diminish_eq (hval : |val| ≤ width.max) (k : Nat)
    (hround : k = 0 → |val| ≤ width.max - 5) :
    diminish width.wrap (k + 1) val = roundAway (shifted val (-(k + 1 : Nat))) := by
  obtain ⟨n, rfl | rfl⟩ := Int.eq_nat_or_neg val
  · rw [abs_of_nonneg (by omega)] at hval hround
    rw [diminish_natCast hval k hround, shifted_neg, roundAway_div_pow]
  · rw [abs_neg, abs_of_nonneg (by omega)] at hval hround
    rw [diminish_neg hval k hround, shifted_neg_left, roundAway_neg, shifted_neg,
      roundAway_div_pow]

theorem abs_round_le (k : Nat) :
    |roundAway (shifted val (-(k + 1 : Nat)))| ≤ |val| := by
  have hround : ∀ n : Nat, (((n / 10 ^ k + 5) / 10 : Nat) : Int) ≤ n := by
    intro n
    have hcut := Nat.div_le_self n (10 ^ k)
    omega
  obtain ⟨n, rfl | rfl⟩ := Int.eq_nat_or_neg val
  · rw [shifted_neg, roundAway_div_pow, abs_of_nonneg (Int.natCast_nonneg _),
      abs_of_nonneg (Int.natCast_nonneg n)]
    exact hround n
  · rw [shifted_neg_left, roundAway_neg, shifted_neg, roundAway_div_pow, abs_neg, abs_neg,
      abs_of_nonneg (Int.natCast_nonneg _), abs_of_nonneg (Int.natCast_nonneg n)]
    exact hround n

/-- Scaling returns the rounded result or reports that it is outside the range. -/
theorem scaleWith_eq (hval : |val| ≤ width.max)
    (hround : scaleDisp = -1 → |val| ≤ width.max - 5) :
    scaleWith width.wrap width.tenth val scaleDisp =
      if |roundAway (shifted val scaleDisp)| ≤ width.max then
        some (roundAway (shifted val scaleDisp))
      else none := by
  unfold scaleWith
  cases lt_or_ge scaleDisp 0 with
  | inl hneg =>
      obtain ⟨k, hk⟩ : ∃ k : Nat, scaleDisp = -(k + 1 : Nat) := ⟨(-scaleDisp - 1).toNat, by omega⟩
      have hzero : scaleDisp.toNat = 0 := by omega
      have hcount : (-scaleDisp).toNat = k + 1 := by omega
      have hle := (abs_round_le k).trans hval
      rw [← hk] at hle
      rw [hzero, hcount, enlarge, Option.map_some, if_pos hle,
        diminish_eq hval k (fun hk0 => hround (by omega)), hk]
  | inr hpos =>
      obtain ⟨k, rfl⟩ := Int.eq_ofNat_of_zero_le hpos
      have hzero : (-(k : Int)).toNat = 0 := by omega
      rw [hzero, Int.toNat_natCast, enlarge_eq k hval, shifted_natCast, roundAway_intCast]
      split
      case isTrue => rfl
      case isFalse => rfl

end Width

end Sql602.Convert
