import Mathlib.Tactic.Ring
import Mathlib.Tactic.SplitIfs
import Sql602.Convert.Money

namespace Sql602.Convert

/-! The operations on the halves are those of two's complement in 48 bits. -/

namespace Monstr

variable (m : Monstr)

theorem bits_toNat : m.bits.toNat = m.moneyHi4.toNat * 65536 + m.moneyLo2.toNat := by
  rw [bits, BitVec.toNat_append, ← Nat.shiftLeft_add_eq_or_of_lt m.moneyLo2.isLt,
    Nat.shiftLeft_eq]

theorem eq_of_bits {m1 m2 : Monstr} (hbits : m1.bits = m2.bits) : m1 = m2 := by
  have htoNat := congrArg BitVec.toNat hbits
  rw [bits_toNat, bits_toNat] at htoNat
  have h1 := m1.moneyLo2.isLt
  have h2 := m2.moneyLo2.isLt
  have hlo : m1.moneyLo2 = m2.moneyLo2 := BitVec.eq_of_toNat_eq (by omega)
  have hhi : m1.moneyHi4 = m2.moneyHi4 := BitVec.eq_of_toNat_eq (by omega)
  cases m1
  cases m2
  exact congrArg₂ Monstr.mk hlo hhi

theorem isNull_iff : m.isNull = true ↔ m.bits = BitVec.intMin 48 := by
  constructor
  · intro hnull
    obtain ⟨hhi, hlo⟩ := of_decide_eq_true hnull
    rw [bits, hhi, hlo]
    rfl
  · intro hbits
    have hnull : m.bits = null.bits := hbits
    rw [eq_of_bits hnull]
    rfl

theorem isNull_iff_value : m.isNull = true ↔ m.value = -2 ^ 47 := by
  rw [isNull_iff, value, ← BitVec.toInt_inj]
  rfl

theorem value_eq : m.value = m.moneyHi4.toInt * 65536 + m.moneyLo2.toNat := by
  have hlo := m.moneyLo2.isLt
  have hhi := m.moneyHi4.isLt
  have hbits := m.bits_toNat
  rw [value, BitVec.toInt_eq_toNat_cond, BitVec.toInt_eq_toNat_cond]
  split <;> split <;> omega

theorem moneyHi4_neg_iff : m.moneyHi4.slt 0 = true ↔ m.value < 0 := by
  have hlo := m.moneyLo2.isLt
  have hzero : (0 : BitVec 32).toInt = 0 := rfl
  rw [BitVec.slt_iff_toInt_lt, hzero, value_eq]
  omega

end Monstr

section Operations

variable {m m1 m2 : Monstr}

theorem moneyNeg_bits (m : Monstr) : (moneyNeg m).bits = -m.bits := by
  have hlo := m.moneyLo2.isLt
  have hhi := m.moneyHi4.isLt
  apply BitVec.eq_of_toNat_eq
  rw [BitVec.toNat_neg, Monstr.bits_toNat, Monstr.bits_toNat, moneyNeg]
  split
  case isTrue hzero =>
    rw [hzero]
    bv_omega
  case isFalse hsome => bv_omega

theorem moneyadd_bits (h1 : m1.isNull = false) (h2 : m2.isNull = false) :
    (moneyadd m1 m2).bits = m1.bits + m2.bits := by
  have hlo1 := m1.moneyLo2.isLt
  have hlo2 := m2.moneyLo2.isLt
  have hhi1 := m1.moneyHi4.isLt
  have hhi2 := m2.moneyHi4.isLt
  apply BitVec.eq_of_toNat_eq
  rw [BitVec.toNat_add, Monstr.bits_toNat, Monstr.bits_toNat, Monstr.bits_toNat, moneyadd, h1, h2]
  simp only [Bool.false_eq_true, if_false]
  split
  case isTrue hplain => bv_omega
  case isFalse hcarry => bv_omega

theorem moneysub_bits (h1 : m1.isNull = false) (h2 : m2.isNull = false) :
    (moneysub m1 m2).bits = m1.bits - m2.bits := by
  have hlo1 := m1.moneyLo2.isLt
  have hlo2 := m2.moneyLo2.isLt
  have hhi1 := m1.moneyHi4.isLt
  have hhi2 := m2.moneyHi4.isLt
  apply BitVec.eq_of_toNat_eq
  rw [BitVec.toNat_sub, Monstr.bits_toNat, Monstr.bits_toNat, Monstr.bits_toNat, moneysub, h1, h2]
  simp only [Bool.false_eq_true, if_false]
  split
  case isTrue hplain => bv_omega
  case isFalse hborrow => bv_omega

theorem multMagnitude_bits (m : Monstr) {val : BitVec 32} (hval : val.msb = false) :
    (multMagnitude m val).bits = m.bits * val.setWidth 48 := by
  have hlo := m.moneyLo2.isLt
  have hv := val.isLt
  apply BitVec.eq_of_toNat_eq
  rw [BitVec.toNat_mul, Monstr.bits_toNat, Monstr.bits_toNat, multMagnitude,
    BitVec.sshiftRight_eq_of_msb_false hval]
  simp only [BitVec.toNat_setWidth, BitVec.toNat_mul, BitVec.toNat_add,
    BitVec.toNat_ushiftRight, Nat.shiftRight_eq_div_pow]
  generalize m.moneyLo2.toNat = lo at *
  generalize m.moneyHi4.toNat = hi at *
  generalize val.toNat = v at *
  -- the three partial products
  have hlow : lo * (v % 2 ^ 16) < 2 ^ 32 :=
    calc lo * (v % 2 ^ 16) < 2 ^ 16 * 2 ^ 16 :=
          Nat.mul_lt_mul'' hlo (Nat.mod_lt _ (by decide))
      _ = 2 ^ 32 := rfl
  have hparts : (hi * 65536 + lo) * v =
      65536 * (hi * v) + 65536 * (lo * (v / 2 ^ 16)) + lo * (v % 2 ^ 16) := by
    have hsplit : lo * v = lo * (2 ^ 16 * (v / 2 ^ 16) + v % 2 ^ 16) := by
      rw [Nat.div_add_mod]
    rw [Nat.add_mul, hsplit]
    ring
  rw [Nat.mod_eq_of_lt (a := lo) (by omega), Nat.mod_eq_of_lt (a := v % 2 ^ 16) (by omega),
    Nat.mod_eq_of_lt (a := v) (b := 2 ^ 48) (by omega), hparts]
  generalize lo * (v % 2 ^ 16) = low at *
  generalize lo * (v / 2 ^ 16) = middle at *
  generalize hi * v = high at *
  omega

theorem sign_extend_neg {val : BitVec 32} (hval : val ≠ BitVec.intMin 32) :
    (-val).signExtend 48 = -(val.signExtend 48) := by
  apply BitVec.eq_of_toInt_eq
  have hsmall := val.toInt_lt
  have hlarge := val.le_toInt
  rw [BitVec.toInt_neg, BitVec.toInt_signExtend_of_le (by decide),
    BitVec.toInt_signExtend_of_le (by decide), BitVec.toInt_neg_of_ne_intMin hval,
    Int.bmod_eq_of_le (by omega) (by omega)]

theorem magnitude_msb {val : BitVec 32} (hval : val ≠ BitVec.intMin 32) :
    (if val.slt 0 then -val else val).msb = false := by
  have hzero : (0 : BitVec 32).toInt = 0 := rfl
  rw [BitVec.msb_eq_false_iff_two_mul_lt]
  have hne : val.toNat ≠ 2 ^ 31 := fun heq => hval (BitVec.eq_of_toNat_eq heq)
  have hlt := val.isLt
  split
  case isTrue hneg =>
    rw [BitVec.slt_iff_toInt_lt, hzero, BitVec.toInt_eq_toNat_cond] at hneg
    split at hneg
    · omega
    · rw [BitVec.toNat_neg]
      omega
  case isFalse hpos =>
    rw [BitVec.slt_iff_toInt_lt, hzero, BitVec.toInt_eq_toNat_cond] at hpos
    split at hpos <;> omega

/-- The signs are taken off both factors and put on the product. -/
theorem signed_product {product : Monstr} {x y : BitVec 48} {neg1 neg2 : Bool}
    (hproduct : product.bits = (if neg1 then -x else x) * (if neg2 then -y else y)) :
    (if neg1 != neg2 then moneyNeg product else product).bits = x * y := by
  cases neg1 with
  | false =>
      cases neg2 with
      | false => exact hproduct
      | true => exact (moneyNeg_bits _).trans (hproduct ▸ by
          rw [if_neg Bool.false_ne_true, if_pos rfl, BitVec.mul_neg, BitVec.neg_neg])
  | true =>
      cases neg2 with
      | false => exact (moneyNeg_bits _).trans (hproduct ▸ by
          rw [if_neg Bool.false_ne_true, if_pos rfl, BitVec.neg_mul, BitVec.neg_neg])
      | true =>
          refine hproduct.trans ?_
          rw [if_pos rfl, if_pos rfl, BitVec.neg_mul, BitVec.mul_neg, BitVec.neg_neg]

theorem moneymult_bits {val : BitVec 32} (hm : m.isNull = false)
    (hval : val ≠ BitVec.intMin 32) :
    (moneymult m val).bits = m.bits * val.signExtend 48 := by
  have hmsb := magnitude_msb hval
  have hmin : ¬ val = 0x80000000 := hval
  rw [moneymult, if_neg hmin, if_neg (Bool.eq_false_iff.mp hm)]
  refine signed_product ?_
  rw [multMagnitude_bits _ hmsb, ← BitVec.signExtend_eq_setWidth_of_msb_false hmsb,
    apply_ite Monstr.bits, moneyNeg_bits, apply_ite (BitVec.signExtend 48),
    sign_extend_neg hval]

end Operations

/-! The values. -/

/-- A value of the type that is not the code of the missing one. -/
def InRange (v : Int) : Prop := -2 ^ 47 < v ∧ v < 2 ^ 47

section Values

variable {m m1 m2 : Monstr}

theorem value_inRange (hm : m.isNull = false) : InRange m.value := by
  have hne : m.value ≠ -2 ^ 47 := fun hvalue => by
    rw [← Monstr.isNull_iff_value, hm] at hvalue
    cases hvalue
  have hlow := m.bits.le_toInt
  have hhigh := m.bits.toInt_lt
  simp only [Monstr.value] at hne
  exact ⟨by simp only [Monstr.value]; omega, by simp only [Monstr.value]; omega⟩

theorem InRange.bmod {v : Int} (hv : InRange v) : v.bmod (2 ^ 48) = v := by
  obtain ⟨hlow, hhigh⟩ := hv
  exact Int.bmod_eq_of_le (by omega) (by omega)

theorem moneyNeg_value (hm : m.isNull = false) : (moneyNeg m).value = -m.value := by
  obtain ⟨hlow, hhigh⟩ := value_inRange hm
  have hrange : InRange (-m.value) := ⟨by omega, by omega⟩
  rw [Monstr.value, moneyNeg_bits, BitVec.toInt_neg]
  exact hrange.bmod

theorem moneyadd_value (h1 : m1.isNull = false) (h2 : m2.isNull = false)
    (hrange : InRange (m1.value + m2.value)) :
    (moneyadd m1 m2).value = m1.value + m2.value := by
  rw [Monstr.value, moneyadd_bits h1 h2, BitVec.toInt_add]
  exact hrange.bmod

theorem moneysub_value (h1 : m1.isNull = false) (h2 : m2.isNull = false)
    (hrange : InRange (m1.value - m2.value)) :
    (moneysub m1 m2).value = m1.value - m2.value := by
  rw [Monstr.value, moneysub_bits h1 h2, BitVec.toInt_sub]
  exact hrange.bmod

theorem moneymult_value {val : BitVec 32} (hm : m.isNull = false)
    (hval : val ≠ BitVec.intMin 32) (hrange : InRange (m.value * val.toInt)) :
    (moneymult m val).value = m.value * val.toInt := by
  rw [Monstr.value, moneymult_bits hm hval, BitVec.toInt_mul,
    BitVec.toInt_signExtend_of_le (by decide)]
  exact hrange.bmod

theorem cmpmoney_value (m1 m2 : Monstr) :
    cmpmoney m1 m2 =
      if m1.value = m2.value then 0 else if m1.value < m2.value then -1 else 1 := by
  have hlo1 := m1.moneyLo2.isLt
  have hlo2 := m2.moneyLo2.isLt
  have hhi : m1.moneyHi4 = m2.moneyHi4 ↔ m1.moneyHi4.toInt = m2.moneyHi4.toInt :=
    BitVec.toInt_inj.symm
  have hlo : m1.moneyLo2 = m2.moneyLo2 ↔ m1.moneyLo2.toNat = m2.moneyLo2.toNat :=
    BitVec.toNat_inj.symm
  simp only [cmpmoney, Monstr.value_eq, hhi, hlo, BitVec.slt_iff_toInt_lt,
    BitVec.ult_iff_toNat_lt]
  generalize m1.moneyHi4.toInt = hi1 at *
  generalize m2.moneyHi4.toInt = hi2 at *
  split_ifs <;> omega

theorem int2money_value {i : BitVec 32} (hi : i ≠ BitVec.intMin 32) :
    (int2money i).value = i.toInt * 100 := by
  have hlow := i.le_toInt
  have hhigh := i.toInt_lt
  have hmin : ¬ i = 0x80000000 := hi
  have hhalf : (((i.sshiftRight 16).setWidth 16).signExtend 32).toInt = i.toInt / 65536 := by
    rw [BitVec.toInt_signExtend_of_le (by decide), BitVec.toInt_setWidth]
    have hshift : ((i.sshiftRight 16).toNat : Int).bmod (2 ^ 16) =
        (i.sshiftRight 16).toInt.bmod (2 ^ 16) := by
      rw [BitVec.toInt_eq_toNat_bmod, Int.bmod_bmod_of_dvd (by decide)]
    rw [hshift, BitVec.toInt_sshiftRight, Int.shiftRight_eq_div_pow]
    exact Int.bmod_eq_of_le (by omega) (by omega)
  have hvalue :
      (Monstr.mk (i.setWidth 16) (((i.sshiftRight 16).setWidth 16).signExtend 32)).value =
        i.toInt := by
    rw [Monstr.value_eq, hhalf, BitVec.toNat_setWidth, BitVec.toInt_eq_toNat_cond]
    split <;> omega
  have hundred : (100 : BitVec 32).toInt = 100 := rfl
  rw [int2money, if_neg hmin, moneymult_value, hvalue, hundred]
  · rw [← Bool.not_eq_true, Monstr.isNull_iff_value, hvalue]
    omega
  · decide
  · rw [hvalue, hundred]
    exact ⟨by omega, by omega⟩

/-! Division by ten. -/

section Division

variable {m : Monstr} (hm : m.bits.toNat < 2 ^ 47)
include hm

theorem hi_msb : m.moneyHi4.msb = false := by
  rw [Monstr.bits_toNat] at hm
  rw [BitVec.msb_eq_false_iff_two_mul_lt]
  omega

theorem hi_srem : (m.moneyHi4.srem 10).toNat = m.moneyHi4.toNat % 10 := by
  rw [BitVec.toNat_srem, hi_msb hm]
  rfl

theorem hi_sdiv : (m.moneyHi4.sdiv 10).toNat = m.moneyHi4.toNat / 10 := by
  rw [BitVec.toNat_sdiv, hi_msb hm]
  rfl

omit hm in
/-- What is left of the high half goes to the low one. -/
theorem bits_split (m : Monstr) :
    m.bits.toNat = 10 * (m.moneyHi4.toNat / 10 * 65536) +
      (m.moneyLo2.toNat + m.moneyHi4.toNat % 10 * 65536) := by
  rw [Monstr.bits_toNat]
  omega

omit hm in
theorem low_toNat {rem : BitVec 32} (hrem : rem.toNat < 10) (lo : BitVec 16) :
    (lo.setWidth 32 + rem * 0x10000).toNat = lo.toNat + rem.toNat * 65536 := by
  have hlo := lo.isLt
  bv_omega

theorem moneyMod10_eq : moneyMod10 m = m.bits.toNat % 10 := by
  have hrem := hi_srem hm
  have hten : (10 : BitVec 32).toNat = 10 := rfl
  rw [moneyMod10, BitVec.add_comm, BitVec.toNat_umod, low_toNat (by omega), hrem, hten,
    bits_split m, Nat.mul_add_mod]

theorem moneyDiv10_toNat : (moneyDiv10 m).bits.toNat = m.bits.toNat / 10 := by
  have hlo := m.moneyLo2.isLt
  have hrem := hi_srem hm
  have hten : (10 : BitVec 32).toNat = 10 := rfl
  rw [bits_split m, Nat.mul_add_div (by decide), Monstr.bits_toNat, moneyDiv10,
    BitVec.toNat_setWidth, BitVec.toNat_udiv, low_toNat (by omega), hrem, hi_sdiv hm, hten,
    Nat.mod_eq_of_lt]
  omega

end Division

theorem nonneg_toNat {m : Monstr} (hm : m.isNull = false) (hsign : 0 ≤ m.value) :
    m.bits.toNat < 2 ^ 47 ∧ (m.bits.toNat : Int) = m.value := by
  have hrange := value_inRange hm
  have hlt := m.bits.isLt
  rw [Monstr.value, BitVec.toInt_eq_toNat_cond] at *
  split at hsign
  · rw [if_pos ‹_›]
    omega
  · omega

/-- The operations on texts and numbers first take the sign off. -/
theorem magnitude_toNat (hm : m.isNull = false) :
    (if m.moneyHi4.slt 0 then moneyNeg m else m).bits.toNat < 2 ^ 47 ∧
      (if m.moneyHi4.slt 0 then moneyNeg m else m).bits.toNat = m.value.natAbs := by
  obtain ⟨hlow, hhigh⟩ := value_inRange hm
  split
  case isTrue hneg =>
    rw [Monstr.moneyHi4_neg_iff] at hneg
    have hvalue := moneyNeg_value hm
    have hnonnull : (moneyNeg m).isNull = false := by
      rw [← Bool.not_eq_true, Monstr.isNull_iff_value, hvalue]
      omega
    obtain ⟨hlt, htoNat⟩ := nonneg_toNat hnonnull (by omega)
    exact ⟨hlt, by omega⟩
  case isFalse hpos =>
    rw [Monstr.moneyHi4_neg_iff] at hpos
    obtain ⟨hlt, htoNat⟩ := nonneg_toNat hm (by omega)
    exact ⟨hlt, by omega⟩

theorem money2int_value (hm : m.isNull = false)
    (hrange : -2 ^ 31 < m.value.tdiv 100 ∧ m.value.tdiv 100 < 2 ^ 31) :
    (money2int m).toInt = m.value.tdiv 100 := by
  obtain ⟨hlt, htoNat⟩ := magnitude_toNat hm
  rw [money2int, if_neg (Bool.eq_false_iff.mp hm)]
  dsimp only
  generalize hmagnitude : (if m.moneyHi4.slt 0 then moneyNeg m else m) = magnitude at *
  have hfirst := moneyDiv10_toNat hlt
  have hsecond := moneyDiv10_toNat (m := moneyDiv10 magnitude) (by omega)
  rw [hfirst, htoNat, Nat.div_div_eq_div_mul] at hsecond
  have hquot : (m.value.tdiv 100).natAbs = m.value.natAbs / 100 := by
    rw [Int.natAbs_tdiv]
    rfl
  have hi : (((moneyDiv10 (moneyDiv10 magnitude)).moneyHi4 &&& 0xffff) <<< 16 +
      (moneyDiv10 (moneyDiv10 magnitude)).moneyLo2.setWidth 32).toNat =
        m.value.natAbs / 100 := by
    have hlo := (moneyDiv10 (moneyDiv10 magnitude)).moneyLo2.isLt
    rw [Monstr.bits_toNat] at hsecond
    have hmask : (0xffff : BitVec 32).toNat = 2 ^ 16 - 1 := rfl
    rw [BitVec.toNat_add, BitVec.toNat_shiftLeft, BitVec.toNat_and, hmask,
      Nat.and_two_pow_sub_one_eq_mod, Nat.shiftLeft_eq, BitVec.toNat_setWidth]
    omega
  generalize ((moneyDiv10 (moneyDiv10 magnitude)).moneyHi4 &&& 0xffff) <<< 16 +
    (moneyDiv10 (moneyDiv10 magnitude)).moneyLo2.setWidth 32 = i at *
  have hipos : i.toInt = m.value.natAbs / 100 := by
    rw [BitVec.toInt_eq_toNat_cond, if_pos (by omega)]
    omega
  split
  case isTrue hneg =>
    rw [Monstr.moneyHi4_neg_iff] at hneg
    have hvalue : m.value = -(m.value.natAbs : Int) := by omega
    rw [BitVec.toInt_neg, Int.bmod_eq_of_le (by omega) (by omega), hipos, hvalue, Int.neg_tdiv,
      Int.natAbs_neg]
    rfl
  case isFalse hpos =>
    rw [Monstr.moneyHi4_neg_iff] at hpos
    have hvalue : m.value = (m.value.natAbs : Int) := by omega
    rw [hipos, hvalue]
    rfl

end Values

end Sql602.Convert
