import Mathlib.Data.Nat.Digits.Lemmas
import Mathlib.Data.UInt
import Mathlib.Data.List.Basic

namespace Digits

/-! Numbers in fixed-width base 256, the least significant byte first. -/

def value (bytes : List UInt8) : Nat :=
  Nat.ofDigits 256 (bytes.map UInt8.toNat)

/-- Adds one with the carry running through the bytes that become zero. -/
def succ : List UInt8 → List UInt8
  | [] => []
  | byte :: bytes =>
      if byte + 1 = 0 then (byte + 1) :: succ bytes else (byte + 1) :: bytes

@[simp] theorem value_nil : value [] = 0 := rfl

@[simp] theorem value_cons (byte : UInt8) (bytes : List UInt8) :
    value (byte :: bytes) = byte.toNat + 256 * value bytes := by
  simp [value, Nat.ofDigits_cons]

theorem value_lt (bytes : List UInt8) : value bytes < 256 ^ bytes.length := by
  have hdigits : ∀ digit ∈ bytes.map UInt8.toNat, digit < 256 := by
    intro digit hmem
    obtain ⟨byte, _, rfl⟩ := List.mem_map.mp hmem
    exact byte.toNat_lt
  simpa [value] using Nat.ofDigits_lt_base_pow_length (by decide) hdigits

private theorem toNat_add_one {byte : UInt8} (hzero : byte + 1 ≠ 0) :
    (byte + 1).toNat = byte.toNat + 1 := by
  have hlt := byte.toNat_lt
  have hne : (byte + 1).toNat ≠ 0 := fun h => hzero (UInt8.toNat_inj.mp h)
  rw [UInt8.toNat_add] at hne ⊢
  simp only [UInt8.toNat_one] at hne ⊢
  omega

private theorem toNat_of_add_one {byte : UInt8} (hzero : byte + 1 = 0) :
    byte.toNat = 255 := by
  have hlt := byte.toNat_lt
  have heq : (byte + 1).toNat = 0 := by rw [hzero]; rfl
  rw [UInt8.toNat_add] at heq
  simp only [UInt8.toNat_one] at heq
  omega

theorem value_succ {bytes : List UInt8}
    (hroom : value bytes + 1 < 256 ^ bytes.length) :
    value (succ bytes) = value bytes + 1 := by
  induction bytes with
  | nil => simp at hroom
  | cons byte bytes ih =>
      simp only [succ]
      split
      case isTrue hzero =>
        have hbyte := toNat_of_add_one hzero
        have htail : value bytes + 1 < 256 ^ bytes.length := by
          simp only [value_cons, hbyte, List.length_cons, Nat.pow_succ] at hroom
          omega
        rw [hzero, value_cons, value_cons, ih htail, hbyte, UInt8.toNat_zero]
        omega
      case isFalse hzero =>
        rw [value_cons, value_cons, toNat_add_one hzero]
        omega

end Digits

namespace MixedRadix

/-! Numbers whose digits have radices of their own. The most significant digit comes first
and has no radix. -/

def value : Nat → List Nat → List Nat → Nat
  | high, radix :: radices, digit :: digits => value (high * radix + digit) radices digits
  | high, _, _ => high

/-- Every digit is below its radix. -/
abbrev Below (digits radices : List Nat) : Prop := List.Forall₂ (· < ·) digits radices

section Step

variable {high high' radix digit digit' : Nat}

theorem step_lt (hdigit : digit < radix) (hlt : high < high') :
    high * radix + digit < high' * radix + digit' :=
  calc
    high * radix + digit < high * radix + radix := Nat.add_lt_add_left hdigit _
    _ = (high + 1) * radix := (Nat.succ_mul high radix).symm
    _ ≤ high' * radix := Nat.mul_le_mul_right radix hlt
    _ ≤ high' * radix + digit' := Nat.le_add_right _ _

theorem step_lt_iff (hdigit : digit < radix) (hdigit' : digit' < radix) :
    high * radix + digit < high' * radix + digit' ↔ high < high' ∨ high = high' ∧ digit < digit' := by
  constructor
  · intro hlt
    obtain hhigh | rfl | hhigh := Nat.lt_trichotomy high high'
    · exact Or.inl hhigh
    · exact Or.inr ⟨rfl, Nat.lt_of_add_lt_add_left hlt⟩
    · exact absurd hlt (Nat.lt_asymm (step_lt hdigit' hhigh))
  · rintro (hhigh | ⟨rfl, hlt⟩)
    · exact step_lt hdigit hhigh
    · exact Nat.add_lt_add_left hlt _

theorem step_inj (hdigit : digit < radix) (hdigit' : digit' < radix) :
    high * radix + digit = high' * radix + digit' ↔ high = high' ∧ digit = digit' := by
  constructor
  · intro heq
    obtain hhigh | rfl | hhigh := Nat.lt_trichotomy high high'
    · exact absurd heq (Nat.ne_of_lt (step_lt hdigit hhigh))
    · exact ⟨rfl, Nat.add_left_cancel heq⟩
    · exact absurd heq (Nat.ne_of_gt (step_lt hdigit' hhigh))
  · rintro ⟨rfl, rfl⟩
    rfl

end Step

/-- Numbers compare as their digits do, the most significant difference first. -/
theorem value_lt_iff {high high' : Nat} {digits digits' radices : List Nat}
    (hdigits : Below digits radices) (hdigits' : Below digits' radices) :
    value high radices digits < value high' radices digits' ↔
      high :: digits < high' :: digits' := by
  induction hdigits generalizing high high' digits' with
  | nil =>
      cases hdigits'
      simp only [value, List.cons_lt_cons_iff, List.lt_irrefl, and_false, or_false]
  | cons hdigit _ ih =>
      cases hdigits' with
      | cons hdigit' hrest' =>
          simp only [value]
          rw [ih hrest']
          simp only [List.cons_lt_cons_iff, step_lt_iff hdigit hdigit', step_inj hdigit hdigit',
            and_or_left, and_assoc, or_assoc]

end MixedRadix
