import Mathlib.Data.Nat.Bitwise

namespace Bitmap

/-! Bitmaps as numbers: bit `j` of byte `i` is bit `8 * i + j` of the number. -/

def byte (map i : Nat) : Nat := map >>> (8 * i) % 2 ^ 8

def add (map k : Nat) : Nat := map ||| 1 <<< k

def toggle (map k : Nat) : Nat := map ^^^ 1 <<< k

def clear (map start size : Nat) : Nat := map ^^^ (map &&& (2 ^ size - 1) <<< start)

theorem testBit_single (k j : Nat) : (1 <<< k).testBit j = decide (k = j) := by
  rw [Nat.one_shiftLeft, Nat.testBit_two_pow]

@[simp] theorem testBit_add (map k j : Nat) :
    (add map k).testBit j = (map.testBit j || decide (k = j)) := by
  rw [add, Nat.testBit_or, testBit_single]

@[simp] theorem testBit_toggle (map k j : Nat) :
    (toggle map k).testBit j = (map.testBit j ^^ decide (k = j)) := by
  rw [toggle, Nat.testBit_xor, testBit_single]

@[simp] theorem testBit_clear (map start size j : Nat) :
    (clear map start size).testBit j =
      (map.testBit j && !decide (start ≤ j ∧ j < start + size)) := by
  rw [clear, Nat.testBit_xor, Nat.testBit_and, Nat.testBit_shiftLeft,
    Nat.testBit_two_pow_sub_one]
  by_cases hstart : start ≤ j
  · have hsize : j - start < size ↔ j < start + size := by omega
    cases map.testBit j <;> simp [hstart, hsize]
  · cases map.testBit j <;> simp [hstart]

theorem testBit_byte (map i j : Nat) :
    (byte map i).testBit j = (decide (j < 8) && map.testBit (8 * i + j)) := by
  rw [byte, Nat.testBit_mod_two_pow, Nat.testBit_shiftRight]

theorem testBit_of_full_byte {map i j : Nat} (hbyte : byte map i = 2 ^ 8 - 1) (hj : j < 8) :
    map.testBit (8 * i + j) = true := by
  have hbit := testBit_byte map i j
  rw [hbyte, Nat.testBit_two_pow_sub_one] at hbit
  simpa [hj] using hbit.symm

end Bitmap
