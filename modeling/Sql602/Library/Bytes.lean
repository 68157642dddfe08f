import Sql602.Library.Digits

namespace Bytes

/-! Byte memories without an end. A word is a number in four bytes, the least
significant one first. -/

abbrev Memory := Nat → UInt8

/-- The `len` bytes of `src` from `start` on are copied to `pos`. The source is
read as it was before, so that the two ranges may overlap. -/
def copy (dest : Memory) (pos : Nat) (src : Memory) (start len : Nat) : Memory :=
  fun i => if pos ≤ i ∧ i < pos + len then src (start + (i - pos)) else dest i

def word (memory : Memory) (pos : Nat) : Nat :=
  Digits.value [memory pos, memory (pos + 1), memory (pos + 2), memory (pos + 3)]

def byteOf (n i : Nat) : UInt8 := UInt8.ofNat (n / 256 ^ i)

def putWord (memory : Memory) (pos n : Nat) : Memory :=
  copy memory pos (byteOf n) 0 4

def slice (memory : Memory) (start len : Nat) : List UInt8 :=
  (List.range len).map fun i => memory (start + i)

section Copy

variable {dest src : Memory} {pos start len i : Nat}

theorem copy_inside (hlow : pos ≤ i) (hhigh : i < pos + len) :
    copy dest pos src start len i = src (start + (i - pos)) :=
  if_pos ⟨hlow, hhigh⟩

theorem copy_outside (hout : i < pos ∨ pos + len ≤ i) :
    copy dest pos src start len i = dest i :=
  if_neg (by omega)

theorem copy_self (memory : Memory) (pos len : Nat) : copy memory pos memory pos len = memory := by
  funext i
  simp only [copy]
  split
  · congr 1
    omega
  · rfl

end Copy

section Word

variable {memory other src : Memory} {pos start len at' n : Nat}

theorem word_congr (hsame : ∀ i < 4, memory (pos + i) = other (at' + i)) :
    word memory pos = word other at' := by
  have h0 := hsame 0 (by decide)
  have h1 := hsame 1 (by decide)
  have h2 := hsame 2 (by decide)
  have h3 := hsame 3 (by decide)
  simp only [Nat.add_zero] at h0
  simp only [word, h0, h1, h2, h3]

theorem word_copy (hlow : pos ≤ at') (hhigh : at' + 4 ≤ pos + len) :
    word (copy memory pos src start len) at' = word src (start + (at' - pos)) := by
  refine word_congr fun i hi => ?_
  rw [copy_inside (by omega) (by omega)]
  congr 1
  omega

theorem word_copy_outside (hout : at' + 4 ≤ pos ∨ pos + len ≤ at') :
    word (copy memory pos src start len) at' = word memory at' :=
  word_congr fun i hi => copy_outside (by omega)

theorem word_putWord (hn : n < 2 ^ 32) : word (putWord memory pos n) pos = n := by
  have hbyte : ∀ i < 4, putWord memory pos n (pos + i) = byteOf n i := by
    intro i hi
    rw [putWord, copy_inside (by omega) (by omega)]
    congr 1
    omega
  have h0 := hbyte 0 (by decide)
  have h1 := hbyte 1 (by decide)
  have h2 := hbyte 2 (by decide)
  have h3 := hbyte 3 (by decide)
  simp only [Nat.add_zero] at h0
  simp only [word, h0, h1, h2, h3, byteOf, Digits.value_cons, Digits.value_nil,
    UInt8.toNat_ofNat']
  omega

theorem word_putWord_outside (hout : at' + 4 ≤ pos ∨ pos + 4 ≤ at') :
    word (putWord memory pos n) at' = word memory at' :=
  word_copy_outside hout

theorem putWord_outside {i : Nat} (hout : i < pos ∨ pos + 4 ≤ i) :
    putWord memory pos n i = memory i :=
  copy_outside hout

end Word

section Slice

variable {memory other : Memory} {start len : Nat}

@[simp] theorem slice_length : (slice memory start len).length = len := by
  simp [slice]

theorem slice_zero : slice memory start 0 = [] := rfl

theorem slice_congr {from' : Nat} (hsame : ∀ i < len, memory (start + i) = other (from' + i)) :
    slice memory start len = slice other from' len :=
  List.map_congr_left fun i hi => hsame i (List.mem_range.mp hi)

theorem slice_append (memory : Memory) (start len more : Nat) :
    slice memory start len ++ slice memory (start + len) more =
      slice memory start (len + more) := by
  simp only [slice, List.range_add, List.map_append, List.map_map]
  congr 1
  refine List.map_congr_left fun i _ => ?_
  simp only [Function.comp_apply, Nat.add_assoc]

end Slice

end Bytes
