import Mathlib.Data.Nat.ModEq
import Mathlib.Logic.Function.Basic
import Mathlib.Data.Fintype.EquivFin

namespace Strides

/-! The cells of a ring visited with a step that is coprime to the size of the ring, and the
contents moved along the visit by one visited cell. -/

def visit (step size i : Nat) : Nat := i * step % size

variable {step size i k : Nat}

@[simp] theorem visit_zero : visit step size 0 = 0 := by
  rw [visit, Nat.zero_mul, Nat.zero_mod]

theorem visit_lt (hsize : 0 < size) : visit step size i < size := Nat.mod_lt _ hsize

theorem visit_succ : visit step size (i + 1) = (visit step size i + step) % size := by
  rw [visit, visit, Nat.mod_add_mod, Nat.succ_mul]

@[simp] theorem visit_size : visit step size size = 0 := by
  rw [visit, Nat.mul_mod_right]

theorem visit_injective (hcoprime : Nat.gcd size step = 1) (hi : i < size) (hk : k < size)
    (hsame : visit step size i = visit step size k) : i = k := by
  have hmod : i * step ≡ k * step [MOD size] := hsame
  exact Nat.ModEq.eq_of_lt_of_lt (Nat.ModEq.cancel_right_of_coprime hcoprime hmod) hi hk

theorem visit_succ_injective (hcoprime : Nat.gcd size step = 1) (hi : i < size) (hk : k < size)
    (hsame : visit step size (i + 1) = visit step size (k + 1)) : i = k := by
  have hmod : (i + 1) * step ≡ (k + 1) * step [MOD size] := hsame
  have hsucc : i + 1 ≡ k + 1 [MOD size] := Nat.ModEq.cancel_right_of_coprime hcoprime hmod
  exact Nat.ModEq.eq_of_lt_of_lt (Nat.ModEq.add_right_cancel' 1 hsucc) hi hk

theorem visit_surjective (hcoprime : Nat.gcd size step = 1) {cell : Nat} (hcell : cell < size) :
    ∃ i < size, visit step size i = cell := by
  have hsize : 0 < size := Nat.zero_lt_of_lt hcell
  have hinjective : Function.Injective fun i : Fin size =>
      (⟨visit step size i, visit_lt hsize⟩ : Fin size) := by
    intro first second hsame
    exact Fin.ext (visit_injective hcoprime first.isLt second.isLt (congrArg Fin.val hsame))
  obtain ⟨i, hi⟩ := Finite.surjective_of_injective hinjective ⟨cell, hcell⟩
  exact ⟨i, i.isLt, congrArg Fin.val hi⟩

/-- Cells that agree at every visited cell and outside the ring are the same. -/
theorem funext_visit {α : Type*} {first second : Nat → α} (hcoprime : Nat.gcd size step = 1)
    (hvisited : ∀ i < size, first (visit step size i) = second (visit step size i))
    (houtside : ∀ cell, size ≤ cell → first cell = second cell) : first = second := by
  funext cell
  obtain hcell | hcell := Nat.lt_or_ge cell size
  · obtain ⟨i, hi, rfl⟩ := visit_surjective hcoprime hcell
    exact hvisited i hi
  · exact houtside cell hcell

theorem funext_visit_succ {α : Type*} {first second : Nat → α}
    (hcoprime : Nat.gcd size step = 1)
    (hvisited : ∀ i < size, first (visit step size (i + 1)) = second (visit step size (i + 1)))
    (houtside : ∀ cell, size ≤ cell → first cell = second cell) : first = second := by
  refine funext_visit hcoprime (fun i hi => ?_) houtside
  cases i with
  | zero =>
      have hlast := hvisited (size - 1) (Nat.sub_lt hi Nat.one_pos)
      rw [Nat.sub_add_cancel hi, visit_size] at hlast
      rw [visit_zero]
      exact hlast
  | succ i => exact hvisited i (Nat.lt_of_succ_lt hi)

end Strides
