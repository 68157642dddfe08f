import Mathlib.Data.Nat.Basic

namespace Firsts

/-! The first and the last number with a property, and the search for them step by step. -/

variable {good found : Nat → Prop}

def IsFirst (good : Nat → Prop) : Option Nat → Prop
  | none => ∀ p, ¬ good p
  | some p => good p ∧ ∀ q < p, ¬ good q

def IsLast (good : Nat → Prop) : Option Nat → Prop
  | none => ∀ p, ¬ good p
  | some p => good p ∧ ∀ q, p < q → ¬ good q

theorem IsFirst.congr {result : Option Nat} (hfirst : IsFirst good result)
    (hsame : ∀ p, good p ↔ found p) : IsFirst found result := by
  cases result with
  | none => exact fun p hp => hfirst p ((hsame p).mpr hp)
  | some p => exact ⟨(hsame p).mp hfirst.1, fun q hq hfound => hfirst.2 q hq ((hsame q).mpr hfound)⟩

theorem IsLast.congr {result : Option Nat} (hlast : IsLast good result)
    (hsame : ∀ p, good p ↔ found p) : IsLast found result := by
  cases result with
  | none => exact fun p hp => hlast p ((hsame p).mpr hp)
  | some p => exact ⟨(hsame p).mp hlast.1, fun q hq hfound => hlast.2 q hq ((hsame q).mpr hfound)⟩

/-- Two properties have the same first number exactly when any number that distinguishes them
comes after one with both. -/
theorem isFirst_iff {result : Option Nat} (hfound : IsFirst found result) :
    IsFirst good result ↔ ∀ p, ¬ (found p ↔ good p) → ∃ q < p, found q ∧ good q := by
  constructor
  · intro hgood p hdiffer
    cases result with
    | none => exact absurd (iff_of_false (hfound p) (hgood p)) hdiffer
    | some r =>
        refine ⟨r, ?_, hfound.1, hgood.1⟩
        by_contra hnot
        obtain hlt | rfl := Nat.lt_or_eq_of_le (Nat.le_of_not_lt hnot)
        · exact hdiffer (iff_of_false (hfound.2 p hlt) (hgood.2 p hlt))
        · exact hdiffer (iff_of_true hfound.1 hgood.1)
  · intro hdiffer
    cases result with
    | none =>
        intro p hp
        obtain ⟨q, -, hq, -⟩ := hdiffer p fun hsame => hfound p (hsame.mpr hp)
        exact hfound q hq
    | some r =>
        have hbefore : ∀ q < r, ¬ good q := by
          intro q hq hgood
          obtain ⟨n, hn, hnfound, -⟩ := hdiffer q fun hsame => hfound.2 q hq (hsame.mpr hgood)
          exact hfound.2 n (Nat.lt_trans hn hq) hnfound
        refine ⟨?_, hbefore⟩
        by_contra hnot
        obtain ⟨q, hq, hqfound, -⟩ := hdiffer r fun hsame => hnot (hsame.mp hfound.1)
        exact hfound.2 q hq hqfound

def searchUp (accepts : Nat → Bool) : Nat → Nat → Option Nat
  | 0, _ => none
  | count + 1, p => if accepts p then some p else searchUp accepts count (p + 1)

def searchDown (accepts : Nat → Bool) : Nat → Option Nat
  | 0 => if accepts 0 then some 0 else none
  | p + 1 => if accepts (p + 1) then some (p + 1) else searchDown accepts p

variable {accepts : Nat → Bool}

theorem searchUp_first (count start : Nat) :
    IsFirst (fun p => start ≤ p ∧ p < start + count ∧ accepts p = true)
      (searchUp accepts count start) := by
  induction count generalizing start with
  | zero =>
      intro p hp
      omega
  | succ count ih =>
      rw [searchUp]
      split
      · next hstart =>
          refine ⟨⟨Nat.le_refl start, by omega, hstart⟩, fun q hq hgood => ?_⟩
          exact absurd hgood.1 (Nat.not_le.mpr hq)
      · next hnot =>
          refine (ih (start + 1)).congr fun p => ?_
          constructor
          · rintro ⟨hle, hlt, hp⟩
            exact ⟨by omega, by omega, hp⟩
          · rintro ⟨hle, hlt, hp⟩
            have hne : p ≠ start := by
              rintro rfl
              exact hnot hp
            exact ⟨by omega, by omega, hp⟩

theorem searchDown_last (start : Nat) :
    IsLast (fun p => p ≤ start ∧ accepts p = true) (searchDown accepts start) := by
  induction start with
  | zero =>
      rw [searchDown]
      split
      · next hstart => exact ⟨⟨Nat.le_refl 0, hstart⟩, fun q hq hgood => absurd hgood.1 (by omega)⟩
      · next hnot =>
          rintro p ⟨hle, hp⟩
          obtain rfl := Nat.le_zero.mp hle
          exact hnot hp
  | succ start ih =>
      rw [searchDown]
      split
      · next hstart =>
          exact ⟨⟨Nat.le_refl _, hstart⟩, fun q hq hgood => absurd hgood.1 (by omega)⟩
      · next hnot =>
          refine ih.congr fun p => ?_
          constructor
          · rintro ⟨hle, hp⟩
            exact ⟨by omega, hp⟩
          · rintro ⟨hle, hp⟩
            have hne : p ≠ start + 1 := by
              rintro rfl
              exact hnot hp
            exact ⟨by omega, hp⟩

end Firsts
