import Mathlib.Order.Defs.LinearOrder

namespace Levels

/-! Comparison of sequences of weights by two levels. The strong parts of all weights come
before the whole weights. -/

variable {α β : Type*} [Ord α] [Ord β]

def compareLevels (strong : α → β) (xs ys : List α) : Ordering :=
  (compare (xs.map strong) (ys.map strong)).then (compare xs ys)

/-- In one pass. The first weaker difference is remembered. -/
def scan (strong : α → β) : Ordering → List α → List α → Ordering
  | weaker, [], [] => weaker
  | _, [], _ :: _ => .lt
  | _, _ :: _, [] => .gt
  | weaker, x :: xs, y :: ys =>
      (compare (strong x) (strong y)).then (scan strong (weaker.then (compare x y)) xs ys)

theorem scan_eq (strong : α → β) (weaker : Ordering) (xs ys : List α) :
    scan strong weaker xs ys =
      (compare (xs.map strong) (ys.map strong)).then (weaker.then (compare xs ys)) := by
  induction xs generalizing weaker ys with
  | nil =>
      cases ys with
      | nil => cases weaker <;> rfl
      | cons y ys => rfl
  | cons x xs ih =>
      cases ys with
      | nil => rfl
      | cons y ys =>
          simp only [scan, ih, List.map_cons, List.compare_cons_cons, Ordering.then_assoc]

instance instTransCmpLevels [Std.TransOrd α] [Std.TransOrd β] (strong : α → β) :
    Std.TransCmp (compareLevels strong) :=
  inferInstanceAs (Std.TransCmp (compareLex (compareOn (List.map strong)) compare))

end Levels
