import Mathlib.Data.List.Basic

namespace Closing

/-! A list is closed up when the elements to be kept are moved from its end into the gaps
before them. -/

variable {α : Type*} (valid deleted : α → Bool) (mix : α → α → α)

/-- The valid elements that stay where they are. -/
def kept (list : List α) : List α := (list.take (list.countP valid)).filter valid

/-- The elements that are to be replaced, in their order. -/
def gaps (list : List α) : List α := (list.take (list.countP valid)).filter (!valid ·)

/-- The elements that replace them, from the last one. -/
def movers (list : List α) : List α := ((list.drop (list.countP valid)).filter valid).reverse

/-- The place behind the valid elements, when it is where both directions meet. -/
def meeting (list : List α) : List α :=
  match list.drop (list.countP valid) with
  | [] => []
  | x :: rest => if deleted x && rest.head?.all valid then [x] else []

def closed (list : List α) : List α :=
  kept valid list ++ List.zipWith mix (gaps valid list) (movers valid list)

variable {valid deleted mix} {list first middle last : List α} {x d s : α}

theorem countP_front (hfirst : ∀ x ∈ first, valid x = true) :
    (first ++ list).countP valid = first.length + list.countP valid := by
  rw [List.countP_append, List.countP_eq_length.mpr hfirst]

theorem drop_front (hfirst : ∀ x ∈ first, valid x = true) :
    (first ++ list).drop ((first ++ list).countP valid) = list.drop (list.countP valid) := by
  rw [countP_front hfirst, List.drop_length_add_append]

theorem take_front (hfirst : ∀ x ∈ first, valid x = true) :
    (first ++ list).take ((first ++ list).countP valid) =
      first ++ list.take (list.countP valid) := by
  rw [countP_front hfirst, List.take_length_add_append]

theorem closed_front (hfirst : ∀ x ∈ first, valid x = true) :
    closed valid mix (first ++ list) = first ++ closed valid mix list := by
  have hnone : first.filter (!valid ·) = [] := by
    rw [List.filter_eq_nil_iff]
    intro x hx
    rw [hfirst x hx]
    exact Bool.false_ne_true
  rw [closed, closed, kept, kept, gaps, gaps, movers, movers, take_front hfirst,
    drop_front hfirst, List.filter_append, List.filter_append, hnone,
    List.filter_eq_self.mpr hfirst, List.nil_append, List.append_assoc]

theorem meeting_front (hfirst : ∀ x ∈ first, valid x = true) :
    meeting valid deleted (first ++ list) = meeting valid deleted list := by
  rw [meeting, meeting, drop_front hfirst]

section Step

variable (hd : valid d = false) (hs : valid s = true) (hlast : ∀ x ∈ last, valid x = false)

include hd hs hlast

theorem countP_step :
    (d :: (middle ++ s :: last)).countP valid = middle.countP valid + 1 := by
  have hnone : last.countP valid = 0 := by
    rw [List.countP_eq_zero]
    intro x hx
    rw [hlast x hx]
    exact Bool.false_ne_true
  rw [List.countP_cons_of_neg (Bool.eq_false_iff.mp hd), List.countP_append,
    List.countP_cons_of_pos hs, hnone]

theorem take_step : (d :: (middle ++ s :: last)).take
    ((d :: (middle ++ s :: last)).countP valid) = d :: middle.take (middle.countP valid) := by
  rw [countP_step hd hs hlast, List.take_succ_cons,
    List.take_append_of_le_length List.countP_le_length]

theorem drop_step : (d :: (middle ++ s :: last)).drop
    ((d :: (middle ++ s :: last)).countP valid) =
      middle.drop (middle.countP valid) ++ s :: last := by
  rw [countP_step hd hs hlast, List.drop_succ_cons,
    List.drop_append_of_le_length List.countP_le_length]

/-- The first gap is closed by the last valid element. -/
theorem closed_step : (closed valid mix (d :: (middle ++ s :: last))).Perm
    (mix d s :: closed valid mix middle) := by
  have hnone : last.filter valid = [] := by
    rw [List.filter_eq_nil_iff]
    intro x hx
    rw [hlast x hx]
    exact Bool.false_ne_true
  have hgap : (!valid d) = true := by rw [hd]; rfl
  rw [closed, closed, kept, kept, gaps, gaps, movers, movers, take_step hd hs hlast,
    drop_step hd hs hlast, List.filter_cons_of_neg (Bool.eq_false_iff.mp hd),
    @List.filter_cons_of_pos _ (!valid ·) d _ hgap, List.filter_append, List.filter_cons_of_pos hs, hnone,
    List.reverse_append, List.reverse_singleton, List.singleton_append, List.zipWith_cons_cons]
  exact List.perm_middle

theorem meeting_step (hdeleted : ∀ x, deleted x = true → valid x = false) :
    meeting valid deleted (d :: (middle ++ s :: last)) = meeting valid deleted middle := by
  rw [meeting, meeting, drop_step hd hs hlast]
  cases middle.drop (middle.countP valid) with
  | nil =>
      have hnot : deleted s = false := by
        rw [Bool.eq_false_iff]
        intro h
        rw [hdeleted s h] at hs
        cases hs
      rw [List.nil_append]
      dsimp only
      rw [hnot, Bool.false_and, if_neg Bool.false_ne_true]
  | cons x rest =>
      cases rest with
      | nil =>
          rw [List.cons_append, List.nil_append]
          dsimp only
          rw [List.head?_cons, Option.all_some, hs]
          rfl
      | cons y rest => rfl

end Step

theorem countP_none (hlist : ∀ x ∈ list, valid x = false) : list.countP valid = 0 := by
  rw [List.countP_eq_zero]
  intro x hx
  rw [hlist x hx]
  exact Bool.false_ne_true

theorem closed_none (hlist : ∀ x ∈ list, valid x = false) : closed valid mix list = [] := by
  rw [closed, kept, gaps, countP_none hlist, List.take_zero, List.filter_nil, List.filter_nil,
    List.zipWith_nil_left, List.append_nil]

theorem meeting_none (hlist : ∀ x ∈ list, valid x = false) (hlong : 2 ≤ list.length) :
    meeting valid deleted list = [] := by
  rw [meeting, countP_none hlist, List.drop_zero]
  cases list with
  | nil => rfl
  | cons x rest =>
      cases rest with
      | nil => exact absurd hlong (Nat.not_succ_le_self 1)
      | cons y rest =>
          dsimp only
          rw [List.head?_cons, Option.all_some, hlist y (by simp), Bool.and_false,
            if_neg Bool.false_ne_true]

theorem meeting_singleton (hx : valid x = false) :
    meeting valid deleted [x] = if deleted x then [x] else [] := by
  rw [meeting, countP_none (by simpa using hx), List.drop_zero]
  dsimp only
  rw [List.head?_nil, Option.all_none, Bool.and_true]

/-! Every gap is closed, and the elements in the gaps are those behind the others. -/

theorem kept_movers_perm :
    (kept valid list ++ movers valid list).Perm (list.filter valid) := by
  have hsplit : list.filter valid = (list.take (list.countP valid)).filter valid ++
      (list.drop (list.countP valid)).filter valid := by
    rw [← List.filter_append, List.take_append_drop]
  rw [hsplit, kept, movers]
  exact List.Perm.append_left _ (List.reverse_perm _)

theorem gaps_length : (gaps valid list).length = (movers valid list).length := by
  have hperm := (@kept_movers_perm _ valid list).length_eq
  have htake : (list.take (list.countP valid)).length = list.countP valid :=
    List.length_take_of_le List.countP_le_length
  have hparts := @List.length_eq_length_filter_add _ (list.take (list.countP valid)) valid
  rw [List.length_append, ← List.countP_eq_length_filter, kept] at hperm
  rw [gaps]
  omega

end Closing
