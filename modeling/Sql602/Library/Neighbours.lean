import Mathlib.Data.List.Chain
import Mathlib.Data.List.Nodup
import Mathlib.Order.Compare

namespace Neighbours

variable {α : Type*}

/-! Lists in which elements are the same as those before them. -/

/-- Elements that the one just before is not the same as. -/
def fresh (same : α → α → Bool) : Option α → List α → List α
  | _, [] => []
  | prev, x :: rest =>
      if prev.any (same · x) then fresh same (some x) rest else x :: fresh same (some x) rest

/-- Elements that none of those kept before is the same as. -/
def firsts (same : α → α → Bool) : List α → List α → List α
  | _, [] => []
  | kept, x :: rest =>
      if kept.any (same · x) then firsts same kept rest else x :: firsts same (x :: kept) rest

def Apart (same : α → α → Bool) : List α → Prop := List.IsChain fun x y => same x y = false

def Alike (same : α → α → Bool) : List α → Prop := List.IsChain fun x y => same x y = true

instance instDecidableApart (same : α → α → Bool) (list : List α) : Decidable (Apart same list) :=
  inferInstanceAs (Decidable (List.IsChain (fun x y => same x y = false) list))

instance instDecidableAlike (same : α → α → Bool) (list : List α) : Decidable (Alike same list) :=
  inferInstanceAs (Decidable (List.IsChain (fun x y => same x y = true) list))

variable {same : α → α → Bool} {prev : Option α} {x : α} {list first rest : List α}

theorem fresh_append : fresh same prev (first ++ rest) =
    fresh same prev first ++ fresh same (first.getLast?.or prev) rest := by
  induction first generalizing prev with
  | nil => rfl
  | cons x first ih =>
      have hlast : (x :: first).getLast?.or prev = first.getLast?.or (some x) := by
        rw [List.getLast?_cons]
        cases first.getLast? <;> rfl
      rw [List.cons_append, fresh, fresh, ih, hlast]
      split <;> rfl

theorem fresh_sublist : (fresh same prev list).Sublist list := by
  induction list generalizing prev with
  | nil => exact List.Sublist.refl _
  | cons x rest ih =>
      rw [fresh]
      split
      · exact ih.trans (List.sublist_cons_self _ _)
      · exact ih.cons_cons x

theorem fresh_of_apart (hapart : Apart same list) (hprev : ∀ p y, prev = some p →
    list.head? = some y → same p y = false) : fresh same prev list = list := by
  induction list generalizing prev with
  | nil => rfl
  | cons x rest ih =>
      have hfirst : prev.any (same · x) = false := by
        cases prev with
        | none => rfl
        | some p => exact hprev p x rfl rfl
      rw [fresh, hfirst, if_neg Bool.false_ne_true]
      congr 1
      apply ih
      · exact hapart.of_cons
      · rintro p y ⟨⟩ hhead
        obtain ⟨rest, rfl⟩ := List.head?_eq_some_iff.mp hhead
        exact (List.isChain_cons_cons.mp hapart).1

theorem apart_of_fresh (hfresh : fresh same prev list = list) :
    Apart same list ∧ ∀ p y, prev = some p → list.head? = some y → same p y = false := by
  induction list generalizing prev with
  | nil => exact ⟨List.isChain_nil, fun p y _ h => (by cases h)⟩
  | cons x rest ih =>
      rw [fresh] at hfresh
      split at hfresh
      · have hlength := (@fresh_sublist _ same (some x) rest).length_le
        rw [hfresh, List.length_cons] at hlength
        omega
      · next hfirst =>
          obtain ⟨hrest, hhead⟩ := ih (List.cons.inj hfresh).2
          constructor
          · cases rest with
            | nil => exact List.isChain_singleton x
            | cons y rest => exact List.isChain_cons_cons.mpr ⟨hhead x y rfl rfl, hrest⟩
          · rintro p y rfl ⟨⟩
            exact Bool.eq_false_iff.mpr hfirst

theorem fresh_eq_nil : fresh same (some x) list = [] ↔ Alike same (x :: list) := by
  induction list generalizing x with
  | nil => exact iff_of_true rfl (List.isChain_singleton x)
  | cons y rest ih =>
      rw [fresh, Option.any_some, Alike, List.isChain_cons_cons]
      split
      · next hsame => rw [ih, Alike, and_iff_right hsame]
      · next hapart => exact iff_of_false (List.cons_ne_nil _ _) fun h => hapart h.1

theorem fresh_none_cons : fresh same none (x :: rest) = x :: fresh same (some x) rest := rfl

/-- Behind some elements there are only repetitions of the last of them. -/
theorem fresh_drop_eq_nil {n : Nat} :
    fresh same ((list.take n).getLast?.or (some x)) (list.drop n) = [] ↔
      Alike same ((x :: list).drop n) := by
  induction n generalizing x list with
  | zero => exact fresh_eq_nil
  | succ n ih =>
      cases list with
      | nil => exact iff_of_true rfl (by rw [List.drop_succ_cons, List.drop_nil]; exact List.isChain_nil)
      | cons y rest =>
          have hlast : (y :: rest.take n).getLast?.or (some x) =
              (rest.take n).getLast?.or (some y) := by
            rw [List.getLast?_cons]
            cases (rest.take n).getLast? <;> rfl
          rw [List.take_succ_cons, hlast, List.drop_succ_cons, List.drop_succ_cons]
          exact ih

section Sorted

variable {cmp : α → α → Ordering} {kept : List α}

theorem same_of_between [Std.TransCmp cmp] {z y : α} (hzx : cmp z x ≠ .gt) (hxy : cmp x y ≠ .gt)
    (hzy : cmp z y = .eq) : cmp x y = .eq := by
  apply Std.OrientedCmp.isLE_antisymm (Ordering.isLE_iff_ne_gt.mpr hxy)
  have hyz : (cmp y z).isLE = true :=
    Std.OrientedCmp.isLE_of_isGE (Ordering.isGE_of_eq_eq hzy)
  exact Std.TransCmp.isLE_trans hyz (Ordering.isLE_iff_ne_gt.mpr hzx)

/-- A sorted list in which no neighbours are the same goes up. -/
theorem pairwise_lt_of_apart [Std.TransCmp cmp] (hsorted : list.Pairwise fun x y => cmp x y ≠ .gt)
    (hapart : Apart (fun x y => cmp x y == .eq) list) :
    list.Pairwise fun x y => cmp x y = .lt := by
  induction list with
  | nil => exact List.Pairwise.nil
  | cons x rest ih =>
      obtain ⟨hx, hrest⟩ := List.pairwise_cons.mp hsorted
      have hpairwise := ih hrest hapart.of_cons
      refine List.pairwise_cons.mpr ⟨?_, hpairwise⟩
      cases rest with
      | nil => exact fun y hy => absurd hy List.not_mem_nil
      | cons y rest =>
          have hne : cmp x y ≠ .eq := beq_eq_false_iff_ne.mp (List.isChain_cons_cons.mp hapart).1
          have hlt : cmp x y = .lt := by
            cases hcmp : cmp x y with
            | lt => rfl
            | eq => exact absurd hcmp hne
            | gt => exact absurd hcmp (hx y List.mem_cons_self)
          intro z hz
          obtain rfl | hz := List.mem_cons.mp hz
          · exact hlt
          · exact Std.TransCmp.lt_trans hlt ((List.pairwise_cons.mp hpairwise).1 z hz)

/-- In a sorted list only the last of the elements before has to be compared. -/
theorem firsts_of_sorted [Std.TransCmp cmp] (hsorted : list.Pairwise fun x y => cmp x y ≠ .gt)
    (hkept : ∀ z ∈ kept, ∀ y ∈ list, cmp z y ≠ .gt)
    (hprev : ∀ y ∈ list,
      kept.any (fun z => cmp z y == .eq) = prev.any (fun z => cmp z y == .eq)) :
    firsts (fun x y => cmp x y == .eq) kept list =
      fresh (fun x y => cmp x y == .eq) prev list := by
  induction list generalizing kept prev with
  | nil => rfl
  | cons x rest ih =>
      obtain ⟨hx, hrest⟩ := List.pairwise_cons.mp hsorted
      have hbefore : ∀ z ∈ kept, cmp z x ≠ .gt := fun z hz => hkept z hz x List.mem_cons_self
      have htail : ∀ z ∈ kept, ∀ y ∈ rest, cmp z y ≠ .gt :=
        fun z hz y hy => hkept z hz y (List.mem_cons_of_mem _ hy)
      rw [firsts, fresh, hprev x List.mem_cons_self]
      split
      · next hrepeats =>
          apply ih hrest htail
          intro y hy
          rw [← hprev x List.mem_cons_self, List.any_eq_true] at hrepeats
          obtain ⟨z, hz, hzx⟩ := hrepeats
          rw [Option.any_some, Bool.eq_iff_iff, List.any_eq_true]
          constructor
          · rintro ⟨other, hother, hsame⟩
            exact beq_iff_eq.mpr (same_of_between (hbefore other hother) (hx y hy)
              (beq_iff_eq.mp hsame))
          · intro hxy
            exact ⟨z, hz, beq_iff_eq.mpr (Std.TransCmp.eq_trans (beq_iff_eq.mp hzx)
              (beq_iff_eq.mp hxy))⟩
      · congr 1
        apply ih hrest
        · intro z hz y hy
          obtain rfl | hz := List.mem_cons.mp hz
          · exact hx y hy
          · exact htail z hz y hy
        · intro y hy
          rw [Option.any_some, List.any_cons, Bool.or_eq_left_iff_imp, List.any_eq_true]
          rintro ⟨z, hz, hsame⟩
          exact beq_iff_eq.mpr (same_of_between (hbefore z hz) (hx y hy) (beq_iff_eq.mp hsame))

theorem firsts_eq_fresh [Std.TransCmp cmp]
    (hsorted : list.Pairwise fun x y => cmp x y ≠ .gt) :
    firsts (fun x y => cmp x y == .eq) [] list =
      fresh (fun x y => cmp x y == .eq) none list :=
  firsts_of_sorted hsorted (fun z hz => absurd hz List.not_mem_nil) fun _ _ => rfl

end Sorted

section Window

variable {off count : Nat}

/-- The condition for taking a part of the list before the repetitions are left out, and
not after that: there are none up to its start, and none in it or none but them behind. -/
def Agrees (same : α → α → Bool) (list : List α) (off count : Nat) : Prop :=
  count = 0 ∨ list.length ≤ off ∨
    (Apart same (list.take (off + 1)) ∧
      (Apart same ((list.drop off).take count) ∨ Alike same (list.drop (off + count - 1))))

instance instDecidableAgrees (same : α → α → Bool) (list : List α) (off count : Nat) :
    Decidable (Agrees same list off count) :=
  inferInstanceAs (Decidable (count = 0 ∨ list.length ≤ off ∨
    (Apart same (list.take (off + 1)) ∧
      (Apart same ((list.drop off).take count) ∨ Alike same (list.drop (off + count - 1))))))

/-- The parts of a list around the first element that is taken. -/
theorem window_parts (hcount : count ≠ 0) (hoff : off < list.length) :
    ∃ front x rest n, list = front ++ x :: rest ∧ front.length = off ∧ count = n + 1 ∧
      list.take (off + 1) = front ++ [x] ∧ (list.drop off).take count = x :: rest.take n ∧
      list.drop (off + count - 1) = (x :: rest).drop n := by
  obtain ⟨n, rfl⟩ := Nat.exists_eq_succ_of_ne_zero hcount
  have hfront : (list.take off).length = off := List.length_take_of_le (Nat.le_of_lt hoff)
  have hdrop : list.drop off = list[off] :: list.drop (off + 1) :=
    List.drop_eq_getElem_cons hoff
  refine ⟨list.take off, list[off], list.drop (off + 1), n, ?_, hfront, rfl, ?_, ?_, ?_⟩
  · rw [← hdrop, List.take_append_drop]
  · rw [List.take_succ_eq_append_getElem hoff]
  · rw [hdrop, List.take_succ_cons]
  · rw [← hdrop, List.drop_drop]
    rfl

theorem fresh_window (hagrees : Agrees same list off count) :
    fresh same none ((list.drop off).take count) =
      ((fresh same none list).drop off).take count := by
  by_cases hcount : count = 0
  · rw [hcount, List.take_zero, List.take_zero, fresh]
  · cases Nat.lt_or_ge off list.length with
    | inr hoff =>
        have hlength := (@fresh_sublist _ same none list).length_le
        rw [List.drop_eq_nil_of_le hoff, List.drop_eq_nil_of_le (Nat.le_trans hlength hoff),
          List.take_nil, fresh]
    | inl hoff =>
        obtain ⟨front, x, rest, n, hlist, hfront, rfl, htake, hwindow, hbehind⟩ :=
          window_parts hcount hoff
        obtain hzero | hout | ⟨hstart, hrest⟩ := hagrees
        · exact absurd hzero hcount
        · omega
        · rw [htake] at hstart
          rw [hwindow, hbehind] at hrest
          have hfresh : fresh same none list = front ++ x :: fresh same (some x) rest := by
            rw [hlist, List.append_cons, fresh_append,
              fresh_of_apart hstart fun p y h => (by cases h), List.getLast?_concat,
              Option.some_or, List.append_assoc, List.singleton_append]
          rw [hwindow, hfresh, fresh_none_cons, ← hfront, List.drop_left, List.take_succ_cons]
          congr 1
          have hsplit : fresh same (some x) rest = fresh same (some x) (rest.take n) ++
              fresh same ((rest.take n).getLast?.or (some x)) (rest.drop n) := by
            rw [← fresh_append, List.take_append_drop]
          rw [hsplit]
          obtain hapart | halike := hrest
          · have htaken : fresh same (some x) (rest.take n) = rest.take n := by
              have hall := @fresh_of_apart _ same none _ hapart fun p y h => (by cases h)
              rw [fresh_none_cons] at hall
              exact (List.cons.inj hall).2
            rw [htaken]
            cases Nat.lt_or_ge rest.length n with
            | inl hshort =>
                rw [List.drop_eq_nil_of_le (Nat.le_of_lt hshort), fresh, List.append_nil,
                  List.take_take, Nat.min_self]
            | inr hlong =>
                exact (List.take_left' (List.length_take_of_le hlong)).symm
          · have hlength := (@fresh_sublist _ same (some x) (rest.take n)).length_le
            rw [fresh_drop_eq_nil.mpr halike, List.append_nil]
            exact (List.take_of_length_le (Nat.le_trans hlength (List.length_take_le n rest))).symm

theorem agrees_of_window (hnodup : list.Nodup)
    (hsame : fresh same none ((list.drop off).take count) =
      ((fresh same none list).drop off).take count) : Agrees same list off count := by
  by_cases hcount : count = 0
  · exact Or.inl hcount
  · cases Nat.lt_or_ge off list.length with
    | inr hoff => exact Or.inr (Or.inl hoff)
    | inl hoff =>
        obtain ⟨front, x, rest, n, hlist, hfront, rfl, htake, hwindow, hbehind⟩ :=
          window_parts hcount hoff
        rw [Agrees, htake, hwindow, hbehind]
        rw [hwindow, fresh_none_cons, hlist, fresh_append] at hsame
        rw [hlist, List.nodup_append] at hnodup
        obtain ⟨-, hback, hdisjoint⟩ := hnodup
        have hxrest : x ∉ rest := (List.nodup_cons.mp hback).1
        have hxfront : x ∉ fresh same none front := fun hmem =>
          hdisjoint x (fresh_sublist.subset hmem) x List.mem_cons_self rfl
        have hxtaken : x ∈ ((fresh same none front ++
            fresh same (front.getLast?.or none) (x :: rest)).drop off).take (n + 1) := by
          rw [← hsame]
          exact List.mem_cons_self
        replace hxtaken := List.mem_of_mem_take hxtaken
        -- The first element that is taken must not be left out as a repetition.
        have hnew : ¬ (front.getLast?.or none).any (same · x) = true := by
          intro hrepeats
          rw [fresh, if_pos hrepeats] at hxtaken
          obtain hmem | hmem := List.mem_append.mp (List.mem_of_mem_drop hxtaken)
          · exact absurd hmem hxfront
          · exact absurd (fresh_sublist.subset hmem) hxrest
        rw [fresh, if_neg hnew] at hsame hxtaken
        -- Nor may there be repetitions before it.
        have hlength : (fresh same none front).length = off := by
          have hle := (@fresh_sublist _ same none front).length_le
          cases Nat.lt_or_ge (fresh same none front).length off with
          | inr hge => omega
          | inl hlt =>
              obtain ⟨k, hk⟩ := Nat.exists_eq_add_of_lt hlt
              rw [hk, Nat.add_assoc, List.drop_append, List.drop_eq_nil_of_le (by omega),
                List.nil_append, Nat.add_sub_cancel_left, List.drop_succ_cons] at hxtaken
              exact absurd (fresh_sublist.subset (List.mem_of_mem_drop hxtaken)) hxrest
        have hfront' : fresh same none front = front :=
          fresh_sublist.eq_of_length (hlength.trans hfront.symm)
        have hstart : Apart same (front ++ [x]) := by
          refine (@apart_of_fresh _ same none _ ?_).1
          rw [fresh_append, hfront', fresh, if_neg hnew, fresh]
        refine Or.inr (Or.inr ⟨hstart, ?_⟩)
        have hsplit : fresh same (some x) rest = fresh same (some x) (rest.take n) ++
            fresh same ((rest.take n).getLast?.or (some x)) (rest.drop n) := by
          rw [← fresh_append, List.take_append_drop]
        rw [hfront', ← hfront, List.drop_left, List.take_succ_cons, hsplit] at hsame
        replace hsame := (List.cons.inj hsame).2
        have hle := (@fresh_sublist _ same (some x) (rest.take n)).length_le
        have htake := List.length_take_le n rest
        cases hbehind : fresh same ((rest.take n).getLast?.or (some x)) (rest.drop n) with
        | nil => exact Or.inr (fresh_drop_eq_nil.mp hbehind)
        | cons y more =>
            -- The part is full, so that nothing may be left out of it.
            have hcounts := congrArg List.length hsame
            rw [hbehind, List.length_take, List.length_append, List.length_cons] at hcounts
            have hall : fresh same (some x) (rest.take n) = rest.take n :=
              fresh_sublist.eq_of_length (by omega)
            refine Or.inl (@apart_of_fresh _ same none _ ?_).1
            rw [fresh_none_cons, hall]

end Window

end Neighbours
