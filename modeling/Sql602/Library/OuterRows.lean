import Mathlib.Data.Multiset.Bind
import Mathlib.Data.List.Nodup

namespace OuterRows

variable {α β : Type*}

/-! The rows of an outer join of two multisets. A row of a preserved side that has no
matching row on the other side is extended. -/

def pairs (on : α → β → Bool) (as : Multiset α) (bs : Multiset β) :
    Multiset (Option α × Option β) :=
  ((as ×ˢ bs).filter fun p => on p.1 p.2 = true).map fun p => (some p.1, some p.2)

def unmatched (on : α → β → Bool) (as : Multiset α) (bs : Multiset β) : Multiset α :=
  as.filter fun a => ∀ b ∈ bs, on a b = false

def lefts (on : α → β → Bool) (preserved : Bool) (as : Multiset α) (bs : Multiset β) :
    Multiset (Option α × Option β) :=
  if preserved then (unmatched on as bs).map fun a => (some a, none) else 0

def rights (on : α → β → Bool) (preserved : Bool) (as : Multiset α) (bs : Multiset β) :
    Multiset (Option α × Option β) :=
  if preserved then (unmatched (flip on) bs as).map fun b => (none, some b) else 0

def rows (on : α → β → Bool) (left right : Bool) (as : Multiset α) (bs : Multiset β) :
    Multiset (Option α × Option β) :=
  pairs on as bs + lefts on left as bs + rights on right as bs

variable {on : α → β → Bool} {as : Multiset α} {bs : Multiset β}

theorem pairs_swap : (pairs on as bs).map Prod.swap = pairs (flip on) bs as := by
  unfold pairs
  rw [← Multiset.map_swap_product as bs, Multiset.filter_map, Multiset.map_map, Multiset.map_map]
  rfl

theorem lefts_swap (preserved : Bool) :
    (lefts on preserved as bs).map Prod.swap = rights (flip on) preserved bs as := by
  cases preserved with
  | false => rfl
  | true =>
      simp only [lefts, rights, ↓reduceIte, Multiset.map_map]
      rfl

theorem rights_swap (preserved : Bool) :
    (rights on preserved as bs).map Prod.swap = lefts (flip on) preserved bs as := by
  cases preserved with
  | false => rfl
  | true =>
      simp only [lefts, rights, ↓reduceIte, Multiset.map_map]
      rfl

/-- The operands may be joined in any order. -/
theorem rows_swap (left right : Bool) :
    (rows on left right as bs).map Prod.swap = rows (flip on) right left bs as := by
  rw [rows, Multiset.map_add, Multiset.map_add, pairs_swap, lefts_swap, rights_swap, rows,
    add_right_comm]

/-- The pairs as they come out of nested loops. -/
theorem pairs_eq_bind :
    pairs on as bs =
      as.bind fun a => (bs.filter fun b => on a b = true).map fun b => (some a, some b) := by
  induction as using Multiset.induction with
  | empty => rfl
  | cons a as ih =>
      rw [Multiset.cons_bind, ← ih]
      simp only [pairs, Multiset.cons_product, Multiset.filter_add, Multiset.map_add,
        Multiset.filter_map, Multiset.map_map, Function.comp_def]

end OuterRows

namespace Distinctor

variable {α κ : Type*} [DecidableEq κ] {key : α → κ} {seen : List κ} {rows : List α}

/-! Rows are passed unless a row with the same key was seen before. -/

def fresh (key : α → κ) : List κ → List α → List α
  | _, [] => []
  | seen, row :: rows =>
      if key row ∈ seen then fresh key seen rows
      else row :: fresh key (key row :: seen) rows

theorem fresh_sublist : (fresh key seen rows).Sublist rows := by
  induction rows generalizing seen with
  | nil => exact List.Sublist.refl _
  | cons row rows ih =>
      unfold fresh
      split
      · exact ih.trans (List.sublist_cons_self _ _)
      · exact ih.cons_cons row

/-- Rows whose keys were seen before do not matter. -/
theorem fresh_filter {keep : α → Bool}
    (hseen : ∀ row ∈ rows, keep row = false → key row ∈ seen) :
    fresh key seen rows = fresh key seen (rows.filter keep) := by
  induction rows generalizing seen with
  | nil => rfl
  | cons row rows ih =>
      have htail : ∀ other ∈ rows, keep other = false → key other ∈ seen :=
        fun other hmem => hseen other (List.mem_cons_of_mem _ hmem)
      cases hkeep : keep row with
      | false =>
          have hrow := hseen row List.mem_cons_self hkeep
          rw [List.filter_cons_of_neg (by simp [hkeep]), fresh, if_pos hrow]
          exact ih htail
      | true =>
          rw [List.filter_cons_of_pos hkeep, fresh, fresh]
          split
          · exact ih htail
          · rw [ih fun other hmem hother => List.mem_cons_of_mem _ (htail other hmem hother)]

theorem fresh_eq_self_iff :
    fresh key seen rows = rows ↔ (rows.map key).Nodup ∧ ∀ row ∈ rows, key row ∉ seen := by
  induction rows generalizing seen with
  | nil => simp [fresh]
  | cons row rows ih =>
      by_cases hrow : key row ∈ seen
      · rw [fresh, if_pos hrow]
        constructor
        · intro heq
          have hlength := (@fresh_sublist _ _ _ key seen rows).length_le
          rw [heq, List.length_cons] at hlength
          omega
        · intro h
          exact absurd hrow (h.2 row List.mem_cons_self)
      · rw [fresh, if_neg hrow, List.cons.injEq, ih, List.map_cons, List.nodup_cons]
        simp only [true_and, List.mem_cons, List.mem_map, not_or, forall_eq_or_imp, hrow,
          not_false_eq_true]
        constructor
        · rintro ⟨hnodup, hnew⟩
          refine ⟨⟨?_, hnodup⟩, fun other hmem => (hnew other hmem).2⟩
          rintro ⟨other, hmem, heq⟩
          exact (hnew other hmem).1 heq
        · rintro ⟨⟨hrow, hnodup⟩, hnew⟩
          exact ⟨hnodup, fun other hmem =>
            ⟨fun heq => hrow ⟨other, hmem, heq⟩, hnew other hmem⟩⟩

end Distinctor
