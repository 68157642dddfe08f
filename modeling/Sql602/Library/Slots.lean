import Mathlib.Data.List.Basic

namespace Slots

/-! Items packed in slots of one width, with a rest that is shorter than a slot. -/

variable {α : Type}

def slotsFrom (width : Nat) : Nat → List α → List (List α)
  | 0, _ => []
  | fuel + 1, items =>
      if items.length < width then []
      else items.take width :: slotsFrom width fuel (items.drop width)

def slots (width : Nat) (items : List α) : List (List α) := slotsFrom width items.length items

/-- The position of the first slot that passes the test. -/
def scan (width : Nat) (test : List α → Bool) (items : List α) : Nat → Nat → Option Nat
  | 0, _ => none
  | fuel + 1, pos =>
      if items.length < pos + width then none
      else if test ((items.drop pos).take width) then some pos
      else scan width test items fuel (pos + width)

/-- Writes over the items from a position on; a gap before it gets any items. -/
def write (fill : Nat → α) (items : List α) (pos : Nat) (data : List α) : List α :=
  (items ++ (List.range (pos - items.length)).map fill).take pos ++ data ++
    items.drop (pos + data.length)

structure Packed (width : Nat) (items : List α) (list : List (List α)) (rest : List α) :
    Prop where
  items : items = list.flatten ++ rest
  widths : ∀ slot ∈ list, slot.length = width
  rest : rest.length < width

section Slots

variable {width fuel : Nat} {items rest : List α} {list : List (List α)}

theorem length_flatten (hwidths : ∀ slot ∈ list, slot.length = width) :
    list.flatten.length = list.length * width := by
  induction list with
  | nil => simp
  | cons slot list ih =>
      rw [List.flatten_cons, List.length_append, List.length_cons, Nat.succ_mul, Nat.add_comm,
        ih fun other hother => hwidths other (List.mem_cons_of_mem _ hother),
        hwidths slot List.mem_cons_self]

theorem slotsFrom_packed (hpacked : Packed width items list rest) (hfuel : list.length ≤ fuel) :
    slotsFrom width fuel items = list := by
  induction fuel generalizing items list with
  | zero => exact (List.eq_nil_of_length_eq_zero (Nat.le_zero.mp hfuel)).symm
  | succ fuel ih =>
      obtain ⟨rfl, hwidths, hrest⟩ := hpacked
      cases list with
      | nil => exact if_pos hrest
      | cons slot list =>
          have hslot : slot.length = width := hwidths slot List.mem_cons_self
          have hlong : ¬ ((slot :: list).flatten ++ rest).length < width := by
            rw [List.flatten_cons, List.length_append, List.length_append]
            omega
          rw [slotsFrom, if_neg hlong, List.flatten_cons, List.append_assoc,
            List.take_left' hslot, List.drop_left' hslot]
          refine congrArg _ (ih ⟨rfl, ?_, hrest⟩ (Nat.le_of_succ_le_succ hfuel))
          exact fun other hother => hwidths other (List.mem_cons_of_mem _ hother)

theorem Packed.slots (hpacked : Packed width items list rest) : slots width items = list := by
  refine slotsFrom_packed hpacked ?_
  have hlength := length_flatten hpacked.widths
  have hwidth : 0 < width := Nat.lt_of_le_of_lt (Nat.zero_le _) hpacked.rest
  have hcount := Nat.le_mul_of_pos_right list.length hwidth
  rw [hpacked.items, List.length_append]
  omega

theorem packed_slotsFrom (hfuel : items.length ≤ fuel) (hwidth : 0 < width) :
    ∃ rest, Packed width items (slotsFrom width fuel items) rest := by
  induction fuel generalizing items with
  | zero =>
      refine ⟨[], ?_, by rintro slot ⟨⟩, hwidth⟩
      exact List.eq_nil_of_length_eq_zero (Nat.le_zero.mp hfuel)
  | succ fuel ih =>
      rw [slotsFrom]
      split
      case isTrue hshort => exact ⟨items, rfl, by rintro slot ⟨⟩, hshort⟩
      case isFalse hlong =>
        have hrest : (items.drop width).length ≤ fuel := by
          rw [List.length_drop]
          omega
        obtain ⟨rest, hitems, hwidths, hshort⟩ := ih hrest
        refine ⟨rest, ?_, ?_, hshort⟩
        · rw [List.flatten_cons, List.append_assoc, ← hitems, List.take_append_drop]
        · intro slot hslot
          obtain rfl | hslot := List.mem_cons.mp hslot
          · rw [List.length_take]
            omega
          · exact hwidths slot hslot

theorem packed_slots (items : List α) (hwidth : 0 < width) :
    ∃ rest, Packed width items (Slots.slots width items) rest :=
  packed_slotsFrom (Nat.le_refl _) hwidth

end Slots

section Scan

variable {width fuel : Nat} {test : List α → Bool} {start rest : List α}
  {list before after : List (List α)} {slot : List α}

/-- The scan passes slots that fail the test. -/
theorem scan_passes (hwidths : ∀ slot ∈ before, slot.length = width)
    (hfails : ∀ slot ∈ before, test slot = false) :
    scan width test (start ++ before.flatten ++ rest) (before.length + fuel) start.length =
      scan width test (start ++ before.flatten ++ rest) fuel
        (start.length + before.flatten.length) := by
  induction before generalizing start with
  | nil => simp
  | cons slot before ih =>
      have hslot : slot.length = width := hwidths slot List.mem_cons_self
      have hitems : start ++ (slot :: before).flatten ++ rest =
          start ++ slot ++ before.flatten ++ rest := by
        simp only [List.flatten_cons, List.append_assoc]
      have hlong : ¬ (start ++ (slot :: before).flatten ++ rest).length <
          start.length + width := by
        rw [hitems, List.length_append, List.length_append, List.length_append]
        omega
      have htake : ((start ++ (slot :: before).flatten ++ rest).drop start.length).take width =
          slot := by
        rw [hitems, List.append_assoc, List.append_assoc, List.drop_left, List.take_left' hslot]
      have hnext : start.length + width = (start ++ slot).length := by
        rw [List.length_append, hslot]
      rw [List.length_cons, Nat.succ_add, scan, if_neg hlong, htake,
        hfails slot List.mem_cons_self, if_neg Bool.false_ne_true, hnext, hitems,
        ih (fun other hother => hwidths other (List.mem_cons_of_mem _ hother))
          (fun other hother => hfails other (List.mem_cons_of_mem _ hother)),
        List.flatten_cons, List.length_append, List.length_append, Nat.add_assoc]

theorem scan_none (hwidths : ∀ slot ∈ list, slot.length = width)
    (hfails : ∀ slot ∈ list, test slot = false) (hrest : rest.length < width) (fuel : Nat) :
    scan width test (start ++ list.flatten ++ rest) (list.length + fuel) start.length =
      none := by
  rw [scan_passes hwidths hfails]
  cases fuel with
  | zero => rfl
  | succ fuel =>
      rw [scan, if_pos]
      rw [List.length_append, List.length_append]
      omega

theorem scan_found (hwidths : ∀ slot ∈ before, slot.length = width)
    (hfails : ∀ slot ∈ before, test slot = false) (hslot : slot.length = width)
    (hpass : test slot = true) (fuel : Nat) :
    scan width test (start ++ (before ++ slot :: after).flatten ++ rest)
      (before.length + (fuel + 1)) start.length =
        some (start.length + before.flatten.length) := by
  have hitems : start ++ (before ++ slot :: after).flatten ++ rest =
      start ++ before.flatten ++ (slot ++ (after.flatten ++ rest)) := by
    simp only [List.flatten_append, List.flatten_cons, List.append_assoc]
  have hpos : start.length + before.flatten.length = (start ++ before.flatten).length := by
    rw [List.length_append]
  rw [hitems, scan_passes hwidths hfails, scan, if_neg, hpos, List.drop_left,
    List.take_left' hslot, hpass, if_pos rfl]
  rw [List.length_append, List.length_append, List.length_append]
  omega

theorem scan_bound {items : List α} {pos found : Nat}
    (hscan : scan width test items fuel pos = some found) : found + width ≤ items.length := by
  induction fuel generalizing pos with
  | zero => cases hscan
  | succ fuel ih =>
      rw [scan] at hscan
      split at hscan
      · cases hscan
      · next hlong =>
          split at hscan
          · cases hscan
            exact Nat.le_of_not_lt hlong
          · exact ih hscan

/-- The first slot that passes, if there is one. -/
theorem first_or_none (test : List α → Bool) (list : List (List α)) :
    (∀ slot ∈ list, test slot = false) ∨
      ∃ before slot after, list = before ++ slot :: after ∧
        (∀ other ∈ before, test other = false) ∧ test slot = true := by
  induction list with
  | nil => exact Or.inl fun slot hslot => absurd hslot List.not_mem_nil
  | cons slot list ih =>
      cases htest : test slot with
      | true =>
          exact Or.inr ⟨[], slot, list, rfl, fun _ h => absurd h List.not_mem_nil, htest⟩
      | false =>
          cases ih with
          | inl hall => exact Or.inl (List.forall_mem_cons.mpr ⟨htest, hall⟩)
          | inr hfirst =>
              obtain ⟨before, found, after, rfl, hbefore, hfound⟩ := hfirst
              exact Or.inr ⟨slot :: before, found, after, rfl,
                List.forall_mem_cons.mpr ⟨htest, hbefore⟩, hfound⟩

end Scan

section Write

variable {fill : Nat → α} {before old after data : List α}

theorem write_over (hlength : old.length = data.length) :
    write fill (before ++ old ++ after) before.length data = before ++ data ++ after := by
  have hgap : before.length - (before ++ old ++ after).length = 0 := by
    rw [List.length_append, List.length_append]
    omega
  have hdrop : before.length + data.length = (before ++ old).length := by
    rw [List.length_append, hlength]
  rw [write, hgap, hdrop, List.drop_left, List.range_zero, List.map_nil, List.append_nil,
    List.append_assoc before old, List.take_left]

theorem write_append : write fill before before.length data = before ++ data := by
  rw [write, Nat.sub_self, List.range_zero, List.map_nil, List.append_nil, List.take_length,
    List.drop_eq_nil_of_le (Nat.le_add_right _ _), List.append_nil]

/-- What lies behind the written items stays. -/
theorem write_start (items : List α) : write fill items 0 data = data ++ items.drop data.length := by
  simp [write]

end Write

section Aligned

variable {width : Nat} {items : List α} {list : List (List α)}

/-- The slots fill what is left of the items without the rest. -/
theorem flatten_slots (hwidth : 0 < width) :
    (slots width items).flatten = items.take (items.length / width * width) := by
  obtain ⟨rest, hitems, hwidths, hrest⟩ := packed_slots items hwidth
  generalize slots width items = list at hitems hwidths ⊢
  have hlength : items.length / width * width = list.flatten.length := by
    rw [hitems, List.length_append, length_flatten hwidths, Nat.mul_comm list.length,
      Nat.mul_add_div hwidth, Nat.div_eq_of_lt hrest, Nat.add_zero, Nat.mul_comm]
  rw [hlength, hitems, List.take_left]

theorem slots_flatten (hwidth : 0 < width) (hwidths : ∀ slot ∈ list, slot.length = width) :
    slots width list.flatten = list :=
  Packed.slots ⟨(List.append_nil _).symm, hwidths, hwidth⟩

theorem slots_width (hwidth : 0 < width) {slot : List α} (hslot : slot ∈ slots width items) :
    slot.length = width := by
  obtain ⟨rest, hpacked⟩ := packed_slots items hwidth
  exact hpacked.widths slot hslot

end Aligned

/-- Removes the slots that pass the test, from a position on, and moves the others up. -/
def removeWhere (width : Nat) (test : List α → Bool) : Nat → Nat → List α → List α
  | 0, _, items => items
  | fuel + 1, pos, items =>
      if items.length ≤ pos then items
      else if test ((items.drop pos).take width) then
        removeWhere width test fuel pos (items.take pos ++ items.drop (pos + width))
      else removeWhere width test fuel (pos + width) items

section Removal

variable {width fuel : Nat} {test : List α → Bool} {before : List α} {list : List (List α)}

theorem removeWhere_eq (hwidth : 0 < width) (hwidths : ∀ slot ∈ list, slot.length = width)
    (hfuel : list.length ≤ fuel) :
    removeWhere width test fuel before.length (before ++ list.flatten) =
      before ++ (list.filter fun slot => !test slot).flatten := by
  induction list generalizing before fuel with
  | nil =>
      cases fuel with
      | zero => rfl
      | succ fuel =>
          rw [List.flatten_nil, List.append_nil, removeWhere, if_pos (Nat.le_refl _)]
          exact (List.append_nil _).symm
  | cons slot list ih =>
      obtain ⟨hslot, hrest⟩ := List.forall_mem_cons.mp hwidths
      obtain ⟨fuel, rfl⟩ := Nat.exists_eq_add_of_le' hfuel
      have hfuel' : list.length ≤ fuel + list.length := Nat.le_add_left _ _
      have hinside : ¬ (before ++ (slot :: list).flatten).length ≤ before.length := by
        rw [List.length_append, List.flatten_cons, List.length_append, hslot]
        omega
      have hpos : before.length + width = (before ++ slot).length := by
        rw [List.length_append, hslot]
      rw [List.length_cons, ← Nat.add_assoc, removeWhere, if_neg hinside, List.drop_left,
        List.flatten_cons, List.take_left' hslot, List.take_left, hpos, ← List.append_assoc,
        List.drop_left]
      split
      case isTrue htest =>
        have hout : (slot :: list).filter (fun slot => !test slot) =
            list.filter fun slot => !test slot := by
          apply List.filter_cons_of_neg
          rw [htest]
          exact Bool.false_ne_true
        rw [hout]
        exact ih hrest hfuel'
      case isFalse htest =>
        have hin : (slot :: list).filter (fun slot => !test slot) =
            slot :: list.filter fun slot => !test slot := by
          apply List.filter_cons_of_pos
          rw [eq_false_of_ne_true htest]
          rfl
        rw [hin, List.flatten_cons, ← List.append_assoc]
        exact ih hrest hfuel'

end Removal

end Slots
