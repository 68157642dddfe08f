import Mathlib.Data.Finset.Card
import Mathlib.Data.Finset.Dedup
import Mathlib.Data.List.Basic

namespace Greatest

/-! A bounded list of the greatest keys that have been seen. -/

variable {α : Type} [Ord α] {bound : Nat} {keys held before after : List α} {key : α}

/-- The list descends, and a key outside it is below all of its items and finds it full. -/
structure Holds (bound : Nat) (keys held : List α) : Prop where
  descending : held.Pairwise fun above below => compare above below = .gt
  fits : held.length ≤ bound
  present : ∀ key ∈ held, key ∈ keys
  rest : ∀ key ∈ keys, key ∉ held →
    held.length = bound ∧ ∀ other ∈ held, compare other key = .gt

theorem holds_nil : Holds bound ([] : List α) [] :=
  ⟨List.Pairwise.nil, Nat.zero_le _, fun _ h => h, fun _ h => absurd h List.not_mem_nil⟩

/-- A key that is in the list already. -/
theorem Holds.again (hholds : Holds bound keys held) (hkey : key ∈ held) :
    Holds bound (keys ++ [key]) held := by
  refine ⟨hholds.descending, hholds.fits, ?_, ?_⟩
  · intro other hother
    exact List.mem_append_left _ (hholds.present other hother)
  · intro other hother hout
    cases List.mem_append.mp hother with
    | inl hold => exact hholds.rest other hold hout
    | inr hnew => exact absurd (List.mem_singleton.mp hnew ▸ hkey) hout

/-- A key below all the items of a full list. -/
theorem Holds.passed (hholds : Holds bound keys held) (hfull : held.length = bound)
    (hbelow : ∀ other ∈ held, compare other key = .gt) :
    Holds bound (keys ++ [key]) held := by
  refine ⟨hholds.descending, hholds.fits, ?_, ?_⟩
  · intro other hother
    exact List.mem_append_left _ (hholds.present other hother)
  · intro other hother hout
    cases List.mem_append.mp hother with
    | inl hold => exact hholds.rest other hold hout
    | inr hnew =>
        obtain rfl := List.mem_singleton.mp hnew
        exact ⟨hfull, hbelow⟩

section Order

variable [Std.TransOrd α]

theorem gt_trans {first second third : α} (hfirst : compare first second = .gt)
    (hsecond : compare second third = .gt) : compare first third = .gt := by
  rw [Std.OrientedCmp.gt_iff_lt] at hfirst hsecond ⊢
  exact Std.TransCmp.lt_trans hsecond hfirst

/-- A key takes its place, and the last item leaves a full list. -/
theorem Holds.put (hholds : Holds bound keys (before ++ after)) (hplace : before.length < bound)
    (habove : ∀ other ∈ before, compare other key = .gt)
    (hbelow : ∀ other ∈ after, compare key other = .gt) :
    Holds bound (keys ++ [key]) ((before ++ key :: after).take bound) := by
  have hdescending : (before ++ key :: after).Pairwise
      fun above below => compare above below = .gt := by
    obtain ⟨hbefore, hafter, hacross⟩ := List.pairwise_append.mp hholds.descending
    refine List.pairwise_append.mpr ⟨hbefore, List.pairwise_cons.mpr ⟨hbelow, hafter⟩, ?_⟩
    intro above habove' below hbelow'
    cases List.mem_cons.mp hbelow' with
    | inl heq =>
        rw [heq]
        exact habove above habove'
    | inr hmem => exact hacross above habove' below hmem
  have hkey : key ∈ (before ++ key :: after).take bound := by
    obtain ⟨room, rfl⟩ := Nat.exists_eq_add_of_lt hplace
    rw [Nat.add_assoc, List.take_length_add_append, List.take_succ_cons]
    exact List.mem_append_right _ List.mem_cons_self
  refine ⟨hdescending.sublist (List.take_sublist _ _), List.length_take_le _ _, ?_, ?_⟩
  · intro other hother
    have hall := List.mem_of_mem_take hother
    rw [List.mem_append, List.mem_cons] at hall
    obtain hbefore | rfl | hafter := hall
    · exact List.mem_append_left _ (hholds.present other (List.mem_append_left _ hbefore))
    · exact List.mem_append_right _ List.mem_cons_self
    · exact List.mem_append_left _ (hholds.present other (List.mem_append_right _ hafter))
  · intro other hother hout
    cases List.mem_append.mp hother with
    | inr hnew => exact absurd (List.mem_singleton.mp hnew ▸ hkey) hout
    | inl hold =>
        by_cases hheld : other ∈ before ++ after
        · -- The item that has left stands behind the others.
          have hmem : other ∈ before ++ key :: after := by
            rw [List.mem_append, List.mem_cons]
            exact (List.mem_append.mp hheld).imp id Or.inr
          rw [← List.take_append_drop bound (before ++ key :: after)] at hdescending hmem
          have hdropped : other ∈ (before ++ key :: after).drop bound :=
            (List.mem_append.mp hmem).resolve_left hout
          have hlong : bound < (before ++ key :: after).length := by
            have hpos := List.length_pos_of_mem hdropped
            rw [List.length_drop] at hpos
            omega
          refine ⟨List.length_take_of_le (Nat.le_of_lt hlong), ?_⟩
          intro above habove'
          exact (List.pairwise_append.mp hdescending).2.2 above habove' other hdropped
        · obtain ⟨hfull, hall⟩ := hholds.rest other hold hheld
          rw [List.length_append] at hfull
          refine ⟨List.length_take_of_le ?_, ?_⟩
          · rw [List.length_append, List.length_cons]
            omega
          · intro above habove'
            have hmem := List.mem_of_mem_take habove'
            rw [List.mem_append, List.mem_cons] at hmem
            obtain hbefore | rfl | hafter := hmem
            · exact hall above (List.mem_append_left _ hbefore)
            · obtain ⟨last, hlast⟩ := List.exists_mem_of_length_pos
                (show 0 < after.length by omega)
              exact gt_trans (hbelow last hlast) (hall last (List.mem_append_right _ hlast))
            · exact hall above (List.mem_append_right _ hafter)

end Order

section Count

variable [DecidableEq α]

/-- The key is among the `bound` greatest distinct ones. -/
def IsGreatest (bound : Nat) (keys : List α) (key : α) : Prop :=
  key ∈ keys ∧ (keys.toFinset.filter fun other => compare other key = .gt).card < bound

theorem isGreatest_congr {others : List α} (hsame : ∀ key, key ∈ keys ↔ key ∈ others) :
    IsGreatest bound keys key ↔ IsGreatest bound others key := by
  have hset : keys.toFinset = others.toFinset := by
    ext other
    rw [List.mem_toFinset, List.mem_toFinset, hsame]
  rw [IsGreatest, IsGreatest, hset, hsame]

variable [Std.TransOrd α]

theorem compare_self : compare key key = .eq := Std.ReflCmp.compare_self

theorem Holds.nodup (hholds : Holds bound keys held) : held.Nodup := by
  refine hholds.descending.imp ?_
  intro above below hgt heq
  rw [heq, compare_self] at hgt
  cases hgt

/-- The list has the greatest keys, and no other ones. -/
theorem Holds.mem_iff (hholds : Holds bound keys held) :
    key ∈ held ↔ IsGreatest bound keys key := by
  constructor
  · intro hkey
    refine ⟨hholds.present key hkey, ?_⟩
    have hsub : (keys.toFinset.filter fun other => compare other key = .gt) ⊆
        held.toFinset.erase key := by
      intro other hother
      obtain ⟨hmem, hgt⟩ := Finset.mem_filter.mp hother
      rw [Finset.mem_erase, List.mem_toFinset]
      refine ⟨?_, ?_⟩
      · rintro rfl
        rw [compare_self] at hgt
        cases hgt
      · apply Classical.byContradiction
        intro hout
        have hlt := (hholds.rest other (List.mem_toFinset.mp hmem) hout).2 key hkey
        rw [Std.OrientedCmp.gt_iff_lt, hgt] at hlt
        cases hlt
    have hcard := Finset.card_le_card hsub
    have hless := Finset.card_erase_lt_of_mem (List.mem_toFinset.mpr hkey)
    rw [List.toFinset_card_of_nodup hholds.nodup] at hless
    exact Nat.lt_of_le_of_lt hcard (Nat.lt_of_lt_of_le hless hholds.fits)
  · rintro ⟨hmem, hcard⟩
    apply Classical.byContradiction
    intro hout
    obtain ⟨hfull, hall⟩ := hholds.rest key hmem hout
    have hsub : held.toFinset ⊆ keys.toFinset.filter fun other => compare other key = .gt := by
      intro other hother
      have hheld := List.mem_toFinset.mp hother
      rw [Finset.mem_filter, List.mem_toFinset]
      exact ⟨hholds.present other hheld, hall other hheld⟩
    have hle := Finset.card_le_card hsub
    rw [List.toFinset_card_of_nodup hholds.nodup, hfull] at hle
    omega

end Count

end Greatest

namespace Least

/-! The least item of a list under a comparison. -/

variable {α β : Type}

/-- The comparison of a field. -/
def onField (field : α → β) (cmp : β → β → Ordering) (first second : α) : Ordering :=
  cmp (field first) (field second)

instance {field : α → β} {cmp : β → β → Ordering} [hcmp : Std.TransCmp cmp] :
    Std.TransCmp (onField field cmp) where
  eq_swap {first second} := @Std.OrientedCmp.eq_swap β cmp _ (field first) (field second)
  isLE_trans hfirst hsecond := hcmp.isLE_trans hfirst hsecond

def least (cmp : α → α → Ordering) : List α → Option α
  | [] => none
  | item :: items =>
      match least cmp items with
      | none => some item
      | some other => if (cmp item other).isLE then some item else some other

variable {cmp : α → α → Ordering} {items : List α} {found item : α}

theorem least_mem (hfound : least cmp items = some found) : found ∈ items := by
  induction items with
  | nil => cases hfound
  | cons first items ih =>
      rw [least] at hfound
      split at hfound
      · cases hfound
        exact List.mem_cons_self
      · next other hother =>
          split at hfound
          · cases hfound
            exact List.mem_cons_self
          · cases hfound
            exact List.mem_cons_of_mem _ (ih hother)

theorem least_some (hitem : item ∈ items) : ∃ found, least cmp items = some found := by
  cases items with
  | nil => cases hitem
  | cons first items =>
      rw [least]
      split
      · exact ⟨_, rfl⟩
      · split <;> exact ⟨_, rfl⟩

theorem least_le [Std.TransCmp cmp] (hfound : least cmp items = some found) (hitem : item ∈ items) :
    (cmp found item).isLE := by
  induction items generalizing found with
  | nil => cases hitem
  | cons first items ih =>
      rw [least] at hfound
      split at hfound
      case h_1 hnone =>
        cases hfound
        cases List.mem_cons.mp hitem with
        | inl heq =>
            rw [heq]
            exact Std.ReflCmp.isLE_rfl
        | inr hrest =>
            obtain ⟨other, hother⟩ := @least_some _ cmp items item hrest
            rw [hnone] at hother
            cases hother
      case h_2 other hother =>
        split at hfound
        case isTrue hle =>
          cases hfound
          cases List.mem_cons.mp hitem with
          | inl heq =>
              rw [heq]
              exact Std.ReflCmp.isLE_rfl
          | inr hrest => exact Std.TransCmp.isLE_trans hle (ih hother hrest)
        case isFalse hgt =>
          cases hfound
          cases List.mem_cons.mp hitem with
          | inl heq =>
              rw [heq, @Std.OrientedCmp.eq_swap α cmp _ found first]
              cases hcompare : cmp first found with
              | lt => exact absurd (congrArg Ordering.isLE hcompare) hgt
              | eq => rfl
              | gt => rfl
          | inr hrest => exact ih hother hrest

end Least
