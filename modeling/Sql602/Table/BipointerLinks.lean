import Mathlib.Data.List.Nodup
import Mathlib.Data.List.Range
import Sql602.Table.Bipointer
import Mathlib.Data.List.Perm.Basic

namespace Sql602.Table

/-! The linked attribute is linked back. -/

section Positions

variable {p : Nat → Bool} {n m k : Nat}

def positions (p : Nat → Bool) (n : Nat) : List Nat := (List.range' 1 (n - 1)).filter p

theorem mem_positions : m ∈ positions p n ↔ 0 < m ∧ m < n ∧ p m = true := by
  simp only [positions, List.mem_filter, List.mem_range'_1]
  constructor
  · rintro ⟨⟨hpos, hlt⟩, hp⟩
    exact ⟨hpos, by omega, hp⟩
  · rintro ⟨hpos, hlt, hp⟩
    exact ⟨⟨hpos, by omega⟩, hp⟩

theorem positions_get (hpos : 0 < m) (hlt : m < n) (hp : p m = true) :
    (positions p n)[(positions p m).length]? = some m := by
  obtain ⟨rest, rfl⟩ : ∃ rest, n = m + (rest + 1) := ⟨n - m - 1, by omega⟩
  have hsplit : List.range' 1 (m + (rest + 1) - 1) =
      List.range' 1 (m - 1) ++ List.range' m (rest + 1) := by
    have happend := @List.range'_append_1 1 (m - 1) (rest + 1)
    rw [show 1 + (m - 1) = m by omega] at happend
    rw [happend]
    congr 1
    omega
  have hfilter : positions p (m + (rest + 1)) =
      positions p m ++ m :: (List.range' (m + 1) rest).filter p := by
    rw [positions, hsplit, List.filter_append, List.range'_succ, List.filter_cons_of_pos hp]
    rfl
  rw [hfilter, List.getElem?_append_right (Nat.le_refl _), Nat.sub_self]
  rfl

theorem positions_length (hget : (positions p n)[k]? = some m) : (positions p m).length = k := by
  obtain ⟨hpos, hlt, hp⟩ := mem_positions.mp (List.mem_of_getElem? hget)
  have hsame := positions_get hpos hlt hp
  have hnodup : (positions p n).Nodup := List.Nodup.filter _ List.nodup_range'
  obtain ⟨hin, hvalue⟩ := List.getElem?_eq_some_iff.mp hget
  obtain ⟨hin', hvalue'⟩ := List.getElem?_eq_some_iff.mp hsame
  exact hnodup.getElem_inj_iff.mp (hvalue'.trans hvalue.symm)

end Positions

theorem TableDescr.isBiptr_iff {td : TableDescr} {destination i : Nat} :
    td.isBiptr destination i = true ↔
      ∃ att, td.attrs[i]? = some att ∧ att.destination = some destination := by
  simp only [isBiptr]
  split
  case h_1 hnone => simp [hnone]
  case h_2 att hsome => simp [hsome]

theorem biTables_eq_some {tables : Tables} {tb1 attr1 tb2 attr2 : Nat} :
    biTables tables (tb1, attr1) = some (tb2, attr2) ↔
      (tables tb1).isBiptr tb2 attr1 = true ∧
        ((tables tb2).biptrs tb1 (tables tb2).attrs.length)[
          ((tables tb1).biptrs tb2 attr1).length]? = some attr2 := by
  rw [TableDescr.isBiptr_iff]
  simp only [biTables]
  split
  case h_1 hnone => simp [hnone]
  case h_2 att hsome =>
    split
    case h_1 hdest => simp [hsome, hdest]
    case h_2 tb hdest =>
      simp only [hsome, Option.map_eq_some_iff, Prod.mk.injEq]
      constructor
      · rintro ⟨attr, hget, rfl, rfl⟩
        exact ⟨⟨att, rfl, hdest⟩, hget⟩
      · rintro ⟨⟨att', hatt, hdest'⟩, hget⟩
        cases hatt
        rw [hdest] at hdest'
        cases hdest'
        exact ⟨attr2, hget, rfl, rfl⟩

theorem biTables_symm {tables : Tables} {c d : Column} (hlinked : biTables tables c = some d) :
    biTables tables d = some c := by
  obtain ⟨tb1, attr1⟩ := c
  obtain ⟨tb2, attr2⟩ := d
  rw [biTables_eq_some] at hlinked ⊢
  obtain ⟨hbiptr, hget⟩ := hlinked
  have hback := positions_length hget
  obtain ⟨_, _, hp⟩ := mem_positions.mp (List.mem_of_getElem? hget)
  refine ⟨hp, ?_⟩
  have hlength : ((tables tb2).biptrs tb1 attr2).length =
      ((tables tb1).biptrs tb2 attr1).length := hback
  rw [hlength]
  obtain ⟨att, hatt, hdest⟩ := TableDescr.isBiptr_iff.mp hbiptr
  refine positions_get ?_ (List.getElem?_eq_some_iff.mp hatt).1 hbiptr
  refine Nat.pos_of_ne_zero fun hzero => ?_
  rw [hzero] at hatt
  rw [(tables tb1).system att hatt] at hdest
  cases hdest

end Sql602.Table

namespace Sql602.Table

open scoped List

variable {tables : Tables} {values : Values} {c d : Column} {recnum : Nat}

/-! What an attribute of a record holds. -/

def Attr.list (attr : Attr) : List Nat := (List.range attr.num).map attr.cells

variable (tables) in
def Attr.valid (c : Column) (attr : Attr) : List Nat :=
  if Multi tables c then attr.list else [attr.cells 0]

variable (tables values) in
def held (c : Column) (recnum : Nat) : List Nat := (values c recnum).valid tables c

@[simp] theorem Values.update_same {attr : Attr} : values.update c recnum attr c recnum = attr :=
  if_pos ⟨rfl, rfl⟩

theorem Values.update_other {attr : Attr} {recnum' : Nat} (hne : ¬ (d = c ∧ recnum' = recnum)) :
    values.update c recnum attr d recnum' = values d recnum' :=
  if_neg hne

theorem Values.update_self : values.update c recnum (values c recnum) = values := by
  funext c' recnum'
  simp only [update]
  split
  case isTrue hsame => rw [hsame.1, hsame.2]
  case isFalse => rfl

theorem Values.update_update {first second : Attr} :
    (values.update c recnum first).update c recnum second = values.update c recnum second := by
  funext c' recnum'
  simp only [update]
  split
  · rfl
  · rfl

theorem held_update {attr : Attr} {recnum' : Nat} :
    held tables (values.update c recnum attr) d recnum' =
      if d = c ∧ recnum' = recnum then attr.valid tables c else held tables values d recnum' := by
  simp only [held, Values.update]
  split
  case isTrue hsame => rw [hsame.1]
  case isFalse => rfl

namespace Attr

variable {attr : Attr} {index value : Nat}

@[simp] theorem list_length : attr.list.length = attr.num := by
  simp [list]

theorem list_get (hlt : index < attr.num) : attr.list[index]? = some (attr.cells index) := by
  simp [list, hlt]

theorem list_set : (attr.set index value).list = attr.list.set index value := by
  refine List.ext_getElem? fun i => ?_
  by_cases hi : i = index
  · subst hi
    by_cases hlt : i < attr.num
    · rw [List.getElem?_set_self (by rw [list_length]; exact hlt), @list_get (attr.set i value) i hlt]
      exact congrArg some (Function.update_self ..)
    · rw [List.getElem?_eq_none (by rw [list_length]; exact Nat.le_of_not_lt hlt),
        List.getElem?_eq_none (by rw [List.length_set, list_length]; exact Nat.le_of_not_lt hlt)]
  · rw [List.getElem?_set_ne fun h => hi h.symm]
    by_cases hlt : i < attr.num
    · rw [list_get hlt, @list_get (attr.set index value) i hlt]
      exact congrArg some (Function.update_of_ne hi ..)
    · rw [List.getElem?_eq_none (by rw [list_length]; exact Nat.le_of_not_lt hlt),
        List.getElem?_eq_none (by rw [list_length]; exact Nat.le_of_not_lt hlt)]

theorem grow_inside (hlt : index < attr.num) : attr.grow index = attr := if_neg (by omega)

theorem find_some (hfind : attr.find value = some index) :
    index < attr.num ∧ attr.cells index = value := by
  have hmem := List.mem_of_find?_eq_some hfind
  have hvalue := List.find?_some hfind
  exact ⟨List.mem_range.mp hmem, of_decide_eq_true hvalue⟩

theorem find_none (hfind : attr.find value = none) : value ∉ attr.list := by
  intro hmem
  obtain ⟨i, hi, rfl⟩ := List.mem_map.mp hmem
  have hnot := List.find?_eq_none.mp hfind i hi
  exact hnot (decide_eq_true rfl)

/-- The value at an index is replaced by the last one. -/
def removeAt (attr : Attr) (index : Nat) : Attr where
  cells := Function.update attr.cells index (attr.cells (attr.num - 1))
  num := attr.num - 1

theorem removeAt_perm (hlt : index < attr.num) :
    (attr.cells index :: (attr.removeAt index).list).Perm attr.list := by
  obtain ⟨num, hnum⟩ : ∃ num, attr.num = num + 1 := ⟨attr.num - 1, by omega⟩
  have hlist : attr.list = (List.range num).map attr.cells ++ [attr.cells num] := by
    rw [list, hnum, List.range_succ, List.map_append]
    rfl
  have hremoved : (attr.removeAt index).list =
      ((List.range num).map attr.cells).set index (attr.cells num) := by
    have hsame : attr.removeAt index = (Attr.mk attr.cells num).set index (attr.cells num) := by
      simp only [removeAt, set, hnum, Nat.add_sub_cancel]
    rw [hsame, list_set]
    rfl
  rw [hlist, hremoved]
  by_cases hlast : index = num
  · subst hlast
    rw [List.set_eq_of_length_le (by simp)]
    exact (List.perm_append_singleton ..).symm
  · have hin : index < ((List.range num).map attr.cells).length := by
      rw [List.length_map, List.length_range]
      omega
    have hvalue : ((List.range num).map attr.cells)[index] = attr.cells index := by simp
    have hold := List.getElem_cons_eraseIdx_perm hin
    have hnew := List.set_perm_cons_eraseIdx hin (attr.cells num)
    rw [hvalue] at hold
    calc attr.cells index :: ((List.range num).map attr.cells).set index (attr.cells num)
        ~ attr.cells index :: attr.cells num :: ((List.range num).map attr.cells).eraseIdx index :=
          hnew.cons _
      _ ~ attr.cells num :: attr.cells index :: ((List.range num).map attr.cells).eraseIdx index :=
          List.Perm.swap ..
      _ ~ attr.cells num :: (List.range num).map attr.cells := hold.cons _
      _ ~ (List.range num).map attr.cells ++ [attr.cells num] :=
          (List.perm_append_singleton ..).symm

theorem removeAt_erase (hlt : index < attr.num) :
    (attr.removeAt index).list.Perm (attr.list.erase (attr.cells index)) := by
  have hperm := (removeAt_perm hlt).erase (attr.cells index)
  rwa [List.erase_cons_head] at hperm

end Attr

theorem mem_erase_count {l : List Nat} {a b : Nat} :
    b ∈ l.erase a ↔ (b ≠ a ∧ b ∈ l) ∨ (b = a ∧ 1 < l.count a) := by
  by_cases hsame : b = a
  · subst hsame
    rw [← List.count_pos_iff, List.count_erase_self]
    simp only [ne_eq, not_true_eq_false, false_and, false_or, true_and]
    omega
  · rw [List.mem_erase_of_ne hsame]
    simp [hsame]

theorem mem_set_count {l : List Nat} {i old new b : Nat} (hget : l[i]? = some old) :
    b ∈ l.set i new ↔ b = new ∨ (b ≠ old ∧ b ∈ l) ∨ (b = old ∧ 1 < l.count old) := by
  obtain ⟨hi, rfl⟩ := List.getElem?_eq_some_iff.mp hget
  have hnew := List.set_perm_cons_eraseIdx hi new
  have hold := List.getElem_cons_eraseIdx_perm hi
  have herase : (l.eraseIdx i).Perm (l.erase l[i]) := by
    have hperm := hold.erase l[i]
    rwa [List.erase_cons_head] at hperm
  rw [hnew.mem_iff, List.mem_cons, herase.mem_iff, mem_erase_count]

end Sql602.Table
