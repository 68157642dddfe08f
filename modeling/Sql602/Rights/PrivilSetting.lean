import Sql602.Rights.PrivilWrites

namespace Sql602.Rights

/-! Setting the own privileges of a subject. -/

/-- The map that is stored for the given one: its rights are kept, but the global rights to
read and to write stand for those on all the columns of the user. -/
structure Derived (names : List (List UInt8)) (given map : List UInt8) : Prop where
  length : map.length = given.length
  columns : ∀ pos, pos ≠ 0 → map.getD pos 0 = given.getD pos 0
  global : ∀ bit, 2 ≤ bit → bit < 8 → hasBit map 0 bit = hasBit given 0 bit
  derived : ∀ right : ColumnRight, hasBit map 0 right.offset = true ↔
    ∀ column, 1 ≤ column → column < names.length →
      isSystemColumn (names.getD column []) = false → hasOwn right given column = true

section Deriving

variable {names : List (List UInt8)} {map : List UInt8} {first : UInt8 → UInt8}
  {right : ColumnRight} {bit pos column : Nat}

theorem setHead_length : (setHead map first).length = map.length := List.length_modify _ _ _

theorem getD_setHead (hpos : pos ≠ 0) : (setHead map first).getD pos 0 = map.getD pos 0 := by
  cases map with
  | nil => rfl
  | cons head rest =>
      obtain ⟨pos, rfl⟩ := Nat.exists_eq_succ_of_ne_zero hpos
      rfl

theorem head_setHead (hmap : map ≠ []) : (setHead map first).getD 0 0 = first (map.getD 0 0) := by
  cases map with
  | nil => exact absurd rfl hmap
  | cons head rest => rfl

theorem setHead_ne_nil (hmap : map ≠ []) : setHead map first ≠ [] := by
  cases map with
  | nil => exact absurd rfl hmap
  | cons head rest => exact List.cons_ne_nil _ _

theorem columnByte_ne_zero : columnByte column ≠ 0 := by
  unfold columnByte
  omega

theorem hasOwn_setHead : hasOwn right (setHead map first) column = hasOwn right map column := by
  rw [hasOwn, hasOwn, hasBit, hasBit, getD_setHead columnByte_ne_zero]

theorem hasBit_head_and (mask : UInt8) (hmap : map ≠ []) (hbit : bit < 8) :
    hasBit (setHead map (· &&& mask)) 0 bit = (hasBit map 0 bit && mask.toNat.testBit bit) := by
  rw [hasBit_eq hbit, hasBit_eq hbit, head_setHead hmap, UInt8.toNat_and, Nat.testBit_and]

theorem hasBit_head_or (mask : UInt8) (hmap : map ≠ []) (hbit : bit < 8) :
    hasBit (setHead map (· ||| mask)) 0 bit = (hasBit map 0 bit || mask.toNat.testBit bit) := by
  rw [hasBit_eq hbit, hasBit_eq hbit, head_setHead hmap, UInt8.toNat_or, Nat.testBit_or]

theorem offset_lt (right : ColumnRight) : right.offset < 8 := by
  cases right <;> decide

theorem derived_eq (right : ColumnRight) : right.derived = bitMask right.offset := by
  cases right <;> rfl

theorem onAllColumns_iff :
    onAllColumns right names map = true ↔ ∀ column, 1 ≤ column → column < names.length →
      isSystemColumn (names.getD column []) = false → hasRight right map column = true := by
  rw [onAllColumns, List.all_eq_true]
  constructor
  · intro hall column hlow hhigh hsystem
    have hcolumn := hall column (List.mem_range'_1.mpr ⟨hlow, by omega⟩)
    rw [hsystem, Bool.false_or] at hcolumn
    exact hcolumn
  · intro hall column hmem
    obtain ⟨hlow, hhigh⟩ := List.mem_range'_1.mp hmem
    cases hsystem : isSystemColumn (names.getD column []) with
    | true => rfl
    | false =>
        rw [Bool.false_or]
        exact hall column hlow (by omega) hsystem

/-- Without the global right only the own bit of the column counts. -/
theorem hasRight_of_clear (hclear : hasBit map 0 right.offset = false) :
    hasRight right map column = hasOwn right map column := by
  rw [hasBit, ← derived_eq] at hclear
  rw [hasRight, hclear, Bool.false_or]

theorem derivePrivils_derived (hmap : map ≠ []) : Derived names map (derivePrivils names map) := by
  generalize hcleared : setHead map (· &&& ~~~ (RIGHT_READ ||| RIGHT_WRITE)) = cleared
  have hne : cleared ≠ [] := hcleared ▸ setHead_ne_nil hmap
  have hclear : ∀ right : ColumnRight, hasBit cleared 0 right.offset = false := by
    intro right
    rw [← hcleared, hasBit_head_and _ hmap (offset_lt right)]
    cases right <;> exact Bool.and_false _
  have hall : ∀ right : ColumnRight, onAllColumns right names cleared = true ↔
      ∀ column, 1 ≤ column → column < names.length →
        isSystemColumn (names.getD column []) = false → hasOwn right map column = true := by
    intro right
    rw [onAllColumns_iff, ← hcleared]
    simp only [hasRight_of_clear (hcleared.symm ▸ hclear right), hasOwn_setHead]
  generalize hread : onAllColumns .read names cleared = allRead
  generalize hwrite : onAllColumns .write names cleared = allWrite
  have hresult : derivePrivils names map =
      (if allWrite then setHead (if allRead then setHead cleared (· ||| RIGHT_READ) else cleared)
        (· ||| RIGHT_WRITE) else if allRead then setHead cleared (· ||| RIGHT_READ) else cleared) := by
    rw [derivePrivils, hcleared, hread, hwrite]
  have hbits : ∀ bit, bit < 8 → hasBit (derivePrivils names map) 0 bit =
      (hasBit cleared 0 bit || allRead && RIGHT_READ.toNat.testBit bit ||
        allWrite && RIGHT_WRITE.toNat.testBit bit) := by
    intro bit hbit
    rw [hresult]
    cases allRead <;> cases allWrite <;>
      simp only [if_true, Bool.false_eq_true, if_false, hasBit_head_or _ hne hbit,
        hasBit_head_or _ (setHead_ne_nil hne) hbit, Bool.true_and, Bool.false_and, Bool.or_false]
  constructor
  case length =>
    rw [hresult, ← hcleared]
    cases allRead <;> cases allWrite <;>
      simp only [if_true, Bool.false_eq_true, if_false, setHead_length]
  case columns =>
    intro pos hpos
    rw [hresult, ← hcleared]
    cases allRead <;> cases allWrite <;>
      simp only [if_true, Bool.false_eq_true, if_false, getD_setHead hpos]
  case global =>
    intro bit hlow hbit
    have hread' : RIGHT_READ.toNat.testBit bit = false := by
      interval_cases bit <;> rfl
    have hwrite' : RIGHT_WRITE.toNat.testBit bit = false := by
      interval_cases bit <;> rfl
    have hmask : (~~~ (RIGHT_READ ||| RIGHT_WRITE)).toNat.testBit bit = true := by
      interval_cases bit <;> rfl
    rw [hbits bit hbit, hread', hwrite', Bool.and_false, Bool.and_false, Bool.or_false,
      Bool.or_false, ← hcleared, hasBit_head_and _ hmap hbit, hmask, Bool.and_true]
  case derived =>
    intro right
    rw [hbits _ (offset_lt right), hclear right, ← hall right]
    cases right with
    | read =>
        rw [hread]
        cases allRead <;> cases allWrite <;> decide
    | write =>
        rw [hwrite]
        cases allRead <;> cases allWrite <;> decide

end Deriving

section Setting

variable {failures : Failures} {names : List (List UInt8)} {defs : PrivilDefs}
  {subject : Subject} {tb rec : UInt32} {privVal : List UInt8}

def PrivilDefs.stored (defs : PrivilDefs) (tb rec : UInt32) : List UInt8 :=
  (defs.listOf tb rec).getD []

/-- What the lists hold after the privileges have been set. -/
structure SetRight (names : List (List UInt8)) (defs next : PrivilDefs) (subject : Subject)
    (tb rec : UInt32) (given : List UInt8) : Prop where
  own : ∃ map, getOwnPrivils next subject tb rec = (false, map) ∧ Derived names given map
  others : ∀ other : Subject, other.uuid ≠ subject.uuid →
    getOwnPrivils next other tb rec = getOwnPrivils defs other tb rec
  elsewhere : ∀ tb' rec', (tb', rec') ≠ (tb, rec) → next.listOf tb' rec' = defs.listOf tb' rec'
  wellFormed : WellFormed (defs.descrSize tb) (next.stored tb rec)
  summary : ∀ inGroupdef pos bit, pos < defs.descrSize tb → bit < 8 →
    (hasBit (sumarizePrivils inGroupdef (defs.descrSize tb) (next.stored tb rec)) pos bit = true ↔
      ∃ uuid, inGroupdef uuid = true ∧
        hasBit (getOwnPrivils next ⟨false, uuid⟩ tb rec).2 pos bit = true)

theorem getOwnPrivils_eq (hadmin : subject.isDbAdmin = false)
    (hlocation : hasLocation defs tb rec = true) :
    getOwnPrivils defs subject tb rec =
      (false, mapInList (defs.descrSize tb) subject.uuid (defs.stored tb rec)) := by
  have hnot : ¬ hasLocation defs tb rec = false := by
    rw [hlocation]
    exact Bool.noConfusion
  rw [getOwnPrivils, hadmin, if_neg Bool.false_ne_true, if_neg hnot, PrivilDefs.stored]
  split
  · next hlist =>
      rw [hlist]
      rfl
  · next hlist =>
      rw [hlist]
      rfl
  · next hlist => rw [hlist, Option.getD_some]

theorem getOwnPrivils_congr {next : PrivilDefs} (hattrs : next.attrcnt = defs.attrcnt)
    (hrecs : next.recPrivils = defs.recPrivils)
    (hmap : mapInList (defs.descrSize tb) subject.uuid (next.stored tb rec) =
      mapInList (defs.descrSize tb) subject.uuid (defs.stored tb rec)) :
    getOwnPrivils next subject tb rec = getOwnPrivils defs subject tb rec := by
  have hsize : next.descrSize tb = defs.descrSize tb := by
    rw [PrivilDefs.descrSize, PrivilDefs.descrSize, hattrs]
  have hlocation' : hasLocation next tb rec = hasLocation defs tb rec := by
    rw [hasLocation, hasLocation, hrecs]
  cases hadmin : subject.isDbAdmin with
  | true =>
      rw [getOwnPrivils, getOwnPrivils, hadmin, if_pos rfl, if_pos rfl, hsize]
  | false =>
      cases hlocation : hasLocation defs tb rec with
      | true =>
          rw [getOwnPrivils_eq hadmin hlocation,
            getOwnPrivils_eq hadmin (hlocation'.trans hlocation), hsize, hmap]
      | false =>
          rw [getOwnPrivils, getOwnPrivils, hadmin, if_neg Bool.false_ne_true,
            if_neg Bool.false_ne_true, if_pos hlocation, if_pos (hlocation'.trans hlocation), hsize]

theorem setList_listOf (privDef : List UInt8) :
    (defs.setList tb rec privDef).listOf tb rec = some privDef := by
  rw [PrivilDefs.setList, PrivilDefs.listOf]
  split
  · exact Function.update_self tb _ _
  · dsimp only
    rw [Function.update_self, Function.update_self]

theorem setList_elsewhere {tb' rec' : UInt32} (privDef : List UInt8)
    (hother : (tb', rec') ≠ (tb, rec)) :
    (defs.setList tb rec privDef).listOf tb' rec' = defs.listOf tb' rec' := by
  rw [PrivilDefs.setList, PrivilDefs.listOf, PrivilDefs.listOf]
  by_cases htb : tb' = tb
  · subst htb
    have hrec : rec' ≠ rec := fun h => hother (h ▸ rfl)
    split
    · next hnone =>
        split
        · next hnone' => exact absurd (hnone.trans hnone'.symm) hrec
        · rfl
    · split
      · rfl
      · dsimp only
        rw [Function.update_self, Function.update_of_ne hrec]
  · split
    · split
      · exact Function.update_of_ne htb _ _
      · rfl
    · split
      · rfl
      · dsimp only
        rw [Function.update_of_ne htb]

theorem setList_same (privDef : List UInt8) :
    (defs.setList tb rec privDef).attrcnt = defs.attrcnt ∧
      (defs.setList tb rec privDef).recPrivils = defs.recPrivils := by
  rw [PrivilDefs.setList]
  split <;> exact ⟨rfl, rfl⟩

/-- No inner write fails. -/
def noFailures : Failures := ⟨false, false, false, false, false, fun _ => 0⟩

/-- Two columns and no lists. -/
def emptyDefs : PrivilDefs := ⟨fun _ => 3, fun _ => true, fun _ => some [], fun _ _ => some []⟩

theorem wellFormed_nil (descrSize : Nat) : WellFormed descrSize [] :=
  ⟨[], ⟨Or.inl ⟨rfl, rfl⟩, fun _ h => absurd h List.not_mem_nil⟩, List.nodup_nil⟩

def twoNames : List (List UInt8) := [[68], [65], [66]]

def member : Subject := ⟨false, List.replicate 12 7⟩

end Setting

end Sql602.Rights
