import Mathlib.Tactic.Common
import Sql602.Table.RecordLayout

namespace Sql602.Records

open Pages

section Values

variable {valsize fuel page offset ind page' offset' : Nat}

/-- Behind all the values, on a page. -/
structure Behind (valsize page offset ind : Nat) (next : Nat × Nat) : Prop where
  bounded : next.2 ≤ BLOCKSIZE
  start_le : BLOCKSIZE * page + offset ≤ BLOCKSIZE * next.1 + next.2
  filled : 0 < offset ∨ 0 < ind → 0 < next.2
  values : ∀ index < ind, (nth BLOCKSIZE valsize page offset index).stop BLOCKSIZE ≤
    BLOCKSIZE * next.1 + next.2

theorem placeValues_size {next : Nat × Nat} (hind : 0 < ind)
    (hplace : placeValues valsize fuel page offset ind = some next) : valsize ≤ BLOCKSIZE := by
  induction fuel generalizing page offset ind with
  | zero => cases hplace
  | succ fuel ih =>
      rw [placeValues] at hplace
      split at hplace
      · next hfits =>
          by_contra hlarge
          rw [Nat.div_eq_of_lt (by omega)] at hfits
          omega
      · next hmore => exact ih (by omega) hplace

theorem placeValues_behind {next : Nat × Nat} (hvalsize : 0 < valsize)
    (hoffset : offset ≤ BLOCKSIZE)
    (hplace : placeValues valsize fuel page offset ind = some next) :
    Behind valsize page offset ind next := by
  induction fuel generalizing page offset ind with
  | zero => cases hplace
  | succ fuel ih =>
      have hsize := fun hind => @placeValues_size valsize (fuel + 1) page offset ind next hind hplace
      rw [placeValues] at hplace
      split at hplace
      · next hfits =>
          obtain rfl := Option.some.inj hplace
          have hle := Nat.mul_le_mul_left valsize hfits
          have hdiv := Nat.div_mul_le_self (BLOCKSIZE - offset) valsize
          rw [Nat.mul_comm] at hdiv
          refine ⟨by dsimp only; omega, by dsimp only; omega, ?_, fun index hindex => ?_⟩
          · rintro (hpos | hpos)
            · exact Nat.lt_of_lt_of_le hpos (Nat.le_add_right _ _)
            · exact Nat.lt_of_lt_of_le (Nat.mul_pos hvalsize hpos) (Nat.le_add_left _ _)
          · have hmul := Nat.mul_le_mul_left valsize (Nat.succ_le_of_lt hindex)
            rw [Nat.mul_succ] at hmul
            rw [nth_first (Nat.lt_of_lt_of_le hindex hfits), Range.stop, Range.start]
            dsimp only
            omega
      · next hmore =>
          have hind := Nat.lt_of_le_of_lt (Nat.zero_le _) (Nat.not_le.mp hmore)
          have hper : 0 < BLOCKSIZE / valsize := Nat.div_pos (hsize hind) hvalsize
          have hbehind := ih (Nat.zero_le _) hplace
          have hstart := hbehind.start_le
          rw [Nat.mul_succ, Nat.add_zero] at hstart
          refine ⟨hbehind.bounded, by omega, fun _ => hbehind.filled (Or.inr (by omega)),
            fun index hindex => ?_⟩
          by_cases hfirst : index < (BLOCKSIZE - offset) / valsize
          · have hin := @nth_inside BLOCKSIZE valsize page offset index hvalsize
              (hsize hind) hoffset
            rw [nth_first hfirst, Range.Inside] at hin
            rw [nth_first hfirst, Range.stop, Range.start]
            dsimp only at hin ⊢
            omega
          · rw [nth_behind hper (Nat.le_of_not_lt hfirst)]
            exact hbehind.values _ (by omega)

end Values

/-- The bytes of a part of a column in the pages of one record. -/
def AttribDef.inRecord (att : AttribDef) : Part → Range
  | .base => ⟨att.attrpage, att.attroffset - att.before, att.in1stpage⟩
  | .value index => nth BLOCKSIZE att.typesize att.attrpage (att.attroffset + CNTRSZ) index

/-- The parts of the column lie apart between two addresses of the record. -/
structure Placed (first last : Nat) (att : AttribDef) : Prop where
  between : ∀ part, att.HasPart part → first ≤ (att.inRecord part).start BLOCKSIZE ∧
    (att.inRecord part).stop BLOCKSIZE ≤ last
  inside : ∀ part, att.HasPart part → (att.inRecord part).Inside BLOCKSIZE ∧
    0 < (att.inRecord part).length
  apart : ∀ part part', att.HasPart part → att.HasPart part' → part ≠ part' →
    (att.inRecord part).Apart (att.inRecord part')

section Columns

variable {column : Column} {columns : List Column} {att : AttribDef} {tbdf : TableDescr}
  {page offset page' offset' : Nat}

theorem before_le (column : Column) : column.before ≤ PIECESIZE := by
  rw [Column.before]
  split
  · exact Nat.le_refl _
  · exact Nat.zero_le _

theorem in1stpage_multi (hmulti : column.multi = true) :
    column.in1stpage = CNTRSZ + column.before := if_pos hmulti

theorem in1stpage_single (hsingle : column.multi = false) :
    column.in1stpage = column.typesize := if_neg (by rw [hsingle]; exact Bool.false_ne_true)

theorem in1stpage_pos (column : Column) : 0 < column.in1stpage := by
  cases hmulti : column.multi with
  | true =>
      rw [in1stpage_multi hmulti]
      exact Nat.add_pos_left (by decide) _
  | false =>
      rw [in1stpage_single hmulti]
      exact column.typesize_pos

theorem in1stpage_le (hfits : column.multi = false → column.typesize ≤ BLOCKSIZE) :
    column.in1stpage ≤ BLOCKSIZE := by
  cases hmulti : column.multi with
  | true =>
      have hbefore := before_le column
      rw [in1stpage_multi hmulti]
      rw [PIECESIZE] at hbefore
      rw [CNTRSZ, BLOCKSIZE]
      omega
  | false =>
      rw [in1stpage_single hmulti]
      exact hfits hmulti

/-- A column starts at a place, in its page or in the next one, and its first part is in one
page. -/
theorem placeColumn_cases (hfits : column.multi = false → column.typesize ≤ BLOCKSIZE)
    (hplace : placeColumn column page offset = some (att, page', offset')) :
    ∃ first start, start + column.in1stpage ≤ BLOCKSIZE ∧
      (offset ≤ BLOCKSIZE → BLOCKSIZE * page + offset ≤ BLOCKSIZE * first + start) ∧
      att.toColumn = column ∧ att.attrpage = first % 2 ^ 16 ∧
      att.attroffset = start + column.before ∧
      (column.multi = true ∧ placeValues column.typesize (column.preallocated + 2) first
          (start + column.in1stpage) column.preallocated = some (page', offset') ∨
        column.multi = false ∧ page' = first ∧ offset' = start + column.in1stpage) := by
  have hin := in1stpage_le hfits
  have hbefore := before_le column
  have hsmall : BLOCKSIZE + PIECESIZE < 2 ^ 16 := by decide
  rw [placeColumn] at hplace
  generalize hnext : decide (BLOCKSIZE < offset + column.in1stpage) = next at hplace
  refine ⟨if next then page + 1 else page, if next then 0 else offset, ?_⟩
  have hstart : (if next then 0 else offset) + column.in1stpage ≤ BLOCKSIZE ∧
      (offset ≤ BLOCKSIZE → BLOCKSIZE * page + offset ≤
        BLOCKSIZE * (if next then page + 1 else page) + if next then 0 else offset) := by
    cases next with
    | true =>
        rw [if_pos rfl, if_pos rfl, Nat.mul_succ]
        omega
    | false =>
        rw [if_neg Bool.false_ne_true, if_neg Bool.false_ne_true]
        rw [decide_eq_false_iff_not] at hnext
        omega
  refine ⟨hstart.1, hstart.2, ?_⟩
  have hmod : ((if next then 0 else offset) + column.before) % 2 ^ 16 =
      (if next then 0 else offset) + column.before := Nat.mod_eq_of_lt (by omega)
  rw [hmod] at hplace
  split at hplace
  · next hmulti =>
      obtain ⟨next', hvalues, heq⟩ := Option.map_eq_some_iff.mp hplace
      obtain ⟨rfl, rfl⟩ := Prod.mk.inj heq
      exact ⟨rfl, rfl, rfl, Or.inl ⟨hmulti, hvalues⟩⟩
  · next hsingle =>
      obtain ⟨rfl, heq⟩ := Prod.mk.inj (Option.some.inj hplace)
      obtain ⟨rfl, rfl⟩ := Prod.mk.inj heq
      exact ⟨rfl, rfl, rfl, Or.inr ⟨Bool.eq_false_iff.mpr hsingle, rfl, rfl⟩⟩

theorem placeColumn_column (hplace : placeColumn column page offset = some (att, page', offset')) :
    att.toColumn = column := by
  rw [placeColumn] at hplace
  split at hplace
  · obtain ⟨next, -, heq⟩ := Option.map_eq_some_iff.mp hplace
    obtain ⟨rfl, -⟩ := Prod.mk.inj heq
    rfl
  · obtain ⟨rfl, -⟩ := Prod.mk.inj (Option.some.inj hplace)
    rfl

theorem page_lt_of_le {pages : Nat} (hoffset : 0 < offset)
    (hlast : BLOCKSIZE * page + offset ≤ BLOCKSIZE * pages) : page < pages :=
  Nat.lt_of_mul_lt_mul_left (show BLOCKSIZE * page < BLOCKSIZE * pages by omega)

theorem placeColumn_behind (hfits : column.multi = false → column.typesize ≤ BLOCKSIZE)
    (hoffset : offset ≤ BLOCKSIZE)
    (hplace : placeColumn column page offset = some (att, page', offset')) :
    offset' ≤ BLOCKSIZE ∧ 0 < offset' ∧
      BLOCKSIZE * page + offset ≤ BLOCKSIZE * page' + offset' := by
  obtain ⟨first, start, hin, hstart, rfl, -, -, hkind⟩ := placeColumn_cases hfits hplace
  have hstart := hstart hoffset
  have hpos := in1stpage_pos att.toColumn
  obtain ⟨-, hvalues⟩ | ⟨-, rfl, rfl⟩ := hkind
  · have hlast := placeValues_behind att.typesize_pos hin hvalues
    have hle : BLOCKSIZE * first + (start + att.in1stpage) ≤ BLOCKSIZE * page' + offset' :=
      hlast.start_le
    exact ⟨hlast.bounded, hlast.filled (Or.inl (by omega)), by omega⟩
  · exact ⟨hin, by omega, by omega⟩

/-- A column is placed behind the columns before it. -/
theorem placeColumn_placed (hfits : column.multi = false → column.typesize ≤ BLOCKSIZE)
    (hoffset : offset ≤ BLOCKSIZE)
    (hplace : placeColumn column page offset = some (att, page', offset'))
    (hpages : BLOCKSIZE * page' + offset' ≤ BLOCKSIZE * 2 ^ 16) :
    Placed (BLOCKSIZE * page + offset) (BLOCKSIZE * page' + offset') att := by
  obtain ⟨first, start, hin, hstart, rfl, hattrpage, hattroffset, hkind⟩ :=
    placeColumn_cases hfits hplace
  have hstart := hstart hoffset
  have hpos := in1stpage_pos att.toColumn
  have hsub : att.attroffset - att.before = start := by rw [hattroffset, Nat.add_sub_cancel]
  obtain ⟨hmulti, hvalues⟩ | ⟨hsingle, rfl, rfl⟩ := hkind
  · have hlast := placeValues_behind att.typesize_pos hin hvalues
    have hle : BLOCKSIZE * first + (start + att.in1stpage) ≤ BLOCKSIZE * page' + offset' :=
      hlast.start_le
    have hpage : att.attrpage = first := by
      rw [hattrpage, Nat.mod_eq_of_lt (page_lt_of_le
        (Nat.lt_of_lt_of_le hpos (Nat.le_add_left _ start)) (Nat.le_trans hle hpages))]
    have hvalue : att.attroffset + CNTRSZ = start + att.in1stpage := by
      rw [hattroffset, in1stpage_multi hmulti, Nat.add_assoc, Nat.add_comm att.before]
    have hsize : ∀ index < att.preallocated, att.typesize ≤ BLOCKSIZE :=
      fun index hindex => placeValues_size (Nat.lt_of_le_of_lt (Nat.zero_le _) hindex) hvalues
    have hbase : att.inRecord .base = ⟨first, start, att.in1stpage⟩ := by
      rw [AttribDef.inRecord, hpage, hsub]
    have hnth : ∀ index, att.inRecord (.value index) =
        nth BLOCKSIZE att.typesize first (start + att.in1stpage) index := by
      intro index
      rw [AttribDef.inRecord, hpage, hvalue]
    have hnthStart : ∀ index, BLOCKSIZE * first + (start + att.in1stpage) ≤
        (nth BLOCKSIZE att.typesize first (start + att.in1stpage) index).start BLOCKSIZE :=
      fun index => start_le_nth hin
    refine ⟨fun part hpart => ?_, fun part hpart => ?_,
      fun part part' hpart hpart' hne => ?_⟩
    · cases part with
      | base =>
          rw [hbase, Range.stop, Range.start]
          dsimp only
          omega
      | value index =>
          have hbefore := hnthStart index
          rw [hnth]
          exact ⟨by omega, hlast.values index hpart.2⟩
    · cases part with
      | base =>
          rw [hbase]
          exact ⟨hin, hpos⟩
      | value index =>
          rw [hnth, nth_length]
          exact ⟨nth_inside att.typesize_pos (hsize index hpart.2) hin, att.typesize_pos⟩
    · have hcounter : ∀ index, (att.inRecord .base).Apart (att.inRecord (.value index)) := by
        intro index
        have hbefore := hnthStart index
        rw [hbase, hnth]
        refine @Range.apart_of_stop_le BLOCKSIZE _ _ ?_
        rw [Range.stop, Range.start]
        dsimp only
        omega
      cases part with
      | base =>
          cases part' with
          | base => exact absurd rfl hne
          | value index => exact hcounter index
      | value index =>
          cases part' with
          | base => exact (hcounter index).symm
          | value other =>
              rw [hnth, hnth]
              exact nth_apart att.typesize_pos (hsize index hpart.2) fun heq => hne (by rw [heq])
  · have hpage : att.attrpage = page' := by
      rw [hattrpage, Nat.mod_eq_of_lt (page_lt_of_le (by omega) hpages)]
    have hbase : att.inRecord .base = ⟨page', start, att.in1stpage⟩ := by
      rw [AttribDef.inRecord, hpage, hsub]
    have honly : ∀ part, att.HasPart part → part = .base := by
      intro part hpart
      cases part with
      | base => rfl
      | value index => exact absurd (hsingle.symm.trans hpart.1) Bool.false_ne_true
    refine ⟨fun part hpart => ?_, fun part hpart => ?_,
      fun part part' hpart hpart' hne => ?_⟩
    · rw [honly part hpart, hbase, Range.stop, Range.start]
      dsimp only
      omega
    · rw [honly part hpart, hbase]
      exact ⟨hin, hpos⟩
    · exact absurd ((honly part hpart).trans (honly part' hpart').symm) hne

theorem Placed.mono {first last first' last' : Nat} (hplaced : Placed first last att)
    (hfirst : first' ≤ first) (hlast : last ≤ last') : Placed first' last' att :=
  ⟨fun part hpart => ⟨Nat.le_trans hfirst (hplaced.between part hpart).1,
    Nat.le_trans (hplaced.between part hpart).2 hlast⟩, hplaced.inside, hplaced.apart⟩

/-- No part of the one column has bytes of a part of the other one. -/
def ColumnsApart (att att' : AttribDef) : Prop :=
  ∀ part part', att.HasPart part → att'.HasPart part' →
    (att.inRecord part).Apart (att'.inRecord part')

/-- All the columns lie one behind the other. -/
theorem placeColumns_placed {attrs : List AttribDef}
    (hfits : ∀ column ∈ columns, column.multi = false → column.typesize ≤ BLOCKSIZE)
    (hoffset : offset ≤ BLOCKSIZE)
    (hplace : placeColumns columns page offset = some (attrs, page', offset'))
    (hpages : BLOCKSIZE * page' + offset' ≤ BLOCKSIZE * 2 ^ 16) :
    (offset' ≤ BLOCKSIZE ∧ (0 < offset ∨ columns ≠ [] → 0 < offset') ∧
      BLOCKSIZE * page + offset ≤ BLOCKSIZE * page' + offset') ∧
    (∀ att ∈ attrs, Placed (BLOCKSIZE * page + offset) (BLOCKSIZE * page' + offset') att) ∧
    attrs.Pairwise ColumnsApart := by
  induction columns generalizing page offset attrs with
  | nil =>
      obtain ⟨rfl, heq⟩ := Prod.mk.inj (Option.some.inj hplace)
      obtain ⟨rfl, rfl⟩ := Prod.mk.inj heq
      refine ⟨⟨hoffset, ?_, Nat.le_refl _⟩, fun att hatt => ?_, List.Pairwise.nil⟩
      · rintro (hpos | hne)
        · exact hpos
        · exact absurd rfl hne
      · cases hatt
  | cons column columns ih =>
      rw [placeColumns] at hplace
      cases hcolumn : placeColumn column page offset with
      | none =>
          rw [hcolumn] at hplace
          cases hplace
      | some placed =>
          obtain ⟨att, middle, start⟩ := placed
          rw [hcolumn] at hplace
          obtain ⟨rest, hrest, heq⟩ := Option.map_eq_some_iff.mp hplace
          obtain ⟨attrs', next⟩ := rest
          obtain ⟨rfl, rfl⟩ := Prod.mk.inj heq
          have hhead := hfits column List.mem_cons_self
          obtain ⟨hbounded, hpos, hle⟩ := placeColumn_behind hhead hoffset hcolumn
          obtain ⟨⟨hlast, hlastPos, hlastLe⟩, hplaced, hapart⟩ :=
            ih (fun other hother => hfits other (List.mem_cons_of_mem _ hother)) hbounded hrest
          have hatt := placeColumn_placed hhead hoffset hcolumn (Nat.le_trans hlastLe hpages)
          refine ⟨⟨hlast, fun _ => hlastPos (Or.inl hpos), Nat.le_trans hle hlastLe⟩, ?_, ?_⟩
          · intro other hother
            obtain rfl | hother := List.mem_cons.mp hother
            · exact hatt.mono (Nat.le_refl _) hlastLe
            · exact (hplaced other hother).mono hle (Nat.le_refl _)
          · refine List.Pairwise.cons (fun other hother part part' hpart hpart' => ?_) hapart
            exact Range.apart_of_stop_le (Nat.le_trans (hatt.between part hpart).2
              ((hplaced other hother).between part' hpart').1)

/-- The columns of the description in the order of the definition. -/
theorem placeColumns_mem {attrs : List AttribDef}
    (hplace : placeColumns columns page offset = some (attrs, page', offset'))
    (hatt : att ∈ attrs) : ∃ first start next, placeColumn att.toColumn first start =
      some (att, next) := by
  induction columns generalizing page offset attrs with
  | nil =>
      obtain ⟨rfl, -⟩ := Prod.mk.inj (Option.some.inj hplace)
      cases hatt
  | cons column columns ih =>
      rw [placeColumns] at hplace
      cases hcolumn : placeColumn column page offset with
      | none =>
          rw [hcolumn] at hplace
          cases hplace
      | some placed =>
          obtain ⟨first, middle, start⟩ := placed
          rw [hcolumn] at hplace
          obtain ⟨rest, hrest, heq⟩ := Option.map_eq_some_iff.mp hplace
          obtain ⟨attrs', next⟩ := rest
          obtain ⟨rfl, rfl⟩ := Prod.mk.inj heq
          obtain rfl | hatt := List.mem_cons.mp hatt
          · exact ⟨page, offset, (middle, start), by rw [placeColumn_column hcolumn, hcolumn]⟩
          · exact ih hrest hatt

end Columns

section Ends

variable {column : Column} {columns : List Column} {page offset : Nat}

end Ends

section Addresses

variable {columns : List Column} {att : AttribDef} {tbdf : TableDescr}
  {recnum index page offset : Nat}

/-- The counter of values is in one page, and a value fits a page. -/
structure MultiPlaced (att : AttribDef) : Prop where
  counter : att.attroffset + CNTRSZ ≤ BLOCKSIZE
  value : 0 < att.preallocated → att.typesize ≤ BLOCKSIZE

theorem prepare_multiPlaced (hprepare : prepare columns = some tbdf) (hatt : att ∈ tbdf.attrs)
    (hmulti : att.multi = true) : MultiPlaced att := by
  obtain ⟨placed, hplace, rfl⟩ := Option.map_eq_some_iff.mp hprepare
  obtain ⟨first, start, next, hcolumn⟩ := placeColumns_mem hplace hatt
  have hfits : att.multi = false → att.typesize ≤ BLOCKSIZE :=
    fun hsingle => absurd (hmulti.symm.trans hsingle) Bool.true_eq_false.mp
  obtain ⟨page, start, hin, -, -, -, hattroffset, hkind⟩ := placeColumn_cases hfits hcolumn
  obtain ⟨-, hvalues⟩ | ⟨hsingle, -, -⟩ := hkind
  · refine ⟨?_, fun hpos => placeValues_size hpos hvalues⟩
    rw [in1stpage_multi hmulti] at hin
    rw [hattroffset]
    omega
  · exact absurd (hmulti.symm.trans hsingle) Bool.true_eq_false.mp

/-- The maintenance finds the values where they were placed. -/
theorem fixPrivAttrInd_eq (hmultpage : tbdf.multpage = true) :
    tbdf.fixPrivAttrInd recnum att index =
      ((recnum * tbdf.rectopage + (att.inRecord (.value index)).page) % 2 ^ 32,
        (att.inRecord (.value index)).offset) := by
  rw [TableDescr.fixPrivAttrInd, TableDescr.fixPrivAttr, if_pos hmultpage]
  dsimp only
  rw [if_pos hmultpage, AttribDef.inRecord, nth]
  split
  · rw [Nat.mul_comm index]
  · rw [Nat.add_assoc _ att.attrpage, Nat.add_assoc att.attrpage, Nat.add_comm 1]

theorem firstPage_le (att : AttribDef) :
    (BLOCKSIZE - (att.attroffset + CNTRSZ)) / att.typesize ≤
      (BLOCKSIZE - att.attroffset + CNTRSZ) / att.typesize :=
  Nat.div_le_div_right (by omega)

/-- With one number of values in the first page the readers find the same place. -/
theorem accessIndexedColVal_eq (hsame : tbdf.multpage = true → att.SameQuotient)
    (hindex : index < att.preallocated) :
    tbdf.accessIndexedColVal recnum att index = tbdf.fixPrivAttrInd recnum att index := by
  rw [TableDescr.accessIndexedColVal, TableDescr.fixPrivAttrInd, TableDescr.fixAttr,
    TableDescr.accessColVal, TableDescr.fixPrivAttr]
  cases hmultpage : tbdf.multpage with
  | false => rfl
  | true =>
      rw [if_pos rfl, if_pos rfl]
      dsimp only
      rw [if_pos rfl, if_pos rfl, Nat.zero_add]
      obtain hfirst | hsame := hsame hmultpage
      · have hlt := Nat.lt_of_lt_of_le hindex hfirst
        rw [if_pos hlt, if_pos (Nat.lt_of_lt_of_le hlt (firstPage_le att))]
      · rw [hsame]

/-- The reader crosses the end of the page with the first value that it looks for in a wrong
page. -/
theorem accessIndexedColVal_crosses (hmultpage : tbdf.multpage = true)
    (hdiffer : ¬ att.SameQuotient) :
    (BLOCKSIZE - (att.attroffset + CNTRSZ)) / att.typesize < att.preallocated ∧
      ¬ (tbdf.range recnum att (.value
        ((BLOCKSIZE - (att.attroffset + CNTRSZ)) / att.typesize))).Inside BLOCKSIZE := by
  rw [AttribDef.SameQuotient, not_or, Nat.not_le] at hdiffer
  refine ⟨hdiffer.1, ?_⟩
  have hlt := Nat.lt_of_le_of_ne (firstPage_le att) (Ne.symm hdiffer.2)
  have hmod := Nat.lt_div_mul_add (a := BLOCKSIZE - (att.attroffset + CNTRSZ)) att.typesize_pos
  rw [TableDescr.range, TableDescr.accessIndexedColVal, TableDescr.fixAttr,
    TableDescr.accessColVal, if_pos hmultpage]
  dsimp only
  rw [if_pos hmultpage, if_pos hlt, Range.Inside]
  dsimp only
  omega

/-- Readers and maintenance agree about a multiattribute exactly when the wrong sign does not
matter for it. -/
theorem indexRight_iff (hprepare : prepare columns = some tbdf) (hatt : att ∈ tbdf.attrs)
    (hmulti : att.multi = true) (hmultpage : tbdf.multpage = true) :
    tbdf.IndexRight att ↔ att.SameQuotient := by
  have hplaced := prepare_multiPlaced hprepare hatt hmulti
  constructor
  · intro hright
    by_contra hdiffer
    obtain ⟨hindex, hcross⟩ := @accessIndexedColVal_crosses att tbdf 0 hmultpage hdiffer
    exact hcross (hright.inside 0 _ hindex)
  · intro hsame
    have heq : ∀ recnum, ∀ index < att.preallocated,
        tbdf.accessIndexedColVal recnum att index = tbdf.fixPrivAttrInd recnum att index :=
      fun recnum index hindex => accessIndexedColVal_eq (fun _ => hsame) hindex
    have hrange : ∀ recnum, ∀ index < att.preallocated, tbdf.range recnum att (.value index) =
        ⟨(recnum * tbdf.rectopage + (att.inRecord (.value index)).page) % 2 ^ 32,
          (att.inRecord (.value index)).offset, att.typesize⟩ := by
      intro recnum index hindex
      rw [TableDescr.range, heq recnum index hindex, fixPrivAttrInd_eq hmultpage]
    have hsize : ∀ index < att.preallocated, att.typesize ≤ BLOCKSIZE :=
      fun index hindex => hplaced.value (Nat.lt_of_le_of_lt (Nat.zero_le _) hindex)
    have hlength : ∀ index, (att.inRecord (.value index)).length = att.typesize :=
      fun index => nth_length
    refine ⟨heq, fun recnum index hindex => ?_, fun recnum index hindex other hother hne => ?_⟩
    · have hin : (att.inRecord (.value index)).Inside BLOCKSIZE :=
        nth_inside att.typesize_pos (hsize index hindex) hplaced.counter
      rw [Range.Inside, hlength] at hin
      rw [hrange recnum index hindex]
      exact hin
    · have hapart : (att.inRecord (.value index)).Apart (att.inRecord (.value other)) :=
        nth_apart att.typesize_pos (hsize index hindex) hne
      rw [Range.Apart, hlength, hlength] at hapart
      rw [hrange recnum index hindex, hrange recnum other hother]
      obtain hpage | hbytes := hapart
      · have hbound : ∀ n < att.preallocated, att.attrpage ≤ (att.inRecord (.value n)).page ∧
            (att.inRecord (.value n)).page ≤ att.attrpage + 1 + n :=
          fun n _ => ⟨page_le_nth, nth_page_le⟩
        have hindex' := hbound index hindex
        have hother' := hbound other hother
        have hfew : att.preallocated < 2 ^ 7 := Nat.mod_lt _ (by decide)
        refine Or.inl ?_
        dsimp only
        generalize recnum * tbdf.rectopage = block
        omega
      · exact Or.inr hbytes

theorem placeColumns_map {attrs : List AttribDef} {page' offset' : Nat}
    (hplace : placeColumns columns page offset = some (attrs, page', offset')) :
    attrs.map AttribDef.toColumn = columns := by
  induction columns generalizing page offset attrs with
  | nil =>
      obtain ⟨rfl, -⟩ := Prod.mk.inj (Option.some.inj hplace)
      rfl
  | cons column columns ih =>
      rw [placeColumns] at hplace
      cases hcolumn : placeColumn column page offset with
      | none =>
          rw [hcolumn] at hplace
          cases hplace
      | some placed =>
          obtain ⟨first, middle, start⟩ := placed
          rw [hcolumn] at hplace
          obtain ⟨rest, hrest, heq⟩ := Option.map_eq_some_iff.mp hplace
          obtain ⟨attrs', next⟩ := rest
          obtain ⟨rfl, rfl⟩ := Prod.mk.inj heq
          rw [List.map_cons, placeColumn_column hcolumn, ih hrest]

/-- The layout of a record with not more than 65536 pages. -/
structure LaidOut (tbdf : TableDescr) : Prop where
  placed : ∀ att ∈ tbdf.attrs, Placed 0 tbdf.recordsize att
  apart : tbdf.attrs.Pairwise ColumnsApart
  before : ∀ att ∈ tbdf.attrs, att.before ≤ att.attroffset
  rectopage_pos : 0 < tbdf.rectopage
  paged : tbdf.multpage = true → tbdf.recordsize ≤ BLOCKSIZE * tbdf.rectopage
  packed : tbdf.multpage = false → tbdf.recordsize ≤ BLOCKSIZE ∧
    tbdf.recordsize * tbdf.rectopage ≤ BLOCKSIZE

theorem prepare_laidOut (hprepare : prepare columns = some tbdf)
    (hfits : ∀ att ∈ tbdf.attrs, att.Fits) (hpages : tbdf.recordsize ≤ BLOCKSIZE * 2 ^ 16) :
    LaidOut tbdf := by
  obtain ⟨⟨attrs, page, offset⟩, hplace, rfl⟩ := Option.map_eq_some_iff.mp hprepare
  have hcolumns : ∀ column ∈ deletedColumn :: columns,
      column.multi = false → column.typesize ≤ BLOCKSIZE := by
    intro column hcolumn
    rw [← placeColumns_map hplace] at hcolumn
    obtain ⟨att, hatt, rfl⟩ := List.mem_map.mp hcolumn
    exact hfits att hatt
  have hsize : BLOCKSIZE * page + offset ≤
      if decide (BLOCKSIZE * page + offset < 4) then 4 else BLOCKSIZE * page + offset := by
    split
    · next hshort => exact Nat.le_of_lt (of_decide_eq_true hshort)
    · exact Nat.le_refl _
  obtain ⟨⟨hbounded, hpos, -⟩, hplaced, hapart⟩ :=
    placeColumns_placed hcolumns (Nat.zero_le _) hplace (Nat.le_trans hsize hpages)
  have hpos := hpos (Or.inr (List.cons_ne_nil _ _))
  have hbefore : ∀ att ∈ attrs, att.before ≤ att.attroffset := by
    intro att hatt
    obtain ⟨first, start, next, hcolumn⟩ := placeColumns_mem hplace hatt
    obtain ⟨_, _, -, -, -, -, hattroffset, -⟩ := placeColumn_cases (hfits att hatt) hcolumn
    rw [hattroffset]
    exact Nat.le_add_left _ _
  have hmono : ∀ att ∈ attrs, Placed 0 (if decide (BLOCKSIZE * page + offset < 4) then 4
      else BLOCKSIZE * page + offset) att :=
    fun att hatt => (hplaced att hatt).mono (Nat.le_refl 0) hsize
  have hfour : 4 ≤ BLOCKSIZE := by decide
  obtain rfl | hpage := Nat.eq_zero_or_pos page
  · rw [Nat.mul_zero, Nat.zero_add] at hmono
    have hshort : 0 < (if decide (offset < 4) then 4 else offset) ∧
        (if decide (offset < 4) then 4 else offset) ≤ BLOCKSIZE := by
      split
      · exact ⟨by decide, hfour⟩
      · exact ⟨hpos, hbounded⟩
    refine ⟨?_, hapart, hbefore, ?_, fun hmultpage => ?_, fun _ => ?_⟩
    · dsimp only
      rw [Nat.mul_zero, Nat.zero_add]
      exact hmono
    · dsimp only
      rw [if_neg (Nat.lt_irrefl 0), Nat.mul_zero, Nat.zero_add]
      exact Nat.div_pos hshort.2 hshort.1
    · exact absurd (of_decide_eq_true hmultpage) (Nat.lt_irrefl 0)
    · dsimp only
      rw [if_neg (Nat.lt_irrefl 0), Nat.mul_zero, Nat.zero_add]
      exact ⟨hshort.2, Nat.mul_div_le _ _⟩
  · have hlarge := Nat.mul_le_mul_left BLOCKSIZE (Nat.succ_le_of_lt hpage)
    have hlong : decide (BLOCKSIZE * page + offset < 4) = false :=
      decide_eq_false (Nat.not_lt.mpr (by omega))
    rw [hlong] at hmono
    refine ⟨?_, hapart, hbefore, ?_, fun _ => ?_, fun hsingle => ?_⟩
    · dsimp only
      rw [hlong]
      exact hmono
    · dsimp only
      rw [hlong, if_pos hpage, if_neg Bool.false_ne_true, if_pos hpos]
      exact Nat.succ_pos page
    · dsimp only
      rw [hlong, if_pos hpage, if_neg Bool.false_ne_true, if_neg Bool.false_ne_true, if_pos hpos,
        Nat.mul_succ]
      exact Nat.add_le_add_left hbounded _
    · exact absurd hpage (of_decide_eq_false hsingle)

theorem range_inPages {part : Part} (hmultpage : tbdf.multpage = true)
    (hsame : att.multi = true → att.SameQuotient) (hpart : att.HasPart part)
    (hblock : recnum * tbdf.rectopage + (att.inRecord part).page < 2 ^ 32) :
    tbdf.range recnum att part = inPages tbdf.rectopage recnum (att.inRecord part) := by
  cases part with
  | base =>
      have hblock : recnum * tbdf.rectopage + att.attrpage < 2 ^ 32 := hblock
      rw [TableDescr.range, TableDescr.fixAttr, TableDescr.accessColVal, if_pos hmultpage]
      dsimp only
      rw [Nat.zero_add, Nat.mod_eq_of_lt hblock]
      rfl
  | value index =>
      rw [TableDescr.range, accessIndexedColVal_eq (fun _ => hsame hpart.1) hpart.2,
        fixPrivAttrInd_eq hmultpage]
      dsimp only
      rw [Nat.mod_eq_of_lt hblock, inPages, show (att.inRecord (.value index)).length =
        att.typesize from nth_length]

theorem range_inPage {part : Part} (hmultpage : tbdf.multpage = false)
    (hbefore : att.before ≤ att.attroffset) (hpage : (att.inRecord part).page = 0) :
    tbdf.range recnum att part =
      inPage tbdf.recordsize tbdf.rectopage recnum (att.inRecord part) := by
  cases part with
  | base =>
      rw [TableDescr.range, TableDescr.fixAttr, TableDescr.accessColVal, hmultpage,
        if_neg Bool.false_ne_true, AttribDef.inRecord, inPage]
      dsimp only
      rw [Nat.add_sub_assoc hbefore]
  | value index =>
      have hfirst : index < (BLOCKSIZE - (att.attroffset + CNTRSZ)) / att.typesize := by
        by_contra hbehind
        rw [AttribDef.inRecord, nth, if_neg hbehind, Nat.add_right_comm] at hpage
        exact Nat.succ_ne_zero _ hpage
      rw [TableDescr.range, TableDescr.accessIndexedColVal, TableDescr.fixAttr,
        TableDescr.accessColVal, hmultpage, if_neg Bool.false_ne_true, AttribDef.inRecord,
        nth_first hfirst, inPage]
      dsimp only
      rw [if_neg Bool.false_ne_true, Nat.mul_comm index, Nat.add_assoc, Nat.add_assoc,
        Nat.add_assoc]

theorem inRecord_page_lt {part : Part} {size : Nat} (hplaced : Placed 0 size att)
    (hpart : att.HasPart part) {pages : Nat} (hsize : size ≤ BLOCKSIZE * pages) :
    (att.inRecord part).page < pages :=
  Range.page_lt (hplaced.inside part hpart).2
    (Nat.le_trans (hplaced.between part hpart).2 hsize)

/-- Two parts of a record lie apart in it. -/
theorem LaidOut.parts_apart {atr atr' : Nat} {att' : AttribDef} {part part' : Part}
    (hlaid : LaidOut tbdf) (hatt : tbdf.attrs[atr]? = some att) (hpart : att.HasPart part)
    (hatt' : tbdf.attrs[atr']? = some att') (hpart' : att'.HasPart part')
    (hne : (atr, part) ≠ (atr', part')) : (att.inRecord part).Apart (att'.inRecord part') := by
  have hall := List.pairwise_iff_getElem.mp hlaid.apart
  obtain ⟨hlt, heq⟩ := List.getElem?_eq_some_iff.mp hatt
  obtain ⟨hlt', heq'⟩ := List.getElem?_eq_some_iff.mp hatt'
  obtain hless | rfl | hless := Nat.lt_trichotomy atr atr'
  · have hcolumns := hall atr atr' hlt hlt' hless
    rw [heq, heq'] at hcolumns
    exact hcolumns part part' hpart hpart'
  · obtain rfl := Option.some.inj (hatt.symm.trans hatt')
    exact (hlaid.placed att (List.mem_of_getElem? hatt)).apart part part' hpart hpart'
      fun hsame => hne (by rw [hsame])
  · have hcolumns := hall atr' atr hlt' hlt hless
    rw [heq, heq'] at hcolumns
    exact (hcolumns part' part hpart' hpart).symm

theorem blockCount_inPages {recordCount : Nat} (hmultpage : tbdf.multpage = true)
    (hrecnum : recnum < recordCount) :
    tbdf.recordCount2blockCount recordCount = tbdf.rectopage * recordCount := by
  rw [TableDescr.recordCount2blockCount,
    if_neg (Nat.ne_of_gt (Nat.lt_of_le_of_lt (Nat.zero_le _) hrecnum)), if_pos hmultpage]

theorem div_lt_blockCount {recordCount : Nat} (hmultpage : tbdf.multpage = false)
    (hrecnum : recnum < recordCount) :
    recnum / tbdf.rectopage < tbdf.recordCount2blockCount recordCount := by
  rw [TableDescr.recordCount2blockCount,
    if_neg (Nat.ne_of_gt (Nat.lt_of_le_of_lt (Nat.zero_le _) hrecnum)), hmultpage,
    if_neg Bool.false_ne_true]
  exact Nat.lt_succ_of_le (Nat.div_le_div_right (Nat.le_sub_one_of_lt hrecnum))

/-- A record of several pages. -/
theorem LaidOut.multpage {recordCount : Nat} {part : Part} (hlaid : LaidOut tbdf)
    (hmultpage : tbdf.multpage = true) (hatt : att ∈ tbdf.attrs)
    (hsame : att.multi = true → att.SameQuotient)
    (hblocks : tbdf.recordCount2blockCount recordCount ≤ MAX_BLOCK_COUNT_PER_TABLE)
    (hrecnum : recnum < recordCount) (hpart : att.HasPart part) :
    tbdf.range recnum att part = inPages tbdf.rectopage recnum (att.inRecord part) ∧
      (att.inRecord part).page < tbdf.rectopage := by
  have hpage := inRecord_page_lt (hlaid.placed att hatt) hpart (hlaid.paged hmultpage)
  have hblock : recnum * tbdf.rectopage + (att.inRecord part).page <
      tbdf.rectopage * recordCount := inPages_lt hpage hrecnum
  have hmax : MAX_BLOCK_COUNT_PER_TABLE ≤ 2 ^ 32 := by decide
  rw [blockCount_inPages hmultpage hrecnum] at hblocks
  exact ⟨range_inPages hmultpage hsame hpart (by omega), hpage⟩

/-- Several records of a page. -/
theorem LaidOut.onePage {part : Part} (hlaid : LaidOut tbdf)
    (hmultpage : tbdf.multpage = false) (hatt : att ∈ tbdf.attrs) (hpart : att.HasPart part) :
    tbdf.range recnum att part =
        inPage tbdf.recordsize tbdf.rectopage recnum (att.inRecord part) ∧
      (att.inRecord part).page = 0 ∧
      (att.inRecord part).offset + (att.inRecord part).length ≤ tbdf.recordsize := by
  have hplaced := hlaid.placed att hatt
  have hpage : (att.inRecord part).page = 0 := Nat.lt_one_iff.mp
    (inRecord_page_lt hplaced hpart (by rw [Nat.mul_one]; exact (hlaid.packed hmultpage).1))
  have hstop := (hplaced.between part hpart).2
  rw [Range.stop, Range.start, hpage, Nat.mul_zero, Nat.zero_add] at hstop
  exact ⟨range_inPage hmultpage (hlaid.before att hatt) hpage, hpage, hstop⟩

/-- The table has all the columns of the records apart in its blocks. -/
theorem LaidOut.right (hlaid : LaidOut tbdf)
    (hsame : tbdf.multpage = true → ∀ att ∈ tbdf.attrs, att.multi = true → att.SameQuotient) :
    tbdf.Right := by
  refine ⟨fun recordCount hblocks recnum hrecnum att hatt part hpart => ?_,
    fun recordCount hblocks recnum hrecnum other hother atr atr' att att' part part'
      hatt hpart hatt' hpart' hne => ?_⟩
  · cases hmultpage : tbdf.multpage with
    | true =>
        obtain ⟨hrange, hpage⟩ := hlaid.multpage hmultpage hatt (hsame hmultpage att hatt) hblocks
          hrecnum hpart
        rw [hrange, blockCount_inPages hmultpage hrecnum]
        exact ⟨((hlaid.placed att hatt).inside part hpart).1, inPages_lt hpage hrecnum⟩
    | false =>
        obtain ⟨hrange, -, hin⟩ := @LaidOut.onePage att tbdf recnum part hlaid hmultpage hatt hpart
        rw [hrange]
        exact ⟨inPage_inside hlaid.rectopage_pos (hlaid.packed hmultpage).2 hin,
          div_lt_blockCount hmultpage hrecnum⟩
  · have hmem := List.mem_of_getElem? hatt
    have hmem' := List.mem_of_getElem? hatt'
    have hdiffer : recnum ≠ other ∨ (att.inRecord part).Apart (att'.inRecord part') := by
      by_cases hrecord : recnum = other
      · exact Or.inr (hlaid.parts_apart hatt hpart hatt' hpart' fun hparts =>
          hne (by rw [hrecord, hparts]))
      · exact Or.inl hrecord
    cases hmultpage : tbdf.multpage with
    | true =>
        have hsame := hsame hmultpage
        obtain ⟨hrange, hpage⟩ := hlaid.multpage hmultpage hmem (hsame att hmem) hblocks hrecnum
          hpart
        obtain ⟨hrange', hpage'⟩ := hlaid.multpage hmultpage hmem' (hsame att' hmem') hblocks
          hother hpart'
        rw [hrange, hrange']
        exact inPages_apart hpage hpage' hdiffer
    | false =>
        obtain ⟨hrange, hpage, hin⟩ :=
          @LaidOut.onePage att tbdf recnum part hlaid hmultpage hmem hpart
        obtain ⟨hrange', hpage', hin'⟩ :=
          @LaidOut.onePage att' tbdf other part' hlaid hmultpage hmem' hpart'
        rw [hrange, hrange']
        refine inPage_apart hin hin' (hdiffer.imp_right fun hapart => ?_)
        exact hapart.resolve_left fun hpages => hpages (hpage.trans hpage'.symm)

/-- A table with one record. -/
theorem blockCount_one (hpages : tbdf.rectopage ≤ 2 ^ 16 + 1) :
    tbdf.recordCount2blockCount 1 ≤ MAX_BLOCK_COUNT_PER_TABLE := by
  have hmax : 2 ^ 16 + 1 ≤ MAX_BLOCK_COUNT_PER_TABLE := by decide
  rw [TableDescr.recordCount2blockCount, if_neg Nat.one_ne_zero, Nat.mul_one]
  split
  · exact Nat.le_trans hpages hmax
  · rw [Nat.sub_self, Nat.zero_div]
    exact Nat.le_trans (by decide) hmax

theorem prepare_rectopage_le (hprepare : prepare columns = some tbdf)
    (hpages : tbdf.recordsize ≤ BLOCKSIZE * 2 ^ 16) : tbdf.rectopage ≤ 2 ^ 16 + 1 := by
  obtain ⟨⟨attrs, page, offset⟩, hplace, rfl⟩ := Option.map_eq_some_iff.mp hprepare
  have hblock : BLOCKSIZE ≤ 2 ^ 16 + 1 := by decide
  dsimp only at hpages ⊢
  have hsize : BLOCKSIZE * page ≤ BLOCKSIZE * 2 ^ 16 := by
    refine Nat.le_trans ?_ hpages
    split
    · next hshort =>
        have hshort := of_decide_eq_true hshort
        omega
    · exact Nat.le_add_right _ _
  have hpage : page ≤ 2 ^ 16 := Nat.le_of_mul_le_mul_left hsize (by decide)
  by_cases hmultpage : 0 < page
  · have hpages' : ∀ n, (if 0 < n then page + 1 else page) ≤ 2 ^ 16 + 1 := by
      intro n
      split
      · exact Nat.succ_le_succ hpage
      · exact Nat.le_succ_of_le hpage
    rw [if_pos hmultpage]
    exact hpages' _
  · rw [if_neg hmultpage]
    exact Nat.le_trans (Nat.div_le_self _ _) hblock

end Addresses

theorem integer_pos : 0 < 4 := by decide

/-- A column of 4000 characters and a multiattribute of 30 integers. -/
def wideColumns : List Column :=
  [⟨4000, 1, by decide, single_lt⟩, ⟨4, 30, integer_pos, by decide⟩]

/-- The multiattribute in the record. -/
def wideMulti : AttribDef := ⟨⟨4, 30, integer_pos, by decide⟩, 0, 4001⟩

def wideTable : TableDescr where
  attrs := [⟨deletedColumn, 0, 0⟩, ⟨⟨4000, 1, by decide, single_lt⟩, 0, 1⟩, wideMulti]
  recordsize := 4124
  multpage := true
  rectopage := 2

theorem indexRight_iff_wide : prepare wideColumns = some wideTable ∧
    wideMulti ∈ wideTable.attrs ∧ wideMulti.multi = true ∧ wideTable.multpage = true ∧
    (wideTable.IndexRight wideMulti ↔ wideMulti.SameQuotient) :=
  have hprepare : prepare wideColumns = some wideTable := by decide +kernel
  have hatt : wideMulti ∈ wideTable.attrs := List.mem_of_getElem? (i := 2) rfl
  ⟨hprepare, hatt, rfl, rfl, indexRight_iff hprepare hatt rfl rfl⟩

/-- The maintenance finds the value 23 at the start of the second page. -/
theorem not_forall_indexRight : ¬ ∀ columns tbdf, prepare columns = some tbdf →
    tbdf.multpage = true → ∀ att ∈ tbdf.attrs, att.multi = true → tbdf.IndexRight att := by
  intro hall
  have hsame := (hall wideColumns wideTable (by decide +kernel) rfl wideMulti
    (List.mem_of_getElem? (i := 2) rfl) rfl).same 0 23 (by decide)
  revert hsame
  decide

end Sql602.Records
