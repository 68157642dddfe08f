import Mathlib.Algebra.Group.Nat.Defs
import Mathlib.Data.List.Basic
import Sql602.Library.Pages

namespace Sql602.Records

open Pages

/-! The columns in a record of a table, and the addresses of their values. -/

def BLOCKSIZE : Nat := 4096

/-- The size of the counter of values. -/
def CNTRSZ : Nat := 2

/-- The size of a heap piece. -/
def PIECESIZE : Nat := 6

/-- A type with its size, and the number of values in the basic record with the flag of
further values on the heap. -/
structure Column where
  typesize : Nat
  attrmult : Nat
  typesize_pos : 0 < typesize
  attrmult_lt : attrmult < 2 ^ 8

theorem Column.same_iff {column other : Column} :
    column.typesize = other.typesize ∧ column.attrmult = other.attrmult ↔ column = other := by
  cases column
  cases other
  simp only [Column.mk.injEq]

instance (column other : Column) : Decidable (column = other) :=
  decidable_of_iff _ Column.same_iff

namespace Column

variable (column : Column)

def multi : Bool := decide (column.attrmult ≠ 1)

def expandable : Bool := decide (2 ^ 7 ≤ column.attrmult)

def preallocated : Nat := column.attrmult % 2 ^ 7

/-- The allocation size before the offset of the column. -/
def before : Nat := if column.multi && column.expandable then PIECESIZE else 0

def in1stpage : Nat := if column.multi then CNTRSZ + column.before else column.typesize

end Column

theorem single_lt : 1 < 2 ^ 8 := by decide

/-- The column DELETED, the first one of every table. -/
def deletedColumn : Column := ⟨1, 1, Nat.one_pos, single_lt⟩

structure AttribDef extends Column where
  attrpage : Nat
  attroffset : Nat
  deriving DecidableEq

/-- The page and the offset behind the values of a multiattribute. -/
def placeValues (valsize : Nat) : Nat → Nat → Nat → Nat → Option (Nat × Nat)
  | 0, _, _, _ => none
  | fuel + 1, page, offset, ind =>
      let loc := (BLOCKSIZE - offset) / valsize
      if ind ≤ loc then some (page, offset + valsize * ind)
      else placeValues valsize fuel (page + 1) 0 (ind - loc)

/-- The number of the page has 16 bits in the description of the column. -/
def placeColumn (column : Column) (page offset : Nat) : Option (AttribDef × Nat × Nat) :=
  let next := decide (BLOCKSIZE < offset + column.in1stpage)
  let page := if next then page + 1 else page
  let offset := if next then 0 else offset
  let att : AttribDef :=
    ⟨column, page % 2 ^ 16, (offset + column.before) % 2 ^ 16⟩
  if column.multi then
    (placeValues column.typesize (column.preallocated + 2) page (offset + column.in1stpage)
      column.preallocated).map fun pos => (att, pos)
  else some (att, page, offset + column.in1stpage)

def placeColumns : List Column → Nat → Nat → Option (List AttribDef × Nat × Nat)
  | [], page, offset => some ([], page, offset)
  | column :: columns, page, offset =>
      match placeColumn column page offset with
      | none => none
      | some (att, page, offset) =>
          (placeColumns columns page offset).map fun placed => (att :: placed.1, placed.2)

structure TableDescr where
  attrs : List AttribDef
  recordsize : Nat
  multpage : Bool
  /-- The pages of a record, or the records of a page. -/
  rectopage : Nat
  deriving DecidableEq

/-- There is no description if the values of a column do not fit any page: the loop does not
end then. -/
def prepare (columns : List Column) : Option TableDescr :=
  (placeColumns (deletedColumn :: columns) 0 0).map fun (attrs, page, offset) =>
    let short := decide (BLOCKSIZE * page + offset < 4)
    let recordsize := if short then 4 else BLOCKSIZE * page + offset
    let offset := if short then 4 else offset
    { attrs := attrs
      recordsize := recordsize
      multpage := decide (0 < page)
      rectopage := if 0 < page then if 0 < offset then page + 1 else page
        else BLOCKSIZE / offset }

/-- The blocks for the numbers of blocks in the basic block of a table. -/
def MAX_BLOCK_COUNT_PER_TABLE : Nat := (BLOCKSIZE - 116 + 4) / 4 * (BLOCKSIZE / 4)

namespace TableDescr

variable (tbdf : TableDescr)

def recordCount2blockCount (recordCount : Nat) : Nat :=
  if recordCount = 0 then 0
  else if tbdf.multpage then tbdf.rectopage * recordCount
  else (recordCount - 1) / tbdf.rectopage + 1

/-- The number of the block in the table and the start of the record in it. -/
def accessColVal (recnum colPage : Nat) : Nat × Nat :=
  if tbdf.multpage then ((recnum * tbdf.rectopage + colPage) % 2 ^ 32, 0)
  else (recnum / tbdf.rectopage, tbdf.recordsize * (recnum % tbdf.rectopage))

/-- The block and the offset of a column. -/
def fixAttr (recnum : Nat) (att : AttribDef) : Nat × Nat :=
  let (blnum, chstart) := tbdf.accessColVal recnum att.attrpage
  (blnum, chstart + att.attroffset)

/-- The number of values in the first page is (BLOCKSIZE-attroffset+CNTRSZ) / as here. -/
def accessIndexedColVal (recnum : Nat) (att : AttribDef) (index : Nat) : Nat × Nat :=
  let (block, dt) := tbdf.fixAttr recnum att
  let as := att.typesize
  if tbdf.multpage then
    let p1 := (BLOCKSIZE - att.attroffset + CNTRSZ) / as
    if index < p1 then (block, dt + CNTRSZ + index * as)
    else
      let index := index - p1
      let p1 := BLOCKSIZE / as
      ((recnum * tbdf.rectopage + att.attrpage + (index / p1 + 1)) % 2 ^ 32, as * (index % p1))
  else (block, dt + CNTRSZ + index * as)

def fixPrivAttr (recnum : Nat) (att : AttribDef) : Nat × Nat :=
  if tbdf.multpage then ((recnum * tbdf.rectopage + att.attrpage) % 2 ^ 32, att.attroffset)
  else
    (recnum / tbdf.rectopage,
      tbdf.recordsize * (recnum % tbdf.rectopage) + att.attroffset)

/-- The maintenance of the database. -/
def fixPrivAttrInd (recnum : Nat) (att : AttribDef) (index : Nat) : Nat × Nat :=
  let (block, dt) := tbdf.fixPrivAttr recnum att
  let as := att.typesize
  if tbdf.multpage then
    let offs := att.attroffset + CNTRSZ
    let p1 := (BLOCKSIZE - offs) / as
    if index < p1 then (block, dt + CNTRSZ + index * as)
    else
      let index := index - p1
      let p1 := BLOCKSIZE / as
      ((recnum * tbdf.rectopage + att.attrpage + (index / p1 + 1)) % 2 ^ 32, as * (index % p1))
  else (block, dt + CNTRSZ + index * as)

end TableDescr

/-- A column has its value, or the counter of its values with the heap piece, and the
preallocated values. -/
inductive Part where
  | base
  | value (index : Nat)
  deriving DecidableEq

def AttribDef.HasPart (att : AttribDef) : Part → Prop
  | .base => True
  | .value index => att.multi = true ∧ index < att.preallocated

namespace TableDescr

variable (tbdf : TableDescr)

/-- The bytes of a part of a column in the blocks of the table. -/
def range (recnum : Nat) (att : AttribDef) : Part → Range
  | .base =>
      let (block, dt) := tbdf.fixAttr recnum att
      ⟨block, dt - att.before, att.in1stpage⟩
  | .value index =>
      let (block, offs) := tbdf.accessIndexedColVal recnum att index
      ⟨block, offs, att.typesize⟩

/-- The values of every column of every record are in one block of the table, and two of them
have no common bytes. The first column is the deletion mark. -/
structure Right : Prop where
  inside : ∀ recordCount,
    tbdf.recordCount2blockCount recordCount ≤ MAX_BLOCK_COUNT_PER_TABLE →
    ∀ recnum < recordCount, ∀ att ∈ tbdf.attrs, ∀ part, att.HasPart part →
      (tbdf.range recnum att part).Inside BLOCKSIZE ∧
        (tbdf.range recnum att part).page < tbdf.recordCount2blockCount recordCount
  apart : ∀ recordCount,
    tbdf.recordCount2blockCount recordCount ≤ MAX_BLOCK_COUNT_PER_TABLE →
    ∀ recnum < recordCount, ∀ other < recordCount,
    ∀ (atr atr' : Nat) (att att' : AttribDef) (part part' : Part),
      tbdf.attrs[atr]? = some att → att.HasPart part →
      tbdf.attrs[atr']? = some att' → att'.HasPart part' →
      (recnum, atr, part) ≠ (other, atr', part') →
      (tbdf.range recnum att part).Apart (tbdf.range other att' part')

/-- The readers and the maintenance find every preallocated value in one place in a block,
and two values have no common bytes. -/
structure IndexRight (att : AttribDef) : Prop where
  same : ∀ recnum, ∀ index < att.preallocated,
    tbdf.accessIndexedColVal recnum att index = tbdf.fixPrivAttrInd recnum att index
  inside : ∀ recnum, ∀ index < att.preallocated,
    (tbdf.range recnum att (.value index)).Inside BLOCKSIZE
  apart : ∀ recnum, ∀ index < att.preallocated, ∀ other < att.preallocated, index ≠ other →
    (tbdf.range recnum att (.value index)).Apart (tbdf.range recnum att (.value other))

end TableDescr

/-- All preallocated values are in the first page, or the wrong sign does not change the number
of the values in it. -/
def AttribDef.SameQuotient (att : AttribDef) : Prop :=
  att.preallocated ≤ (BLOCKSIZE - (att.attroffset + CNTRSZ)) / att.typesize ∨
    (BLOCKSIZE - att.attroffset + CNTRSZ) / att.typesize =
      (BLOCKSIZE - (att.attroffset + CNTRSZ)) / att.typesize

/-- The value of a column that is not a multiattribute fits a page. -/
def AttribDef.Fits (att : AttribDef) : Prop := att.multi = false → att.typesize ≤ BLOCKSIZE

end Sql602.Records
