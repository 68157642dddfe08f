import Mathlib.Algebra.Group.Nat.Defs
import Mathlib.Data.List.Basic

namespace Sql602.Table

/-! Bipointers. A bipointer attribute refers to records of its destination table,
and the attribute of that table which is linked with it refers back. -/

/-- The number that stands for no record. -/
def noRecnum : Nat := 2 ^ 32 - 1

/-- `destination` is the table that a bipointer refers to. The low seven bits of
`attrmult` count the values in the record, the high bit allows more of them. -/
structure AttribDef where
  destination : Option Nat
  attrmult : Nat

/-- The attribute 0 of a table is not one of the user's. -/
structure TableDescr where
  attrs : List AttribDef
  recnum : Nat
  recnum_le : recnum ≤ noRecnum
  system : ∀ att, attrs[0]? = some att → att.destination = none

abbrev Tables := Nat → TableDescr

/-- A table and the number of an attribute in it. -/
abbrev Column := Nat × Nat

/-- The values of an attribute of a record. The cells from `num` on are not valid,
but they keep what was written to them. -/
structure Attr where
  cells : Nat → Nat
  num : Nat

abbrev Values := Column → Nat → Attr

def TableDescr.isBiptr (td : TableDescr) (destination i : Nat) : Bool :=
  match td.attrs[i]? with
  | none => false
  | some att => att.destination == some destination

/-- The bipointers to a table before an attribute. -/
def TableDescr.biptrs (td : TableDescr) (destination attrcnt : Nat) : List Nat :=
  (List.range' 1 (attrcnt - 1)).filter (td.isBiptr destination)

/-- The linked attribute has the same position among the bipointers back. -/
def biTables (tables : Tables) (c : Column) : Option Column :=
  match (tables c.1).attrs[c.2]? with
  | none => none
  | some att =>
      match att.destination with
      | none => none
      | some tb2 =>
          let ord := ((tables c.1).biptrs tb2 c.2).length
          ((tables tb2).biptrs c.1 (tables tb2).attrs.length)[ord]?.map fun attr2 => (tb2, attr2)

section Access

variable (tables : Tables)

def attrmult (c : Column) : Nat :=
  match (tables c.1).attrs[c.2]? with
  | none => 0
  | some att => att.attrmult

def Multi (c : Column) : Prop := 1 < attrmult tables c

instance (c : Column) : Decidable (Multi tables c) := inferInstanceAs (Decidable (_ < _))

def recs (c : Column) : Nat := (tables c.1).recnum

/-- An attribute with values of a fixed count has no room behind them. -/
def Fits (c : Column) (index : Nat) : Prop :=
  index < attrmult tables c % 128 ∨ 128 ≤ attrmult tables c

instance (c : Column) (index : Nat) : Decidable (Fits tables c index) :=
  inferInstanceAs (Decidable (_ ∨ _))

end Access

namespace Attr

def set (attr : Attr) (index value : Nat) : Attr :=
  { attr with cells := Function.update attr.cells index value }

def read (attr : Attr) (index : Nat) : Nat :=
  if index < attr.num then attr.cells index else noRecnum

/-- A new value has no contents yet. -/
def grow (attr : Attr) (index : Nat) : Attr :=
  if attr.num ≤ index then { cells := Function.update attr.cells index noRecnum, num := index + 1 }
  else attr

def find (attr : Attr) (value : Nat) : Option Nat :=
  (List.range attr.num).find? fun index => attr.cells index = value

end Attr

def Values.update (values : Values) (c : Column) (recnum : Nat) (attr : Attr) : Values :=
  fun c' recnum' => if c' = c ∧ recnum' = recnum then attr else values c' recnum'

/-- What a write does with the links: the column, the record, the old value and the
new one. There is no result when an error is requested. -/
abbrev Link := Values → Column → Nat → Nat → Nat → Option Values

/-- `KFL_BI_STOP`. -/
def stop : Link := fun values _ _ _ _ => some values

section Write

variable (tables : Tables) (biptr : Link) (values : Values) (c : Column) (recnum : Nat)

def writeAtr (ptr : Nat) : Option Values :=
  if recnum < recs tables c then
    (biptr values c recnum ((values c recnum).cells 0) ptr).map fun linked =>
      linked.update c recnum ((linked c recnum).set 0 ptr)
  else none

def writeInd (index ptr : Nat) : Option Values :=
  if recnum < recs tables c ∧ Multi tables c ∧ Fits tables c index then
    let fixed := values.update c recnum ((values c recnum).grow index)
    (biptr fixed c recnum ((fixed c recnum).cells index) ptr).map fun linked =>
      linked.update c recnum ((linked c recnum).set index ptr)
  else none

/-- The links of the values from `index` on are removed. -/
def unlinkFrom : Nat → Nat → Values → Option Values
  | 0, _, values => some values
  | count + 1, index, values =>
      (biptr values c recnum ((values c recnum).cells index) noRecnum).bind
        (unlinkFrom count (index + 1))

def writeIndNum (num : Nat) : Option Values :=
  if recnum < recs tables c then
    if (values c recnum).num ≤ num then some values
    else
      (unlinkFrom biptr c recnum ((values c recnum).num - num) num values).map fun unlinked =>
        unlinked.update c recnum { unlinked c recnum with num := num }
  else none

def addValue (val : Nat) : Option Values :=
  if (biTables tables c).isNone then some values
  else if val = noRecnum then some values
  else
    match (values c recnum).find val with
    | some _ => some values
    | none => writeInd tables biptr values c recnum (values c recnum).num val

/-- A value in the middle is replaced by the last one. -/
def delValue (val : Nat) : Option Values :=
  if (biTables tables c).isNone then some values
  else if val = noRecnum then some values
  else
    match (values c recnum).find val with
    | none => some values
    | some index =>
        let num := (values c recnum).num - 1
        if index < num then
          (writeInd tables biptr values c recnum index noRecnum).bind fun cleared =>
            (writeInd tables stop cleared c recnum index ((cleared c recnum).read num)).bind
              fun moved => writeIndNum tables stop moved c recnum num
        else writeIndNum tables biptr values c recnum num

end Write

section Links

variable (tables : Tables)

/-- The value that refers back is removed. -/
def deleteAntilink (d : Column) (values : Values) (recnum oldval : Nat) : Option Values :=
  if oldval ≠ noRecnum ∧ oldval < recs tables d then
    if Multi tables d then delValue tables stop values d oldval recnum
    else writeAtr tables stop values d oldval noRecnum
  else some values

/-- A single value that refers to another record is taken away from that record. -/
def createAntilink (d : Column) (values : Values) (c : Column) (recnum newval : Nat) :
    Option Values :=
  if newval ≠ noRecnum ∧ newval < recs tables d then
    if Multi tables d then addValue tables stop values d newval recnum
    else
      let recnum3 := (values d newval).cells 0
      let freed :=
        if recnum3 ≠ noRecnum ∧ recnum3 < recs tables c then
          if Multi tables c then delValue tables stop values c recnum3 newval
          else writeAtr tables stop values c recnum3 noRecnum
        else some values
      freed.bind fun freed => writeAtr tables stop freed d newval recnum
  else some values

def biptrWrite (d : Column) : Link := fun values c recnum oldval newval =>
  (deleteAntilink tables d values recnum oldval).bind fun deleted =>
    createAntilink tables d deleted c recnum newval

/-- Without a linked attribute the values are written as others are. -/
def link (c : Column) : Link :=
  match biTables tables c with
  | none => stop
  | some d => biptrWrite tables d

def tbWriteAtr (values : Values) (c : Column) (recnum ptr : Nat) : Option Values :=
  if Multi tables c then none else writeAtr tables (link tables c) values c recnum ptr

def tbWriteInd (values : Values) (c : Column) (recnum index ptr : Nat) : Option Values :=
  writeInd tables (link tables c) values c recnum index ptr

def tbAddValue (values : Values) (c : Column) (recnum val : Nat) : Option Values :=
  if recnum < recs tables c ∧ Multi tables c then
    addValue tables (link tables c) values c recnum val
  else none

def tbDelValue (values : Values) (c : Column) (recnum val : Nat) : Option Values :=
  if recnum < recs tables c ∧ Multi tables c then
    delValue tables (link tables c) values c recnum val
  else none

end Links

end Sql602.Table
