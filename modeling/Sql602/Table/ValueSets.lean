import Mathlib.Algebra.Group.Nat.Defs
import Sql602.Table.BipointerSymmetry

namespace Sql602.ValueSets

/-! Adding and deleting values of multiattributes, and removing the invalid ones. -/

open Table

/-- A pointer has a destination table when it is linked. -/
inductive AttrType where
  | heap
  | ptr (destination : Option Nat)
  | biptr
  | other (isNull : Nat → Bool)

/-- A value stands for its bytes, the lowest one first. A buffer has room for a value and a
terminator. `notDeleted` is the state of the records of a table. -/
structure MultiColumn where
  tables : Tables
  column : Column
  attrtype : AttrType
  size : Nat
  size_le : size ≤ 254
  notDeleted : Nat → Nat → Bool

namespace MultiColumn

variable (col : MultiColumn)

def isHeap : Bool :=
  match col.attrtype with
  | .heap => true
  | _ => false

/-- A bipointer without a linked attribute. -/
def withoutLink : Bool :=
  match col.attrtype with
  | .biptr => (biTables col.tables col.column).isNone
  | _ => false

/-- The value of a bipointer that refers to no record. -/
def isNoLink (val : Nat) : Bool :=
  match col.attrtype with
  | .biptr => val == noRecnum
  | _ => false

def link : Link :=
  match col.attrtype with
  | .biptr => Table.link col.tables col.column
  | _ => stop

/-- The number of values has 16 bits. -/
def narrow (values : Values) (recnum : Nat) : Values :=
  values.update col.column recnum
    { values col.column recnum with num := (values col.column recnum).num % 2 ^ 16 }

variable (values : Values) (recnum : Nat)

/-- The values after the call, and by how much the request pointer is advanced. There is no
result when an error is requested. -/
def tbAddValue (val : Nat) : Option (Values × Nat) :=
  if col.isHeap ∨ ¬ Multi col.tables col.column then none
  else if col.withoutLink then some (values, col.size)
  else if col.isNoLink val then some (values, 0)
  else if recnum < recs col.tables col.column then
    (insertValue col.tables col.link values col.column recnum val).map fun out =>
      (col.narrow out recnum, col.size)
  else none

/-- A value is deleted from the middle when it is not the last one. -/
def inMiddle (val : Nat) : Bool :=
  match (values col.column recnum).find val with
  | none => false
  | some index => index < (values col.column recnum).num - 1

def tbDelValue (val : Nat) : Option (Values × Nat) :=
  if col.isHeap ∨ ¬ Multi col.tables col.column then none
  else if col.withoutLink then some (values, col.size)
  else if col.isNoLink val then some (values, col.size)
  else if recnum < recs col.tables col.column then
    (removeValue col.tables col.link values col.column recnum val).map fun out =>
      (out, if col.inMiddle values recnum val then 0 else col.size)
  else none

def destination : Option Nat :=
  match col.attrtype with
  | .ptr destination => destination
  | .biptr => (biTables col.tables col.column).map Prod.fst
  | _ => none

def valid (val : Nat) : Bool :=
  match col.attrtype with
  | .heap => true
  | .ptr _ => val != noRecnum && col.destination.any fun tb => col.notDeleted tb val
  | .biptr => val != noRecnum && col.destination.any fun tb => col.notDeleted tb val
  | .other isNull => !isNull val

/-- A pointer or a bipointer that is not linked. -/
def notLinked : Bool :=
  match col.attrtype with
  | .ptr destination => destination.isNone
  | .biptr => (biTables col.tables col.column).isNone
  | _ => false

end MultiColumn

section Buffer

def valueBytes (size val : Nat) : List Nat := (List.range size).map fun k => val / 256 ^ k % 256

def ofBytes (bytes : List Nat) : Nat := bytes.foldr (fun byte rest => byte + 256 * rest) 0

/-- What `tb_read_var` reads: the values behind their size, which has four bytes. -/
def readInterval (size : Nat) (list : List Nat) : List Nat :=
  valueBytes 4 (size * list.length) ++ list.flatMap (valueBytes size)

/-- The values are looked for behind two bytes. -/
def bufferValue (size : Nat) (buf : List Nat) (i : Nat) : Nat :=
  ofBytes ((buf.drop (2 + size * i)).take size)

def setBufferValue (size : Nat) (buf : List Nat) (i val : Nat) : List Nat :=
  buf.take (2 + size * i) ++ valueBytes size val ++ buf.drop (2 + size * i + size)

end Buffer

namespace MultiColumn

variable (col : MultiColumn)

/-- An invalid value is replaced by the last one, which is then checked at the same index. -/
def removeInvalid (recnum : Nat) : Nat → Nat → Nat → List Nat → Values → Option Values
  | 0, _, _, _, values => some values
  | fuel + 1, i, num, buf, values =>
      if num ≤ i then some values
      else if col.valid (bufferValue col.size buf i) then
        removeInvalid recnum fuel (i + 1) num buf values
      else if i = num - 1 then
        (writeIndNum col.tables stop values col.column recnum (num - 1)).bind
          (removeInvalid recnum fuel i (num - 1) buf)
      else
        let last := bufferValue col.size buf (num - 1)
        (writeInd col.tables stop values col.column recnum i last).bind fun moved =>
          (writeIndNum col.tables stop moved col.column recnum (num - 1)).bind
            (removeInvalid recnum fuel i (num - 1) (setBufferValue col.size buf i last))

/-- The only value of a pointer attribute. -/
def removeInvalidSingle (values : Values) (recnum : Nat) : Option Values :=
  match col.destination with
  | none => none
  | some tb =>
      if recs col.tables col.column ≤ recnum then none
      else if col.notDeleted tb ((values col.column recnum).cells 0) then some values
      else writeAtr col.tables stop values col.column recnum noRecnum

def tbRemInval (values : Values) (recnum : Nat) : Option Values :=
  if col.isHeap then none
  else if col.notLinked then some values
  else if ¬ Multi col.tables col.column then col.removeInvalidSingle values recnum
  else if recnum < recs col.tables col.column then
    let list := (values col.column recnum).list
    col.removeInvalid recnum list.length 0 list.length (readInterval col.size list) values
  else none

end MultiColumn

inductive SetCall where
  | addValue (recnum val : Nat)
  | delValue (recnum val : Nat)
  | remInval (recnum : Nat)

namespace SetCall

def perform (col : MultiColumn) (values : Values) : SetCall → Option (Values × Nat)
  | addValue recnum val => col.tbAddValue values recnum val
  | delValue recnum val => col.tbDelValue values recnum val
  | remInval recnum => (col.tbRemInval values recnum).map fun out => (out, 0)

def recnum : SetCall → Nat
  | addValue recnum _ => recnum
  | delValue recnum _ => recnum
  | remInval recnum => recnum

/-- The values are a set, and the request pointer is advanced by the value. -/
def ActsOnSet (col : MultiColumn) (before after : List Nat) (advanced : Nat) : SetCall → Prop
  | addValue _ val => (∀ x, x ∈ after ↔ x = val ∨ x ∈ before) ∧ advanced = col.size
  | delValue _ val => (∀ x, x ∈ after ↔ x ≠ val ∧ x ∈ before) ∧ advanced = col.size
  | remInval _ => after = before.filter col.valid

end SetCall

end Sql602.ValueSets

namespace Sql602.ValueSets

open Table

variable {tables : Tables} {values linked out : Values} {c d : Column} {recnum old new val : Nat}

/-! What making a link leaves of the attribute that is written. -/

theorem deleteAntilink_other (hlinked : biTables tables d = some c) (hrecnum : recnum ≠ noRecnum)
    (hout : deleteAntilink tables d values recnum old = some out) {col : Column} {x : Nat}
    (hne : ¬ (col = d ∧ x = old)) : out col x = values col x := by
  rw [deleteAntilink] at hout
  split at hout
  · split at hout
    · rcases delValue_stop hlinked hrecnum hout with ⟨-, rfl⟩ | ⟨index, -, -, rfl⟩
      · rfl
      · exact Values.update_other hne
    · rw [writeAtr_stop hout]
      exact Values.update_other hne
  · rw [Option.some.inj hout]

/-- A value that is not in the attribute is not taken away from it. -/
theorem createAntilink_other (hlinked : biTables tables c = some d) (hmulti : Multi tables c)
    (hrecnum : recnum ≠ noRecnum) (hnot : new ∉ (values c recnum).list)
    (hout : createAntilink tables d values c recnum new = some out)
    (hne : ¬ (c = d ∧ recnum = new)) : out c recnum = values c recnum := by
  by_cases hval : new ≠ noRecnum ∧ new < recs tables d
  · obtain ⟨freed, attr, rfl, -, hfreed⟩ := createAntilink_some hlinked hval hrecnum hout
    rw [Values.update_other hne]
    obtain ⟨rfl, -⟩ | ⟨recnum3, attr3, -, hleft, rfl⟩ := hfreed
    · rfl
    · by_cases hsame : recnum3 = recnum
      · subst hsame
        rw [Values.update_same]
        cases hleft with
        | absent => rfl
        | removed _ index hlt hcell =>
            exact absurd (List.mem_map.mpr ⟨index, List.mem_range.mpr hlt, hcell⟩) hnot
        | single hsingle => exact absurd hmulti hsingle
      · exact Values.update_other fun heq => hsame heq.2.symm
  · rw [createAntilink_none hval] at hout
    rw [Option.some.inj hout]

theorem deleteAntilink_noRecnum : deleteAntilink tables d values recnum noRecnum = some values :=
  deleteAntilink_none fun h => h.1 rfl

theorem createAntilink_noRecnum :
    createAntilink tables d values c recnum noRecnum = some values :=
  createAntilink_none fun h => h.1 rfl

variable {col : MultiColumn} {values' : Values}

/-- A record of a table that is linked with itself, which is to refer to itself. -/
def MultiColumn.ownLink (col : MultiColumn) (recnum val : Nat) : Prop :=
  col.attrtype = .biptr ∧ biTables col.tables col.column = some col.column ∧ val = recnum

theorem link_add (hmulti : Multi col.tables col.column) (hrecnum : recnum ≠ noRecnum)
    (hown : ¬ col.ownLink recnum val)
    (hnot : col.attrtype = .biptr → val ∉ (values col.column recnum).list)
    (hout : col.link values col.column recnum noRecnum val = some out) :
    out col.column recnum = values col.column recnum := by
  rw [MultiColumn.link] at hout
  cases htype : col.attrtype with
  | biptr =>
      rw [htype] at hout
      cases hlinked : biTables col.tables col.column with
      | none =>
          simp only [Table.link, hlinked, stop] at hout
          rw [Option.some.inj hout]
      | some d =>
          simp only [Table.link, hlinked, biptrWrite, deleteAntilink_noRecnum,
            Option.bind_some] at hout
          apply createAntilink_other hlinked hmulti hrecnum (hnot htype) hout
          rintro ⟨hsame, rfl⟩
          exact hown ⟨htype, by rw [hlinked, ← hsame], rfl⟩
  | heap => rw [htype] at hout; rw [Option.some.inj hout]
  | ptr destination => rw [htype] at hout; rw [Option.some.inj hout]
  | other isNull => rw [htype] at hout; rw [Option.some.inj hout]

theorem link_delete (hrecnum : recnum ≠ noRecnum) (hown : ¬ col.ownLink recnum val)
    (hout : col.link values col.column recnum val noRecnum = some out) :
    out col.column recnum = values col.column recnum := by
  rw [MultiColumn.link] at hout
  cases htype : col.attrtype with
  | biptr =>
      rw [htype] at hout
      cases hlinked : biTables col.tables col.column with
      | none =>
          simp only [Table.link, hlinked, stop] at hout
          rw [Option.some.inj hout]
      | some d =>
          simp only [Table.link, hlinked, biptrWrite] at hout
          obtain ⟨deleted, hdeleted, hcreated⟩ := Option.bind_eq_some_iff.mp hout
          rw [createAntilink_noRecnum] at hcreated
          cases hcreated
          apply deleteAntilink_other (biTables_symm hlinked) hrecnum hdeleted
          rintro ⟨hsame, rfl⟩
          exact hown ⟨htype, by rw [hlinked, ← hsame], rfl⟩
  | heap => rw [htype] at hout; rw [Option.some.inj hout]
  | ptr destination => rw [htype] at hout; rw [Option.some.inj hout]
  | other isNull => rw [htype] at hout; rw [Option.some.inj hout]

/-! What the calls do with the list of the values. -/

namespace MultiColumn

theorem narrow_list {attr : Attr} (hnum : attr.num < 2 ^ 16)
    (hattr : values col.column recnum = attr) :
    (col.narrow values recnum col.column recnum).list = attr.list := by
  rw [narrow, Values.update_same, hattr, Nat.mod_eq_of_lt hnum]

theorem grow_list {attr : Attr} : (attr.grow attr.num).list = attr.list ++ [noRecnum] := by
  have hsame : (attr.grow attr.num).set attr.num noRecnum = attr.grow attr.num := by
    rw [Attr.grow, if_pos (Nat.le_refl _)]
    simp only [Attr.set, Function.update_idem]
  rw [← hsame]
  exact list_append

theorem insertValue_list (hmulti : Multi col.tables col.column) (hrecnum : recnum ≠ noRecnum)
    (hnull : col.isNoLink val = false) (hown : ¬ col.ownLink recnum val)
    (hroom : (values col.column recnum).list.length < 65535)
    (hout : insertValue col.tables col.link values col.column recnum val = some out) :
    (col.narrow out recnum col.column recnum).list =
      if val ∈ (values col.column recnum).list then (values col.column recnum).list
      else (values col.column recnum).list ++ [val] := by
  rw [Attr.list_length] at hroom
  rcases insertValue_link hout with ⟨hmem, rfl⟩ | ⟨hnot, hwritten⟩
  · rw [if_pos hmem]
    exact narrow_list (by omega) rfl
  · obtain ⟨linked, hlinked, rfl⟩ := writeInd_link hwritten
    have hcell : ((values col.column recnum).grow (values col.column recnum).num).cells
        (values col.column recnum).num = noRecnum := by
      rw [Attr.grow, if_pos (Nat.le_refl _)]
      exact Function.update_self ..
    rw [hcell] at hlinked
    have hkept := link_add hmulti hrecnum hown (fun htype => by
      rw [Values.update_same, grow_list, List.mem_append, List.mem_singleton]
      rintro (hmem | rfl)
      · exact hnot hmem
      · rw [isNoLink, htype] at hnull
        cases hnull) hlinked
    rw [Values.update_same] at hkept
    rw [if_neg hnot, ← list_append, hkept]
    apply narrow_list _ Values.update_same
    have hlength := congrArg List.length (@list_append val (values col.column recnum))
    rw [Attr.list_length, List.length_append, Attr.list_length, List.length_singleton] at hlength
    omega

theorem removeValue_list (hrecnum : recnum ≠ noRecnum) (hown : ¬ col.ownLink recnum val)
    (hout : removeValue col.tables col.link values col.column recnum val = some out) :
    (out col.column recnum).list.Perm ((values col.column recnum).list.erase val) := by
  rcases removeValue_link hout with ⟨hnot, rfl⟩ | ⟨index, hlt, rfl, linked, hlinked, hsame⟩
  · rw [List.erase_of_not_mem hnot]
  · rw [hsame (link_delete hrecnum hown hlinked), Values.update_same]
    exact Attr.removeAt_erase hlt

/-- A value that is removed makes the list shorter by one. -/
theorem removeInvalid_length {fuel i num : Nat} {buf : List Nat}
    (hnum : (values col.column recnum).num = num)
    (hout : col.removeInvalid recnum fuel i num buf values = some out) :
    (out col.column recnum).num ≤ num := by
  induction fuel generalizing i num buf values with
  | zero =>
      cases hout
      exact Nat.le_of_eq hnum
  | succ fuel ih =>
      rw [removeInvalid] at hout
      split at hout
      · cases hout
        exact Nat.le_of_eq hnum
      · next hlt =>
          split at hout
          · exact ih hnum hout
          · have hshort : num - 1 ≤ num := Nat.sub_le ..
            split at hout
            · obtain ⟨shortened, hshortened, hrest⟩ := Option.bind_eq_some_iff.mp hout
              rw [← hnum] at hshort hshortened
              rw [writeIndNum_stop hshort hshortened] at hrest
              exact Nat.le_trans (ih (by rw [Values.update_same, hnum]) hrest) (Nat.sub_le ..)
            · obtain ⟨moved, hmoved, hout⟩ := Option.bind_eq_some_iff.mp hout
              obtain ⟨shortened, hshortened, hrest⟩ := Option.bind_eq_some_iff.mp hout
              have hmovednum : (moved col.column recnum).num = num := by
                rw [writeInd_stop hmoved, Values.update_same, Attr.grow_inside (by omega), Attr.set]
                exact hnum
              rw [← hmovednum] at hshort hshortened
              rw [writeIndNum_stop hshort hshortened] at hrest
              exact Nat.le_trans (ih (by rw [Values.update_same, hmovednum]) hrest)
                (Nat.sub_le ..)

theorem tbRemInval_length (hout : col.tbRemInval values recnum = some out) :
    (out col.column recnum).list.length ≤ (values col.column recnum).list.length := by
  rw [Attr.list_length, Attr.list_length]
  rw [tbRemInval] at hout
  split at hout
  · cases hout
  · split at hout
    · cases hout
      exact Nat.le_refl _
    · split at hout
      · rw [removeInvalidSingle] at hout
        split at hout
        · cases hout
        · split at hout
          · cases hout
          · split at hout
            · cases hout
              exact Nat.le_refl _
            · rw [writeAtr_stop hout, Values.update_same, Attr.set]
      · split at hout
        · dsimp only at hout
          rw [Attr.list_length] at hout
          exact removeInvalid_length rfl hout
        · cases hout

end MultiColumn

namespace SetCall

/-- What a call does by design. A bipointer without a linked attribute and the value that
refers to no record are left alone. The last value takes the place of one that is removed. -/
def ActsOnValues (col : MultiColumn) (values : Values) (after : List Nat) (advanced : Nat) :
    SetCall → Prop
  | addValue recnum val =>
      let before := (values col.column recnum).list
      if col.withoutLink then after = before ∧ advanced = col.size
      else if col.isNoLink val then after = before
      else (before.length < 65535 → ¬ col.ownLink recnum val →
        after = if val ∈ before then before else before ++ [val]) ∧ advanced = col.size
  | delValue recnum val =>
      let before := (values col.column recnum).list
      if col.withoutLink ∨ col.isNoLink val then after = before ∧ advanced = col.size
      else (¬ col.ownLink recnum val → after.Perm (before.erase val)) ∧
        (col.inMiddle values recnum val = false → advanced = col.size)
  | remInval recnum =>
      let before := (values col.column recnum).list
      after.length ≤ before.length ∧
        (col.notLinked ∨ (Multi col.tables col.column ∧ before = []) → after = before)

theorem addValue_acts {advanced : Nat}
    (hout : (addValue recnum val).perform col values = some (out, advanced)) :
    (addValue recnum val).ActsOnValues col values (out col.column recnum).list advanced := by
  rw [perform, MultiColumn.tbAddValue] at hout
  rw [ActsOnValues]
  split at hout
  · cases hout
  · next hchecked =>
      rw [not_or, not_not] at hchecked
      split at hout
      · next hnone =>
          cases hout
          rw [if_pos hnone]
          exact ⟨rfl, rfl⟩
      · next hlink =>
          rw [if_neg hlink]
          split at hout
          · next hnull =>
              cases hout
              rw [if_pos hnull]
          · next hnull =>
              rw [if_neg hnull]
              split at hout
              · next hrecnum =>
                  obtain ⟨mid, hmid, heq⟩ := Option.map_eq_some_iff.mp hout
                  cases heq
                  refine ⟨fun hroom hown => ?_, rfl⟩
                  exact MultiColumn.insertValue_list hchecked.2 (ne_of_lt_recs hrecnum)
                    (Bool.eq_false_iff.mpr hnull) hown hroom hmid
              · cases hout

theorem delValue_acts {advanced : Nat}
    (hout : (delValue recnum val).perform col values = some (out, advanced)) :
    (delValue recnum val).ActsOnValues col values (out col.column recnum).list advanced := by
  rw [perform, MultiColumn.tbDelValue] at hout
  rw [ActsOnValues]
  split at hout
  · cases hout
  · split at hout
    · next hnone =>
        cases hout
        rw [if_pos (Or.inl hnone)]
        exact ⟨rfl, rfl⟩
    · next hlink =>
        split at hout
        · next hnull =>
            cases hout
            rw [if_pos (Or.inr hnull)]
            exact ⟨rfl, rfl⟩
        · next hnull =>
            rw [if_neg (not_or.mpr ⟨hlink, hnull⟩)]
            split at hout
            · next hrecnum =>
                obtain ⟨mid, hmid, heq⟩ := Option.map_eq_some_iff.mp hout
                cases heq
                constructor
                · exact fun hown =>
                    MultiColumn.removeValue_list (ne_of_lt_recs hrecnum) hown hmid
                · intro hlast
                  rw [hlast, if_neg Bool.false_ne_true]
            · cases hout

theorem remInval_acts {advanced : Nat}
    (hout : (remInval recnum).perform col values = some (out, advanced)) :
    (remInval recnum).ActsOnValues col values (out col.column recnum).list advanced := by
  obtain ⟨mid, hmid, heq⟩ := Option.map_eq_some_iff.mp hout
  cases heq
  refine ⟨MultiColumn.tbRemInval_length hmid, ?_⟩
  rw [MultiColumn.tbRemInval] at hmid
  split at hmid
  · cases hmid
  · split at hmid
    · cases hmid
      exact fun _ => rfl
    · next hlink =>
        rintro (hnot | ⟨hmulti, hempty⟩)
        · exact absurd hnot hlink
        · rw [if_neg (not_not.mpr hmulti)] at hmid
          split at hmid
          · rw [hempty] at hmid
            cases hmid
            rfl
          · cases hmid

theorem perform_acts {call : SetCall} {advanced : Nat}
    (hout : call.perform col values = some (out, advanced)) :
    call.ActsOnValues col values (out col.column call.recnum).list advanced := by
  cases call with
  | addValue recnum val => exact addValue_acts hout
  | delValue recnum val => exact delValue_acts hout
  | remInval recnum => exact remInval_acts hout

end SetCall

/-- Every call of a sequence in which no error is requested is right. -/
def EveryCall (col : MultiColumn)
    (right : Values → SetCall → Values → Nat → Prop) : Values → List SetCall → Prop
  | _, [] => True
  | values, call :: calls =>
      match call.perform col values with
      | none => EveryCall col right values calls
      | some (out, advanced) => right values call out advanced ∧ EveryCall col right out calls

theorem everyCall_of_right {right : Values → SetCall → Values → Nat → Prop}
    (hright : ∀ values call out advanced, call.perform col values = some (out, advanced) →
      right values call out advanced) (values : Values) (calls : List SetCall) :
    EveryCall col right values calls := by
  induction calls generalizing values with
  | nil => trivial
  | cons call calls ih =>
      rw [EveryCall]
      cases hout : call.perform col values with
      | none => exact ih values
      | some result => exact ⟨hright values call result.1 result.2 hout, ih result.1⟩

theorem two_le_noRecnum : 2 ≤ noRecnum := by decide

/-- The tables of the column do not have an attribute that refers back. -/
def unlinkedColumn : MultiColumn where
  tables := fun tb =>
    { attrs := if tb = 0 then [⟨none, 1⟩, ⟨some 1, 130⟩] else [⟨none, 1⟩]
      recnum := 2
      recnum_le := two_le_noRecnum
      system := fun att hatt => by
        split at hatt
        · cases hatt
          rfl
        · cases hatt
          rfl }
  column := (0, 1)
  attrtype := .biptr
  size := 4
  size_le := by decide
  notDeleted := fun _ _ => true

end Sql602.ValueSets
