import Mathlib.Data.Nat.Bitwise
import Sql602.Rights.PrivilCache
import Sql602.Library.Slots

namespace Sql602.Rights

/-! Maps of privileges: a byte of global rights, then two bits for each column. -/

def RIGHT_READ : UInt8 := 0x01
def RIGHT_WRITE : UInt8 := 0x02
def RIGHT_INSERT : UInt8 := 0x04
def RIGHT_DEL : UInt8 := 0x08
def RIGHT_NEW_READ : UInt8 := 0x10
def RIGHT_NEW_WRITE : UInt8 := 0x20
def RIGHT_NEW_DEL : UInt8 := 0x40
def RIGHT_GRANT : UInt8 := 0x80

inductive ColumnRight where
  | read
  | write
  deriving DecidableEq

namespace ColumnRight

/-- The bit in the pair that a column has. -/
def offset : ColumnRight → Nat
  | read => 0
  | write => 1

/-- The global right that stands for all the columns. -/
def derived : ColumnRight → UInt8
  | read => RIGHT_READ
  | write => RIGHT_WRITE

end ColumnRight

def bitMask (bit : Nat) : UInt8 := UInt8.ofNat (1 <<< bit)

def columnByte (column : Nat) : Nat := 1 + (column - 1) / 4

def columnBit (right : ColumnRight) (column : Nat) : Nat :=
  2 * ((column - 1) % 4) + right.offset

def hasBit (map : List UInt8) (pos bit : Nat) : Bool := map.getD pos 0 &&& bitMask bit != 0

/-- The own bit of the column. -/
def hasOwn (right : ColumnRight) (map : List UInt8) (column : Nat) : Bool :=
  hasBit map (columnByte column) (columnBit right column)

def hasRight (right : ColumnRight) (map : List UInt8) (column : Nat) : Bool :=
  map.getD 0 0 &&& right.derived != 0 || hasOwn right map column

def addRight (right : ColumnRight) (map : List UInt8) (column : Nat) : List UInt8 :=
  map.modify (columnByte column) (· ||| bitMask (columnBit right column))

def hasRead : List UInt8 → Nat → Bool := hasRight .read
def hasWrite : List UInt8 → Nat → Bool := hasRight .write
def addRead : List UInt8 → Nat → List UInt8 := addRight .read
def addWrite : List UInt8 → Nat → List UInt8 := addRight .write

/-! Bits. -/

section Bits

variable {map : List UInt8} {right right' : ColumnRight} {column column' pos bit : Nat}

theorem columnBit_lt : columnBit right column < 8 := by
  have hmod : (column - 1) % 4 < 4 := Nat.mod_lt _ (by decide)
  cases right with
  | read => exact Nat.lt_of_lt_of_le (Nat.mul_lt_mul_of_pos_left hmod (by decide)) (by decide)
  | write =>
      simp only [columnBit, ColumnRight.offset]
      omega

theorem and_bitMask {byte : UInt8} (hbit : bit < 8) :
    (byte &&& bitMask bit != 0) = byte.toNat.testBit bit := by
  have hmask : (bitMask bit).toNat = 2 ^ bit := by
    rw [bitMask, UInt8.toNat_ofNat', Nat.one_shiftLeft,
      Nat.mod_eq_of_lt (Nat.pow_lt_pow_right (by decide) hbit)]
  have hzero : (byte &&& bitMask bit = 0) ↔ byte.toNat.testBit bit = false := by
    rw [← UInt8.toNat_inj, UInt8.toNat_and, hmask, Nat.and_two_pow]
    cases byte.toNat.testBit bit with
    | false => simp
    | true => simp
  rw [Bool.eq_iff_iff, bne_iff_ne, ne_eq, hzero, Bool.not_eq_false]

theorem hasBit_eq (hbit : bit < 8) : hasBit map pos bit = (map.getD pos 0).toNat.testBit bit :=
  and_bitMask hbit

theorem bitMask_testBit (hbit : bit < 8) (other : Nat) :
    (bitMask bit).toNat.testBit other = decide (bit = other) := by
  rw [bitMask, UInt8.toNat_ofNat', Nat.one_shiftLeft,
    Nat.mod_eq_of_lt (Nat.pow_lt_pow_right (by decide) hbit), Nat.testBit_two_pow]

/-- Two columns or rights do not share a bit. -/
theorem column_inj (hcolumn : 1 ≤ column) (hcolumn' : 1 ≤ column') :
    columnByte column = columnByte column' ∧ columnBit right column = columnBit right' column' ↔
      column = column' ∧ right = right' := by
  constructor
  · rintro ⟨hbyte, hbit⟩
    unfold columnByte at hbyte
    cases right <;> cases right' <;> simp only [columnBit, ColumnRight.offset] at hbit
    · exact ⟨by omega, rfl⟩
    · omega
    · omega
    · exact ⟨by omega, rfl⟩
  · rintro ⟨rfl, rfl⟩
    exact ⟨rfl, rfl⟩

theorem addRight_length : (addRight right map column).length = map.length :=
  List.length_modify _ _ _

theorem getD_addRight (hpos : columnByte column < map.length) :
    (addRight right map column).getD pos 0 =
      if columnByte column = pos then map.getD pos 0 ||| bitMask (columnBit right column)
      else map.getD pos 0 := by
  simp only [addRight, List.getD_eq_getElem?_getD, List.getElem?_modify]
  split
  case isTrue heq =>
    subst heq
    simp [List.getElem?_eq_getElem hpos]
  case isFalse => simp

theorem hasOwn_addRight (hcolumn : 1 ≤ column) (hcolumn' : 1 ≤ column')
    (hpos : columnByte column < map.length) :
    hasOwn right' (addRight right map column) column' =
      (hasOwn right' map column' || decide (column = column' ∧ right = right')) := by
  rw [hasOwn, hasOwn, hasBit_eq columnBit_lt, hasBit_eq columnBit_lt, getD_addRight hpos]
  split
  case isTrue hbyte =>
    rw [UInt8.toNat_or, Nat.testBit_or, bitMask_testBit columnBit_lt]
    apply congrArg
    apply decide_eq_decide.mpr
    rw [← column_inj hcolumn hcolumn', hbyte]
    exact ⟨fun h => ⟨rfl, h⟩, And.right⟩
  case isFalse hbyte =>
    have hother : ¬ (column = column' ∧ right = right') := by
      rw [← column_inj hcolumn hcolumn']
      exact fun h => hbyte h.1
    simp only [hother, decide_false, Bool.or_false]

/-- The global rights do not change with a column. -/
theorem head_addRight : (addRight right map column).getD 0 0 = map.getD 0 0 := by
  cases map with
  | nil => simp [addRight]
  | cons first rest => simp [addRight, columnByte, Nat.add_comm 1]

theorem columnByte_lt {attrcnt : Nat} (hcolumn : column < attrcnt) :
    columnByte column < privilDescrSize attrcnt := by
  unfold columnByte privilDescrSize
  omega

end Bits

end Sql602.Rights

namespace Sql602.Rights

/-! The own privileges of a subject in the list of a table or a record. -/

/-- The user of the privileges, without the groups and roles. -/
structure Subject where
  isDbAdmin : Bool
  uuid : List UInt8

def findUuidPos (privDef uuid : List UInt8) (step : Nat) : Option Nat :=
  if privDef = [] then none
  else
    Slots.scan step (fun slot => slot.take UUID_SIZE == uuid) privDef privDef.length 1

def clearMap (descrSize : Nat) : List UInt8 := List.replicate descrSize 0

/-- The map in the list; a subject that is not found has none of the privileges. -/
def mapInList (descrSize : Nat) (uuid privDef : List UInt8) : List UInt8 :=
  match findUuidPos privDef uuid (UUID_SIZE + descrSize) with
  | none => clearMap descrSize
  | some pos => (privDef.drop (pos + UUID_SIZE)).take descrSize

/-- The list of a table or a record; it is absent when it cannot be loaded. -/
def PrivilDefs.listOf (defs : PrivilDefs) (tb rec : UInt32) : Option (List UInt8) :=
  if rec = NORECNUM then defs.globalDef tb else defs.recordDef tb rec

def hasLocation (defs : PrivilDefs) (tb rec : UInt32) : Bool :=
  rec == NORECNUM || defs.recPrivils tb

def dbAdminMap (descrSize : Nat) : List UInt8 :=
  (RIGHT_INSERT ||| RIGHT_DEL ||| RIGHT_GRANT ||| RIGHT_READ ||| RIGHT_WRITE) ::
    List.replicate (descrSize - 1) 0xff

/-- Whether there is an error, and the map. -/
def getOwnPrivils (defs : PrivilDefs) (subject : Subject) (tb rec : UInt32) :
    Bool × List UInt8 :=
  let descrSize := defs.descrSize tb
  if subject.isDbAdmin then (false, dbAdminMap descrSize)
  else if hasLocation defs tb rec = false then (true, clearMap descrSize)
  else
    match defs.listOf tb rec with
    | none => (false, clearMap descrSize)
    | some [] => (false, clearMap descrSize)
    | some privDef => (false, mapInList descrSize subject.uuid privDef)

/-- The characters are those of the prefix "_W5_". -/
def isSystemColumn (name : List UInt8) : Bool := name.take 4 == [95, 87, 53, 95]

/-- Whether the right is on all the columns of the user. -/
def onAllColumns (right : ColumnRight) (names : List (List UInt8)) (map : List UInt8) : Bool :=
  (List.range' 1 (names.length - 1)).all fun i =>
    isSystemColumn (names.getD i []) || hasRight right map i

def setHead (map : List UInt8) (first : UInt8 → UInt8) : List UInt8 := map.modify 0 first

/-- The global rights of a record are ignored. -/
def recordMask (rec : UInt32) (map : List UInt8) : List UInt8 :=
  if rec = NORECNUM then map
  else setHead map (· &&& (RIGHT_GRANT ||| RIGHT_DEL ||| RIGHT_READ ||| RIGHT_WRITE))

def derivePrivils (names : List (List UInt8)) (map : List UInt8) : List UInt8 :=
  let map := setHead map (· &&& ~~~ (RIGHT_READ ||| RIGHT_WRITE))
  let allRead := onAllColumns .read names map
  let allWrite := onAllColumns .write names map
  let map := if allRead then setHead map (· ||| RIGHT_READ) else map
  if allWrite then setHead map (· ||| RIGHT_WRITE) else map

/-- Which of the inner operations fail; the items of `fill` come into a gap before a write. -/
structure Failures where
  lock : Bool
  load : Bool
  firstByte : Bool
  uuid : Bool
  map : Bool
  fill : Nat → UInt8

def writeUnless (failed : Bool) (failures : Failures) (privDef : List UInt8) (pos : Nat)
    (data : List UInt8) : List UInt8 :=
  if failed then privDef else Slots.write failures.fill privDef pos data

def PrivilDefs.setList (defs : PrivilDefs) (tb rec : UInt32) (privDef : List UInt8) :
    PrivilDefs :=
  if rec = NORECNUM then
    { defs with globalDef := Function.update defs.globalDef tb (some privDef) }
  else
    let lists := Function.update (defs.recordDef tb) rec (some privDef)
    { defs with recordDef := Function.update defs.recordDef tb lists }

/-- The two writes of an entry. Only the result of the second one is returned. -/
def writeEntry (failures : Failures) (privDef : List UInt8) (wrPos : Nat)
    (uuid map : List UInt8) : Bool × List UInt8 :=
  let privDef := writeUnless failures.uuid failures privDef wrPos uuid
  (failures.map, writeUnless failures.map failures privDef (wrPos + UUID_SIZE) map)

/-- Whether there is an error, and the list that is stored then. A list that cannot be loaded
is taken for an empty one. -/
def setInList (failures : Failures) (descrSize : Nat) (uuid map privDef : List UInt8) :
    Bool × List UInt8 :=
  if failures.load ∨ privDef = [] then
    if failures.firstByte then (true, privDef)
    else
      writeEntry failures
        (Slots.write failures.fill privDef 0 [UInt8.ofNat descrSize]) 1 uuid map
  else
    let wrPos := (findUuidPos privDef uuid (UUID_SIZE + descrSize)).getD privDef.length
    writeEntry failures privDef wrPos uuid map

def setOwnPrivils (failures : Failures) (names : List (List UInt8)) (defs : PrivilDefs)
    (subject : Subject) (tb rec : UInt32) (privVal : List UInt8) : Bool × PrivilDefs :=
  if subject.isDbAdmin then (false, defs)
  else if hasLocation defs tb rec = false then (true, defs)
  else
    let map := derivePrivils names (recordMask rec privVal)
    if failures.lock then (true, defs)
    else
      let (error, privDef) := setInList failures (defs.descrSize tb) subject.uuid map
        ((defs.listOf tb rec).getD [])
      (error, defs.setList tb rec privDef)

/-! Lists in entries. -/

def uuidOf (slot : List UInt8) : List UInt8 := slot.take UUID_SIZE

def mapOf (slot : List UInt8) : List UInt8 := slot.drop UUID_SIZE

/-- A list with its entries: none has been stored, or the entries follow the first byte. -/
structure HoldsEntries (descrSize : Nat) (privDef : List UInt8) (slots : List (List UInt8)) :
    Prop where
  bytes : privDef = [] ∧ slots = [] ∨ ∃ first, privDef = first :: slots.flatten
  widths : ∀ slot ∈ slots, slot.length = UUID_SIZE + descrSize

/-- At most one entry for each subject. -/
def OneEach (slots : List (List UInt8)) : Prop := (slots.map uuidOf).Nodup

def WellFormed (descrSize : Nat) (privDef : List UInt8) : Prop :=
  ∃ slots, HoldsEntries descrSize privDef slots ∧ OneEach slots

section Entries

variable {descrSize : Nat} {privDef uuid map : List UInt8} {slots before after : List (List UInt8)}
  {slot : List UInt8}

theorem uuidOf_append (huuid : uuid.length = UUID_SIZE) : uuidOf (uuid ++ map) = uuid :=
  List.take_left' huuid

theorem mapOf_append (huuid : uuid.length = UUID_SIZE) : mapOf (uuid ++ map) = map :=
  List.drop_left' huuid

theorem slot_width_pos : 0 < UUID_SIZE + descrSize :=
  Nat.lt_of_lt_of_le (by decide) (Nat.le_add_right UUID_SIZE descrSize)

theorem slots_le_length (hwidths : ∀ slot ∈ slots, slot.length = UUID_SIZE + descrSize) :
    slots.length ≤ slots.flatten.length := by
  rw [Slots.length_flatten hwidths]
  exact Nat.le_mul_of_pos_right _ slot_width_pos

theorem findUuidPos_none (hlist : HoldsEntries descrSize privDef slots)
    (habsent : ∀ slot ∈ slots, uuidOf slot ≠ uuid) :
    findUuidPos privDef uuid (UUID_SIZE + descrSize) = none := by
  obtain ⟨rfl, -⟩ | ⟨first, rfl⟩ := hlist.bytes
  · rfl
  · have hlength := slots_le_length hlist.widths
    obtain ⟨fuel, hfuel⟩ := Nat.exists_eq_add_of_le
      (show slots.length ≤ (first :: slots.flatten).length from Nat.le_succ_of_le hlength)
    have hscan := @Slots.scan_none _ (UUID_SIZE + descrSize)
      (fun slot => slot.take UUID_SIZE == uuid) [first] [] slots hlist.widths
      (fun slot hslot => beq_eq_false_iff_ne.mpr (habsent slot hslot)) slot_width_pos fuel
    rw [List.append_nil] at hscan
    rw [findUuidPos, if_neg (List.cons_ne_nil _ _), hfuel]
    exact hscan

theorem findUuidPos_found {first : UInt8} (hslots : slots = before ++ slot :: after)
    (hwidths : ∀ slot ∈ slots, slot.length = UUID_SIZE + descrSize)
    (hbefore : ∀ other ∈ before, uuidOf other ≠ uuid) (hslot : uuidOf slot = uuid) :
    findUuidPos (first :: slots.flatten) uuid (UUID_SIZE + descrSize) =
      some (1 + before.flatten.length) := by
  subst hslots
  have hlength := slots_le_length hwidths
  rw [List.length_append, List.length_cons] at hlength
  obtain ⟨fuel, hfuel⟩ := Nat.exists_eq_add_of_le
    (show before.length + 1 ≤ (first :: (before ++ slot :: after).flatten).length by
      rw [List.length_cons]
      omega)
  have hscan := @Slots.scan_found _ (UUID_SIZE + descrSize)
    (fun slot => slot.take UUID_SIZE == uuid) [first] [] before after slot
    (fun other hother => hwidths other (List.mem_append_left _ hother))
    (fun other hother => beq_eq_false_iff_ne.mpr (hbefore other hother))
    (hwidths slot (List.mem_append_right _ List.mem_cons_self)) (beq_iff_eq.mpr hslot) fuel
  rw [List.append_nil] at hscan
  rw [findUuidPos, if_neg (List.cons_ne_nil _ _), hfuel, Nat.add_assoc, Nat.add_comm 1 fuel]
  exact hscan

theorem mapInList_none (hlist : HoldsEntries descrSize privDef slots)
    (habsent : ∀ slot ∈ slots, uuidOf slot ≠ uuid) :
    mapInList descrSize uuid privDef = clearMap descrSize := by
  rw [mapInList, findUuidPos_none hlist habsent]

theorem mapInList_found {first : UInt8} (hslots : slots = before ++ slot :: after)
    (hwidths : ∀ slot ∈ slots, slot.length = UUID_SIZE + descrSize)
    (hbefore : ∀ other ∈ before, uuidOf other ≠ uuid) (hslot : uuidOf slot = uuid) :
    mapInList descrSize uuid (first :: slots.flatten) = mapOf slot := by
  have hwidth : slot.length = UUID_SIZE + descrSize := by
    apply hwidths
    rw [hslots]
    exact List.mem_append_right _ List.mem_cons_self
  rw [mapInList, findUuidPos_found hslots hwidths hbefore hslot]
  have hflat : first :: slots.flatten =
      (first :: before.flatten) ++ (uuidOf slot ++ (mapOf slot ++ after.flatten)) := by
    rw [hslots, ← List.append_assoc (uuidOf slot), uuidOf, mapOf, List.take_append_drop]
    simp only [List.flatten_append, List.flatten_cons, List.cons_append, List.append_assoc]
  have huuid : (uuidOf slot).length = UUID_SIZE := by
    rw [uuidOf, List.length_take, hwidth]
    omega
  have hmap : (mapOf slot).length = descrSize := by
    rw [mapOf, List.length_drop, hwidth, Nat.add_sub_cancel_left]
  have hpos : 1 + before.flatten.length + UUID_SIZE =
      ((first :: before.flatten) ++ uuidOf slot).length := by
    rw [List.length_append, List.length_cons, huuid]
    omega
  dsimp only
  rw [hflat, ← List.append_assoc, hpos, List.drop_left, List.take_left' hmap]

/-- The map of an entry, wherever it is. -/
theorem mapInList_of_mem (hlist : HoldsEntries descrSize privDef slots) (hone : OneEach slots)
    (hslot : slot ∈ slots) : mapInList descrSize (uuidOf slot) privDef = mapOf slot := by
  obtain ⟨before, after, rfl⟩ := List.append_of_mem hslot
  obtain ⟨-, hnil⟩ | ⟨first, rfl⟩ := hlist.bytes
  · exact absurd hnil (List.append_ne_nil_of_right_ne_nil _ (List.cons_ne_nil _ _))
  · refine mapInList_found rfl hlist.widths ?_ rfl
    intro other hother heq
    rw [OneEach, List.map_append, List.map_cons] at hone
    exact (List.nodup_append.mp hone).2.2 _ (List.mem_map_of_mem hother) _ List.mem_cons_self heq

end Entries

/-! The sum of the maps of the subjects that the user is a member of. -/

section Summary

variable {inGroupdef : List UInt8 → Bool} {descrSize fuel pos bit : Nat}
  {privVal other : List UInt8} {slots : List (List UInt8)}

theorem hasBit_zipWith (hpos : pos < privVal.length) (hlength : privVal.length ≤ other.length)
    (hbit : bit < 8) :
    hasBit (List.zipWith (· ||| ·) privVal other) pos bit =
      (hasBit privVal pos bit || hasBit other pos bit) := by
  have hpos' : pos < other.length := Nat.lt_of_lt_of_le hpos hlength
  rw [hasBit_eq hbit, hasBit_eq hbit, hasBit_eq hbit, List.getD_eq_getElem?_getD,
    List.getD_eq_getElem?_getD, List.getD_eq_getElem?_getD, List.getElem?_zipWith,
    List.getElem?_eq_getElem hpos, List.getElem?_eq_getElem hpos']
  simp only [Option.getD_some]
  rw [UInt8.toNat_or, Nat.testBit_or]

theorem hasBit_clearMap (hbit : bit < 8) : hasBit (clearMap descrSize) pos bit = false := by
  rw [hasBit_eq hbit, clearMap, List.getD_eq_getElem?_getD, List.getElem?_replicate]
  split <;> exact Nat.zero_testBit bit

theorem hasBit_addPrivils (hwidths : ∀ slot ∈ slots, slot.length = UUID_SIZE + descrSize)
    (hlength : privVal.length = descrSize) (hfuel : slots.length ≤ fuel)
    (hpos : pos < descrSize) (hbit : bit < 8) :
    hasBit (addPrivils inGroupdef descrSize fuel slots.flatten privVal) pos bit = true ↔
      hasBit privVal pos bit = true ∨
        ∃ slot ∈ slots, inGroupdef (uuidOf slot) = true ∧ hasBit (mapOf slot) pos bit = true := by
  induction slots generalizing fuel privVal with
  | nil =>
      have hnone : addPrivils inGroupdef descrSize fuel [] privVal = privVal := by
        cases fuel with
        | zero => rfl
        | succ fuel => exact if_pos slot_width_pos
      rw [List.flatten_nil, hnone]
      simp only [List.not_mem_nil, false_and, exists_false, or_false]
  | cons slot slots ih =>
      have hslot : slot.length = UUID_SIZE + descrSize := hwidths slot List.mem_cons_self
      obtain ⟨fuel, rfl⟩ := Nat.exists_eq_add_of_le' hfuel
      rw [List.length_cons, ← Nat.add_assoc, addPrivils, if_neg, List.flatten_cons,
        List.drop_left' hslot]
      · have htake : (slot ++ slots.flatten).take UUID_SIZE = uuidOf slot := by
          rw [uuidOf, List.take_append_of_le_length]
          rw [hslot]
          exact Nat.le_add_right _ _
        have hdrop : (slot ++ slots.flatten).drop UUID_SIZE = mapOf slot ++ slots.flatten := by
          rw [mapOf, List.drop_append_of_le_length]
          rw [hslot]
          exact Nat.le_add_right _ _
        have hmap : (mapOf slot).length = descrSize := by
          rw [mapOf, List.length_drop, hslot, Nat.add_sub_cancel_left]
        have hrest : ∀ other ∈ slots, other.length = UUID_SIZE + descrSize :=
          fun other hother => hwidths other (List.mem_cons_of_mem _ hother)
        rw [htake, hdrop]
        simp only [List.mem_cons, exists_eq_or_imp]
        split
        case isTrue hin =>
          have hlong : privVal.length ≤ (mapOf slot ++ slots.flatten).length := by
            rw [List.length_append, hmap, hlength]
            exact Nat.le_add_right _ _
          have hzip : (List.zipWith (· ||| ·) privVal (mapOf slot ++ slots.flatten)).length =
              descrSize := by
            rw [List.length_zipWith, Nat.min_eq_left hlong, hlength]
          have hleft : hasBit (mapOf slot ++ slots.flatten) pos bit =
              hasBit (mapOf slot) pos bit := by
            rw [hasBit, hasBit, List.getD_eq_getElem?_getD, List.getD_eq_getElem?_getD,
              List.getElem?_append_left (hmap.symm ▸ hpos)]
          rw [ih hrest hzip (Nat.le_add_left _ _), hasBit_zipWith (hlength.symm ▸ hpos) hlong hbit,
            hleft, Bool.or_eq_true, or_assoc]
          simp only [hin, true_and]
        case isFalse hout =>
          rw [ih hrest hlength (Nat.le_add_left _ _)]
          simp only [hout, Bool.false_eq_true, false_and, false_or]
      · rw [List.flatten_cons, List.length_append, hslot]
        omega

/-- The sum has the rights of the subjects in question, and no other ones. -/
theorem hasBit_sumarizePrivils {privDef : List UInt8} (hlist : HoldsEntries descrSize privDef slots)
    (hone : OneEach slots) (hpos : pos < descrSize) (hbit : bit < 8) :
    hasBit (sumarizePrivils inGroupdef descrSize privDef) pos bit = true ↔
      ∃ uuid, inGroupdef uuid = true ∧
        hasBit (mapInList descrSize uuid privDef) pos bit = true := by
  have hsum : hasBit (sumarizePrivils inGroupdef descrSize privDef) pos bit = true ↔
      ∃ slot ∈ slots, inGroupdef (uuidOf slot) = true ∧ hasBit (mapOf slot) pos bit = true := by
    obtain ⟨rfl, rfl⟩ | ⟨first, rfl⟩ := hlist.bytes
    · have hclear := @hasBit_clearMap descrSize pos bit hbit
      simp only [List.not_mem_nil, false_and, exists_false, iff_false]
      change ¬ hasBit (clearMap descrSize) pos bit = true
      rw [hclear]
      exact Bool.false_ne_true
    · have hlength := slots_le_length hlist.widths
      have hfuel : slots.length ≤ (first :: slots.flatten).length := Nat.le_succ_of_le hlength
      rw [sumarizePrivils, List.drop_one, List.tail_cons, hasBit_addPrivils hlist.widths
        List.length_replicate hfuel hpos hbit]
      have hclear := @hasBit_clearMap descrSize pos bit hbit
      rw [clearMap] at hclear
      simp only [hclear, Bool.false_eq_true, false_or]
  rw [hsum]
  constructor
  · rintro ⟨slot, hslot, hin, hmap⟩
    refine ⟨uuidOf slot, hin, ?_⟩
    rw [mapInList_of_mem hlist hone hslot]
    exact hmap
  · rintro ⟨uuid, hin, hmap⟩
    by_cases hmem : ∃ slot ∈ slots, uuidOf slot = uuid
    · obtain ⟨slot, hslot, rfl⟩ := hmem
      rw [mapInList_of_mem hlist hone hslot] at hmap
      exact ⟨slot, hslot, hin, hmap⟩
    · have habsent : ∀ slot ∈ slots, uuidOf slot ≠ uuid :=
        fun slot hslot heq => hmem ⟨slot, hslot, heq⟩
      rw [mapInList_none hlist habsent, hasBit_clearMap hbit] at hmap
      cases hmap

end Summary

end Sql602.Rights
