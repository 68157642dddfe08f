import Sql602.Rights.PrivilWrites

namespace Sql602.Rights

/-! The conversion of a list of privileges when the columns of a table change. -/

def roleUuid (role : UInt32) : List UInt8 :=
  [role.toUInt8, (role >>> 8).toUInt8, (role >>> 16).toUInt8, (role >>> 24).toUInt8] ++
    List.replicate 8 0xff

def isRoleUuid (uuid : List UInt8) (role : UInt32) : Bool := uuid == roleUuid role

/-- The user that alters the table, and the standard roles. -/
structure Session where
  userUuid : List UInt8
  juniorRole : UInt32
  seniorRole : UInt32
  adminRole : UInt32
  authorRole : UInt32
  userUuid_length : userUuid.length = UUID_SIZE

/-- The old number of a new column; the first column is not mapped. -/
def columnMap (oldNames newNames : List (List UInt8)) (column : Nat) : Option Nat :=
  (List.range' 1 (oldNames.length - 1)).find? fun old =>
    oldNames.getD old [] == newNames.getD column []

/-- The rights on new columns. -/
def newColumnRights (session : Session) (global : Bool) (uuid : List UInt8) :
    ColumnRight → Bool
  | .read =>
      global && (uuid == session.userUuid || isRoleUuid uuid session.juniorRole ||
        isRoleUuid uuid session.seniorRole || isRoleUuid uuid session.adminRole ||
        isRoleUuid uuid session.authorRole)
  | .write =>
      global && (uuid == session.userUuid || !isRoleUuid uuid session.juniorRole &&
        (isRoleUuid uuid session.seniorRole || isRoleUuid uuid session.adminRole ||
          isRoleUuid uuid session.authorRole))

def addRights (rights : ColumnRight → Bool) (map : List UInt8) (column : Nat) : List UInt8 :=
  let map := if rights .read then addRead map column else map
  if rights .write then addWrite map column else map

/-- The rights on a column of the new map. -/
def columnRights (oldMap : List UInt8) (defaults : ColumnRight → Bool) (old : Option Nat)
    (right : ColumnRight) : Bool :=
  match old with
  | some old => hasRight right oldMap old
  | none => defaults right

def convertMap (oldNames newNames : List (List UInt8)) (defaults : ColumnRight → Bool)
    (oldMap : List UInt8) : List UInt8 :=
  (List.range' 1 (newNames.length - 1)).foldl
    (fun map column =>
      addRights (columnRights oldMap defaults (columnMap oldNames newNames column)) map column)
    ((clearMap (privilDescrSize newNames.length)).modify 0 fun _ => oldMap.getD 0 0)

def convertSlot (session : Session) (global : Bool) (oldNames newNames : List (List UInt8))
    (slot : List UInt8) : List UInt8 :=
  uuidOf slot ++
    convertMap oldNames newNames (newColumnRights session global (uuidOf slot)) (mapOf slot)

def fullMap (descrSize : Nat) : List UInt8 :=
  (RIGHT_INSERT ||| RIGHT_DEL ||| RIGHT_GRANT ||| RIGHT_READ ||| RIGHT_WRITE) ::
    List.replicate (descrSize - 1) 0xff

def entriesOf (attrcnt : Nat) (privDef : List UInt8) : List (List UInt8) :=
  Slots.slots (UUID_SIZE + privilDescrSize attrcnt) (privDef.drop 1)

/-- The entry of the user that alters the table, when there is none in the list. -/
def ownerSlots (session : Session) (global : Bool) (newNames : List (List UInt8))
    (slots : List (List UInt8)) : List (List UInt8) :=
  if global && !(slots.any fun slot => uuidOf slot == session.userUuid) then
    [session.userUuid ++ fullMap (privilDescrSize newNames.length)]
  else []

/-- The new list without what it is written over. -/
def newPrivDef (session : Session) (global : Bool) (oldNames newNames : List (List UInt8))
    (privDef : List UInt8) : List UInt8 :=
  let slots := entriesOf oldNames.length privDef
  UInt8.ofNat (privilDescrSize newNames.length) ::
    (slots.map (convertSlot session global oldNames newNames) ++
      ownerSlots session global newNames slots).flatten

/-- Whether there is an error, and the list that is stored then. -/
def convertList (fails : Bool) (session : Session) (global : Bool)
    (oldNames newNames : List (List UInt8)) (privDef : List UInt8) : Bool × List UInt8 :=
  if privDef = [] then (false, privDef)
  else if fails then (true, privDef)
  else
    (false, Slots.write (fun _ => 0) privDef 0
      (newPrivDef session global oldNames newNames privDef))

section Columns

variable {rights : ColumnRight → Bool} {right : ColumnRight} {map : List UInt8}
  {column other : Nat}

theorem addRights_length : (addRights rights map column).length = map.length := by
  simp only [addRights, addRead, addWrite]
  split <;> split <;> simp only [addRight_length]

theorem head_addRights : (addRights rights map column).getD 0 0 = map.getD 0 0 := by
  simp only [addRights, addRead, addWrite]
  split <;> split <;> simp only [head_addRight]

theorem hasOwn_addRights (hcolumn : 1 ≤ column) (hother : 1 ≤ other)
    (hpos : columnByte column < map.length) :
    hasOwn right (addRights rights map column) other =
      (hasOwn right map other || decide (column = other) && rights right) := by
  have hread : columnByte column < (addRead map column).length := by
    rw [addRead, addRight_length]
    exact hpos
  have hadd : ∀ added : ColumnRight, ∀ start : List UInt8, columnByte column < start.length →
      hasOwn right (addRight added start column) other =
        (hasOwn right start other || decide (column = other ∧ added = right)) :=
    fun added start hstart => hasOwn_addRight hcolumn hother hstart
  simp only [addRights, addRead, addWrite] at hread ⊢
  cases right with
  | read =>
      cases hr : rights .read <;> cases hw : rights .write <;>
        simp [hadd _ _ hpos, hadd _ _ hread]
  | write =>
      cases hr : rights .read <;> cases hw : rights .write <;>
        simp [hadd _ _ hpos, hadd _ _ hread]

/-- The rights that a passage over columns adds. -/
theorem foldl_addRights {columns : List Nat} {rightsOn : Nat → ColumnRight → Bool}
    (hlow : ∀ column ∈ columns, 1 ≤ column)
    (hpos : ∀ column ∈ columns, columnByte column < map.length) (hother : 1 ≤ other) :
    (columns.foldl (fun map column => addRights (rightsOn column) map column) map).length =
        map.length ∧
      (columns.foldl (fun map column => addRights (rightsOn column) map column) map).getD 0 0 =
        map.getD 0 0 ∧
      hasOwn right (columns.foldl (fun map column => addRights (rightsOn column) map column) map)
          other =
        (hasOwn right map other || decide (other ∈ columns) && rightsOn other right) := by
  induction columns generalizing map with
  | nil => simp
  | cons column columns ih =>
      obtain ⟨hcolumn, hlow'⟩ := List.forall_mem_cons.mp hlow
      obtain ⟨hbyte, hpos'⟩ := List.forall_mem_cons.mp hpos
      obtain ⟨hlength, hhead, hown⟩ := @ih (addRights (rightsOn column) map column) hlow'
        (fun c hc => by
          rw [addRights_length]
          exact hpos' c hc)
      rw [List.foldl_cons]
      refine ⟨hlength.trans addRights_length, hhead.trans head_addRights, ?_⟩
      rw [hown, hasOwn_addRights hcolumn hother hbyte, Bool.or_assoc]
      apply congrArg
      by_cases heq : other = column
      · subst heq
        simp
      · simp [heq, Ne.symm heq]

end Columns

section Maps

variable {oldNames newNames : List (List UInt8)} {defaults : ColumnRight → Bool}
  {oldMap : List UInt8} {right : ColumnRight} {column : Nat}

/-- The global rights stay, and the bits of the columns are those that the map of the columns
gives. -/
theorem convertMap_spec (hcolumn : 1 ≤ column) :
    (convertMap oldNames newNames defaults oldMap).length = privilDescrSize newNames.length ∧
      (convertMap oldNames newNames defaults oldMap).getD 0 0 = oldMap.getD 0 0 ∧
      (column < newNames.length →
        hasOwn right (convertMap oldNames newNames defaults oldMap) column =
          columnRights oldMap defaults (columnMap oldNames newNames column) right) := by
  have hmem : ∀ c, c ∈ List.range' 1 (newNames.length - 1) → 1 ≤ c ∧ c < newNames.length := by
    intro c hc
    obtain ⟨hlow, hhigh⟩ := List.mem_range'_1.mp hc
    exact ⟨hlow, by omega⟩
  have hstart : ((clearMap (privilDescrSize newNames.length)).modify 0
      fun _ => oldMap.getD 0 0).length = privilDescrSize newNames.length := by
    rw [List.length_modify, clearMap, List.length_replicate]
  have hnone : hasOwn right ((clearMap (privilDescrSize newNames.length)).modify 0
      fun _ => oldMap.getD 0 0) column = false := by
    have hzero := @hasBit_clearMap (privilDescrSize newNames.length) (columnByte column)
      (columnBit right column) columnBit_lt
    rw [hasBit] at hzero
    rw [hasOwn, hasBit, List.getD_eq_getElem?_getD, List.getElem?_modify_ne,
      ← List.getD_eq_getElem?_getD]
    · exact hzero
    · unfold columnByte
      omega
  obtain ⟨hlength, hhead, hown⟩ := @foldl_addRights right
    ((clearMap (privilDescrSize newNames.length)).modify 0 fun _ => oldMap.getD 0 0) column
    (List.range' 1 (newNames.length - 1))
    (fun column => columnRights oldMap defaults (columnMap oldNames newNames column))
    (fun c hc => (hmem c hc).1)
    (fun c hc => by
      rw [hstart]
      exact columnByte_lt (hmem c hc).2) hcolumn
  refine ⟨hlength.trans hstart, hhead.trans ?_, fun hcount => hown.trans ?_⟩
  · have hpos : 0 < privilDescrSize newNames.length := by
      unfold privilDescrSize
      omega
    rw [clearMap, List.getD_eq_getElem?_getD, List.getElem?_modify_eq,
      List.getElem?_replicate, if_pos hpos]
    rfl
  · have hin : column ∈ List.range' 1 (newNames.length - 1) :=
      List.mem_range'_1.mpr ⟨hcolumn, by omega⟩
    rw [hnone, Bool.false_or, decide_eq_true hin, Bool.true_and]

theorem convertMap_length :
    (convertMap oldNames newNames defaults oldMap).length = privilDescrSize newNames.length :=
  (@convertMap_spec oldNames newNames defaults oldMap .read 1 (Nat.le_refl 1)).1

theorem head_convertMap :
    (convertMap oldNames newNames defaults oldMap).getD 0 0 = oldMap.getD 0 0 :=
  (@convertMap_spec oldNames newNames defaults oldMap .read 1 (Nat.le_refl 1)).2.1

theorem hasOwn_convertMap (hcolumn : 1 ≤ column) (hcount : column < newNames.length) :
    hasOwn right (convertMap oldNames newNames defaults oldMap) column =
      columnRights oldMap defaults (columnMap oldNames newNames column) right :=
  (convertMap_spec hcolumn).2.2 hcount

/-- A column that stays has the rights that it had. -/
theorem hasRight_convertMap {old : Nat} (hcolumn : 1 ≤ column) (hcount : column < newNames.length)
    (hold : columnMap oldNames newNames column = some old) :
    hasRight right (convertMap oldNames newNames defaults oldMap) column =
      hasRight right oldMap old := by
  rw [hasRight, head_convertMap, hasOwn_convertMap hcolumn hcount, hold, columnRights, hasRight,
    ← Bool.or_assoc, Bool.or_self]

end Maps

/-! The map of a subject in a list with a rest that is shorter than an entry. -/

section Reading

variable {descrSize : Nat} {first : UInt8} {items : List UInt8}

theorem mapInList_slots (uuid : List UInt8) :
    mapInList descrSize uuid (first :: items) =
      mapIn descrSize uuid (Slots.slots (UUID_SIZE + descrSize) items) := by
  obtain ⟨rest, hitems, hwidths, hrest⟩ :=
    Slots.packed_slots items (@slot_width_pos descrSize)
  generalize Slots.slots (UUID_SIZE + descrSize) items = slots at hitems hwidths ⊢
  subst hitems
  have hlong : slots.length ≤ (slots.flatten ++ rest).length := by
    have hcount := slots_le_length hwidths
    rw [List.length_append]
    omega
  obtain habsent | ⟨before, slot, after, rfl, hbefore, hslot⟩ :=
    Slots.first_or_none (fun slot => slot.take UUID_SIZE == uuid) slots
  · obtain ⟨fuel, hfuel⟩ := Nat.exists_eq_add_of_le
      (show slots.length ≤ (first :: (slots.flatten ++ rest)).length from Nat.le_succ_of_le hlong)
    have hscan := @Slots.scan_none _ (UUID_SIZE + descrSize)
      (fun slot => slot.take UUID_SIZE == uuid) [first] rest slots hwidths habsent hrest fuel
    have hpos : findUuidPos (first :: (slots.flatten ++ rest)) uuid (UUID_SIZE + descrSize) =
        none := by
      rw [findUuidPos, if_neg (List.cons_ne_nil _ _), hfuel]
      exact hscan
    rw [mapInList, hpos, mapIn_absent fun slot hmem => beq_eq_false_iff_ne.mp (habsent slot hmem)]
  · have hwidth : slot.length = UUID_SIZE + descrSize :=
      hwidths slot (List.mem_append_right _ List.mem_cons_self)
    rw [List.length_append, List.length_cons] at hlong
    obtain ⟨fuel, hfuel⟩ := Nat.exists_eq_add_of_le
      (show before.length + 1 ≤ (first :: ((before ++ slot :: after).flatten ++ rest)).length by
        rw [List.length_cons]
        omega)
    have hscan := @Slots.scan_found _ (UUID_SIZE + descrSize)
      (fun slot => slot.take UUID_SIZE == uuid) [first] rest before after slot
      (fun other hother => hwidths other (List.mem_append_left _ hother)) hbefore hwidth hslot fuel
    have hpos : findUuidPos (first :: ((before ++ slot :: after).flatten ++ rest)) uuid
        (UUID_SIZE + descrSize) = some (1 + before.flatten.length) := by
      rw [findUuidPos, if_neg (List.cons_ne_nil _ _), hfuel, Nat.add_assoc, Nat.add_comm 1 fuel]
      exact hscan
    have huuid : (uuidOf slot).length = UUID_SIZE := by
      rw [uuidOf, List.length_take, hwidth]
      omega
    have hmap : (mapOf slot).length = descrSize := by
      rw [mapOf, List.length_drop, hwidth, Nat.add_sub_cancel_left]
    have hflat : first :: ((before ++ slot :: after).flatten ++ rest) =
        (first :: before.flatten ++ uuidOf slot) ++ (mapOf slot ++ (after.flatten ++ rest)) := by
      have hparts : slot = uuidOf slot ++ mapOf slot := (List.take_append_drop UUID_SIZE slot).symm
      rw [List.append_assoc, ← List.append_assoc (uuidOf slot), ← hparts]
      simp only [List.flatten_append, List.flatten_cons, List.cons_append, List.append_assoc]
    have hdrop : 1 + before.flatten.length + UUID_SIZE =
        (first :: before.flatten ++ uuidOf slot).length := by
      rw [List.length_append, List.length_cons, huuid]
      omega
    rw [mapInList, hpos, mapIn_present
      (fun other hother => beq_eq_false_iff_ne.mp (hbefore other hother)) (beq_iff_eq.mp hslot)]
    dsimp only
    rw [hflat, hdrop, List.drop_left, List.take_left' hmap]

end Reading

/-! The list after the conversion. -/

section Lists

variable (session : Session) (global : Bool) (oldNames newNames : List (List UInt8))
  (privDef : List UInt8)

/-- The entry of a subject after the conversion: the columns that stay have the rights that they
had, and the own bits of the others are the defaults. -/
structure EntryConverted (slot converted : List UInt8) : Prop where
  subject : uuidOf converted = uuidOf slot
  head : (mapOf converted).getD 0 0 = (mapOf slot).getD 0 0
  kept : ∀ (right : ColumnRight) (column old : Nat), 1 ≤ column → column < newNames.length →
    columnMap oldNames newNames column = some old →
      hasRight right (mapOf converted) column = hasRight right (mapOf slot) old
  added : ∀ (right : ColumnRight) (column : Nat), 1 ≤ column → column < newNames.length →
    columnMap oldNames newNames column = none →
      hasOwn right (mapOf converted) column =
        newColumnRights session global (uuidOf slot) right

/-- The entries of the stored list are those of the old one, converted, and then that of the user
that alters the table, when there was none. So every other subject reads the rights that it had
on the columns that stay. -/
structure ListConverted (stored : List UInt8) : Prop where
  entries : ∃ converted, List.Forall₂ (EntryConverted session global oldNames newNames)
      (entriesOf oldNames.length privDef) converted ∧
    entriesOf newNames.length stored =
      converted ++ ownerSlots session global newNames (entriesOf oldNames.length privDef)
  reads : ∀ (uuid : List UInt8) (right : ColumnRight) (column old : Nat),
    (uuid = session.userUuid → global = true →
      ∃ slot ∈ entriesOf oldNames.length privDef, uuidOf slot = uuid) →
    1 ≤ column → column < newNames.length → columnMap oldNames newNames column = some old →
      hasRight right (mapInList (privilDescrSize newNames.length) uuid stored) column =
        hasRight right (mapInList (privilDescrSize oldNames.length) uuid privDef) old

theorem entriesOf_width {attrcnt : Nat} {slot : List UInt8}
    (hslot : slot ∈ entriesOf attrcnt privDef) :
    slot.length = UUID_SIZE + privilDescrSize attrcnt := by
  obtain ⟨rest, hpacked⟩ := Slots.packed_slots (privDef.drop 1)
    (@slot_width_pos (privilDescrSize attrcnt))
  exact hpacked.widths slot hslot

theorem uuidOf_length {descrSize : Nat} {slot : List UInt8}
    (hslot : slot.length = UUID_SIZE + descrSize) : (uuidOf slot).length = UUID_SIZE := by
  rw [uuidOf, List.length_take, hslot]
  omega

theorem convertSlot_converted {descrSize : Nat} {slot : List UInt8}
    (hslot : slot.length = UUID_SIZE + descrSize) :
    EntryConverted session global oldNames newNames slot
      (convertSlot session global oldNames newNames slot) := by
  have huuid := uuidOf_length hslot
  have hmap : mapOf (convertSlot session global oldNames newNames slot) =
      convertMap oldNames newNames (newColumnRights session global (uuidOf slot)) (mapOf slot) :=
    mapOf_append huuid
  constructor
  case subject => exact uuidOf_append huuid
  case head =>
    rw [hmap]
    exact head_convertMap
  case kept =>
    intro right column old hcolumn hcount hold
    rw [hmap]
    exact hasRight_convertMap hcolumn hcount hold
  case added =>
    intro right column hcolumn hcount hnew
    rw [hmap, hasOwn_convertMap hcolumn hcount, hnew]
    rfl

theorem newSlots_width {slot : List UInt8}
    (hslot : slot ∈ (entriesOf oldNames.length privDef).map
        (convertSlot session global oldNames newNames) ++
      ownerSlots session global newNames (entriesOf oldNames.length privDef)) :
    slot.length = UUID_SIZE + privilDescrSize newNames.length := by
  cases List.mem_append.mp hslot with
  | inl hconverted =>
      obtain ⟨old, hold, rfl⟩ := List.mem_map.mp hconverted
      rw [convertSlot, List.length_append, convertMap_length,
        uuidOf_length (entriesOf_width privDef hold)]
  | inr howner =>
      have hpos : 0 < privilDescrSize newNames.length := by
        unfold privilDescrSize
        omega
      rw [ownerSlots] at howner
      split at howner
      · rw [List.mem_singleton.mp howner, List.length_append, session.userUuid_length, fullMap,
          List.length_cons, List.length_replicate]
        omega
      · cases howner

theorem hasRight_clearMap {right : ColumnRight} {descrSize column : Nat} :
    hasRight right (clearMap descrSize) column = false := by
  have hown : hasOwn right (clearMap descrSize) column = false := hasBit_clearMap columnBit_lt
  have hhead : (clearMap descrSize).getD 0 0 = 0 := by
    cases descrSize <;> rfl
  rw [hasRight, hown, hhead, UInt8.zero_and]
  rfl

/-- A subject reads the rights that it had, unless its entry has been added. -/
theorem hasRight_mapIn {slots converted added : List (List UInt8)} {uuid : List UInt8}
    {right : ColumnRight} {column old oldSize newSize : Nat}
    (hentries : List.Forall₂ (EntryConverted session global oldNames newNames) slots converted)
    (hadded : ∀ slot ∈ added, uuidOf slot = uuid → ∃ slot ∈ slots, uuidOf slot = uuid)
    (hcolumn : 1 ≤ column) (hcount : column < newNames.length)
    (hold : columnMap oldNames newNames column = some old) :
    hasRight right (mapIn newSize uuid (converted ++ added)) column =
      hasRight right (mapIn oldSize uuid slots) old := by
  induction hentries with
  | nil =>
      have habsent : ∀ slot ∈ added, uuidOf slot ≠ uuid := by
        intro slot hslot heq
        obtain ⟨other, hother, -⟩ := hadded slot hslot heq
        cases hother
      rw [List.nil_append, mapIn_absent habsent, mapIn, hasRight_clearMap, hasRight_clearMap]
  | cons hentry _ ih =>
      rw [List.cons_append, mapIn, mapIn, hentry.subject]
      split
      case isTrue => exact hentry.kept right column old hcolumn hcount hold
      case isFalse hother =>
        apply ih
        intro slot hslot heq
        obtain ⟨found, hfound, huuid⟩ := hadded slot hslot heq
        obtain rfl | hfound := List.mem_cons.mp hfound
        · exact absurd huuid hother
        · exact ⟨found, hfound, huuid⟩

theorem mem_ownerSlots {slots : List (List UInt8)} {slot : List UInt8}
    (hslot : slot ∈ ownerSlots session global newNames slots) :
    global = true ∧ uuidOf slot = session.userUuid := by
  rw [ownerSlots] at hslot
  split at hslot
  case isTrue hadds =>
    rw [List.mem_singleton.mp hslot]
    exact ⟨(Bool.and_eq_true_iff.mp hadds).1, uuidOf_append session.userUuid_length⟩
  case isFalse => cases hslot

end Lists

/-- A user and standard roles. -/
def alteringSession : Session := ⟨List.replicate 12 9, 2, 3, 4, 5, rfl⟩

/-- An entry of another user. -/
def otherDef : List UInt8 := 2 :: (List.replicate 12 7 ++ [0, 1])

end Sql602.Rights
